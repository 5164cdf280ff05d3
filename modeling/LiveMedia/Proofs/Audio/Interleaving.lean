import LiveMedia.Proofs.Audio.Timeline

/-!
# Interleaved samples

Interleaved samples are a table: a row for each position, with a sample for each channel. `Table` is such a
table, and the three forms in which the samples occur are read off it: the bytes on the wire row by row
(`Table.bytes`), the channels column by column (`Table.columns`), and a list of channels of any lengths as
the table that is filled up with silence (`Table.ofChannels`).

Writing channels writes their table (`encodeSamples_eq`), splitting the bytes of a table gives its columns
(`Table.decodeSamples_bytes`), and the columns make the table they came from (`Table.rows_ofChannels_columns`).
Both round trips are compositions of these.

A payload that comes in pieces is read one byte after the other, so only the bytes in a row matter
(`decodePieces?_eq`). The exception is a number of channels for which the size of a row is no word, or more
channels than can be listed: there the machine stops (`decodePieces?_eq_none_iff`).
-/

namespace LiveMedia.Audio

open LiveMedia.Wire LiveMedia.Playback

-- ── a sample and its bytes ──────────────────────────────────────────

/-- Where the bits of two numbers do not meet, putting them together adds them. -/
theorem or_mul_two_pow {a k : Nat} (h : a < 2 ^ k) (b : Nat) : a ||| b * 2 ^ k = a + b * 2 ^ k := by
  rw [Nat.or_comm, Nat.add_comm, ← Nat.shiftLeft_eq, Nat.shiftLeft_add_eq_or_of_lt h]

namespace Sample

theorem toNat_ofBytes (a b c d : UInt8) :
    (ofBytes a b c d).bits.toNat =
      a.toNat + b.toNat * 2 ^ 8 + c.toNat * 2 ^ 16 + d.toNat * 2 ^ 24 := by
  have ha := a.toNat_lt
  have hb := b.toNat_lt
  have hc := c.toNat_lt
  have hd := d.toNat_lt
  have h8 : UInt32.toNat 8 % 32 = 8 := rfl
  have h16 : UInt32.toNat 16 % 32 = 16 := rfl
  have h24 : UInt32.toNat 24 % 32 = 24 := rfl
  simp only [ofBytes, UInt32.toNat_or, UInt32.toNat_shiftLeft, UInt8.toNat_toUInt32, h8, h16, h24,
    Nat.shiftLeft_eq]
  -- no shift leaves the word
  rw [Nat.mod_eq_of_lt (by omega), Nat.mod_eq_of_lt (by omega), Nat.mod_eq_of_lt (by omega)]
  rw [or_mul_two_pow (k := 8) (by omega), or_mul_two_pow (k := 16) (by omega),
    or_mul_two_pow (k := 24) (by omega)]

/-- The bytes of a sample make the sample, whatever its bits mean. -/
theorem ofBytes_bytes (s : Sample) :
    ofBytes s.bits.toUInt8 (s.bits >>> 8).toUInt8 (s.bits >>> 16).toUInt8 (s.bits >>> 24).toUInt8 = s := by
  obtain ⟨bits⟩ := s
  have hbits : (ofBytes bits.toUInt8 (bits >>> 8).toUInt8 (bits >>> 16).toUInt8
      (bits >>> 24).toUInt8).bits = bits := by
    have hlt := bits.toNat_lt
    rw [← UInt32.toNat_inj, toNat_ofBytes]
    simp [Nat.shiftRight_eq_div_pow]
    omega
  exact congrArg Sample.mk hbits

theorem encode_ofBytes (a b c d : UInt8) : (ofBytes a b c d).encode = [a, b, c, d] := by
  have ha := a.toNat_lt
  have hb := b.toNat_lt
  have hc := c.toNat_lt
  have hd := d.toNat_lt
  simp only [encode, List.cons.injEq, ← UInt8.toNat_inj, UInt32.toNat_toUInt8, UInt32.toNat_shiftRight,
    toNat_ofBytes, and_true]
  simp [Nat.shiftRight_eq_div_pow]
  omega

theorem length_encode (s : Sample) : s.encode.length = 4 := rfl

theorem length_encodeAll (samples : List Sample) :
    (samples.flatMap encode).length = 4 * samples.length := by
  induction samples with
  | nil => rfl
  | cons s samples ih =>
      rw [List.flatMap_cons, List.length_append, ih, length_encode, List.length_cons]
      omega

/-- Reading what was written gives the samples. -/
theorem decodeAll_encodeAll (samples : List Sample) : decodeAll (samples.flatMap encode) = samples := by
  induction samples with
  | nil => rfl
  | cons s samples ih =>
      show ofBytes _ _ _ _ :: decodeAll (samples.flatMap encode) = s :: samples
      rw [ih, ofBytes_bytes]

/-- Bytes of whole samples are what is written for some samples. -/
theorem exists_encodeAll {k : Nat} {bs : Bytes} (h : bs.length = 4 * k) :
    ∃ samples : List Sample, samples.length = k ∧ samples.flatMap encode = bs := by
  induction k generalizing bs with
  | zero => exact ⟨[], rfl, (List.eq_nil_of_length_eq_zero h).symm⟩
  | succ k ih =>
      match bs with
      | a :: b :: c :: d :: bs =>
        have hrest : bs.length = 4 * k := by
          simp only [List.length_cons] at h
          omega
        obtain ⟨samples, hlength, hbytes⟩ := ih hrest
        refine ⟨ofBytes a b c d :: samples, by rw [List.length_cons, hlength], ?_⟩
        rw [List.flatMap_cons, encode_ofBytes, hbytes]
        rfl
      | [] | [_] | [_, _] | [_, _, _] =>
        simp only [List.length_cons, List.length_nil] at h
        omega

end Sample

-- ── channels ────────────────────────────────────────────────────────

/-- Channels of one length with the same sample at every position are equal. -/
theorem Channel.eq_of_sampleAt {a b : Channel} (hsize : a.size = b.size)
    (h : ∀ p, sampleAt a p = sampleAt b p) : a = b := by
  apply Array.ext hsize
  intro p ha hb
  have hsample := h p
  rwa [sampleAt, sampleAt, Array.getElem?_eq_getElem ha, Array.getElem?_eq_getElem hb] at hsample

theorem sampleAt_append_silence (channel : Channel) (k p : Nat) :
    sampleAt (channel ++ Array.replicate k .silence) p = sampleAt channel p := by
  simp only [sampleAt, Array.getElem?_append, Array.getElem?_replicate]
  split
  · rfl
  · rw [Array.getElem?_eq_none (by omega)]
    split <;> rfl

theorem longest_eq_max? (channels : List Channel) :
    longest channels = (channels.map Array.size).max?.getD 0 := by
  rw [longest, ← List.foldl_map (f := Array.size) (g := max), List.foldl_max, Nat.zero_max]

theorem size_le_longest {channels : List Channel} {channel : Channel} (h : channel ∈ channels) :
    channel.size ≤ longest channels := by
  rw [longest_eq_max?]
  exact List.le_max?_getD_of_mem (List.mem_map_of_mem h)

/-- Channels of one length are all the longest. -/
theorem longest_eq {channels : List Channel} {m : Nat} (hne : channels ≠ [])
    (h : ∀ channel ∈ channels, channel.size = m) : longest channels = m := by
  obtain ⟨first, hfirst⟩ := List.exists_mem_of_ne_nil channels hne
  have hmax : (channels.map Array.size).max? = some m := by
    rw [List.max?_eq_some_iff]
    constructor
    · exact List.mem_map.mpr ⟨first, hfirst, h first hfirst⟩
    · intro k hk
      obtain ⟨channel, hchannel, rfl⟩ := List.mem_map.mp hk
      exact Nat.le_of_eq (h channel hchannel)
  rw [longest_eq_max?, hmax, Option.getD_some]

/-- Channels filled up with silence to the length of the longest one. -/
def padded (channels : List Channel) : List Channel :=
  channels.map fun channel => channel ++ Array.replicate (longest channels - channel.size) .silence

-- ── tables ──────────────────────────────────────────────────────────

/-- Rows of `n` samples, one for each channel. -/
structure Table (n : Nat) where
  rows : List (List Sample)
  width : ∀ row ∈ rows, row.length = n

theorem length_flatten_of_width {n : Nat} {rows : List (List Sample)}
    (h : ∀ row ∈ rows, row.length = n) : rows.flatten.length = rows.length * n := by
  induction rows with
  | nil => simp
  | cons row rows ih =>
      rw [List.flatten_cons, List.length_append, h row List.mem_cons_self,
        ih fun r hr => h r (List.mem_cons_of_mem _ hr), List.length_cons, Nat.succ_mul]
      exact Nat.add_comm _ _

/-- Channel `c` of row `p` stands `c` samples behind the `p` rows before it. -/
theorem getElem?_flatten_of_width {n : Nat} {rows : List (List Sample)}
    (h : ∀ row ∈ rows, row.length = n) {c : Nat} (hc : c < n) (p : Nat) :
    rows.flatten[p * n + c]? = rows[p]?.bind (·[c]?) := by
  induction rows generalizing p with
  | nil => simp
  | cons row rows ih =>
      have hrow : row.length = n := h row List.mem_cons_self
      cases p with
      | zero => simp [List.getElem?_append_left, hrow, hc]
      | succ p =>
          have hback : (p + 1) * n + c - row.length = p * n + c := by
            rw [Nat.succ_mul, hrow]
            omega
          rw [List.flatten_cons, List.getElem?_append_right, hback,
            ih fun r hr => h r (List.mem_cons_of_mem _ hr)]
          · rfl
          · rw [Nat.succ_mul, hrow]
            omega

/-- Samples can be laid out in rows as soon as their number is a multiple of the width. -/
theorem exists_rows {n m : Nat} {samples : List Sample} (h : samples.length = m * n) :
    ∃ t : Table n, t.rows.length = m ∧ t.rows.flatten = samples := by
  induction m generalizing samples with
  | zero =>
      rw [Nat.zero_mul] at h
      exact ⟨⟨[], fun _ hrow => nomatch hrow⟩, rfl, (List.eq_nil_of_length_eq_zero h).symm⟩
  | succ m ih =>
      rw [Nat.succ_mul] at h
      have hrest : (samples.drop n).length = m * n := by
        rw [List.length_drop]
        omega
      obtain ⟨⟨rows, width⟩, hlength, hsamples⟩ := ih hrest
      have hfirst : (samples.take n).length = n := List.length_take_of_le (by omega)
      refine ⟨⟨samples.take n :: rows, ?_⟩, congrArg (· + 1) hlength, ?_⟩
      · rintro row (_ | ⟨_, hrow⟩)
        · exact hfirst
        · exact width row hrow
      · rw [List.flatten_cons, hsamples, List.take_append_drop]

namespace Table

variable {n : Nat}

/-- The bytes of the samples, row by row. -/
def bytes (t : Table n) : Bytes := t.rows.flatten.flatMap Sample.encode

/-- The samples of one channel, from the first row to the last. -/
def column (t : Table n) (c : Nat) : Channel := (t.rows.map fun row => row[c]?.getD .silence).toArray

def columns (t : Table n) : List Channel := (List.range n).map t.column

/-- The rows of channels. Short channels are filled up with silence. -/
def ofChannels (channels : List Channel) : Table channels.length where
  rows := (List.range (longest channels)).map fun p => channels.map (sampleAt · p)
  width row hrow := by
    obtain ⟨p, -, rfl⟩ := List.mem_map.mp hrow
    exact List.length_map _

theorem length_bytes (t : Table n) : t.bytes.length = t.rows.length * (4 * n) := by
  rw [bytes, Sample.length_encodeAll, length_flatten_of_width t.width, Nat.mul_left_comm]

/-- Bytes of whole rows are those of a table. -/
theorem exists_bytes_eq {bs : Bytes} (h : bs.length % (4 * n) = 0) : ∃ t : Table n, t.bytes = bs := by
  obtain ⟨m, hm⟩ := Nat.dvd_of_mod_eq_zero h
  have hsamples : bs.length = 4 * (m * n) := by
    rw [hm]
    ring
  obtain ⟨samples, hlength, rfl⟩ := Sample.exists_encodeAll hsamples
  obtain ⟨t, -, rfl⟩ := exists_rows hlength
  exact ⟨t, rfl⟩

theorem size_column (t : Table n) (c : Nat) : (t.column c).size = t.rows.length := by
  rw [column, List.size_toArray, List.length_map]

theorem sampleAt_column (t : Table n) (c p : Nat) :
    sampleAt (t.column c) p = (t.rows[p]?.bind (·[c]?)).getD .silence := by
  rw [sampleAt, column, List.getElem?_toArray, List.getElem?_map]
  cases t.rows[p]? <;> rfl

theorem length_columns (t : Table n) : t.columns.length = n := by
  rw [columns, List.length_map, List.length_range]

/-- **Splitting the bytes of a table** gives its columns. -/
theorem decodeSamples_bytes (t : Table n) (hn : n ≠ 0) : decodeSamples t.bytes n = .ok t.columns := by
  have hrows : t.bytes.length % (4 * n) = 0 := by
    rw [t.length_bytes]
    exact Nat.mul_mod_left _ _
  have hsize : t.rows.flatten.toArray.size / n = t.rows.length := by
    rw [List.size_toArray, length_flatten_of_width t.width]
    exact Nat.mul_div_cancel _ (Nat.pos_of_ne_zero hn)
  rw [decodeSamples, if_neg (by omega), bytes, Sample.decodeAll_encodeAll]
  refine congrArg Except.ok (List.map_congr_left fun c hc => ?_)
  rw [List.mem_range] at hc
  apply Channel.eq_of_sampleAt
  · rw [deinterleave, Array.size_map, Array.size_range, hsize, size_column]
  · intro p
    rw [sampleAt_column, ← getElem?_flatten_of_width t.width hc, sampleAt, deinterleave, hsize]
    by_cases hp : p < t.rows.length
    · simp [hp, sampleAt]
    · have hpast : t.rows.flatten[p * n + c]? = none := by
        rw [getElem?_flatten_of_width t.width hc, List.getElem?_eq_none (by omega), Option.bind_none]
      simp [hp, hpast]

/-- Channels are written as their table. -/
theorem encodeSamples_eq (channels : List Channel) :
    encodeSamples channels = (ofChannels channels).bytes := by
  simp only [encodeSamples, bytes, ofChannels, ← List.flatMap_def, List.flatMap_assoc, List.flatMap_map]

/-- The columns of the table of some channels are the channels, filled up. -/
theorem columns_ofChannels (channels : List Channel) : (ofChannels channels).columns = padded channels := by
  apply List.ext_getElem
  · rw [length_columns, padded, List.length_map]
  · intro c hc hc'
    rw [length_columns] at hc
    simp only [columns, padded, List.getElem_map, List.getElem_range]
    have hsize : channels[c].size ≤ longest channels := size_le_longest (List.getElem_mem hc)
    apply Channel.eq_of_sampleAt
    · rw [size_column, Array.size_append, Array.size_replicate, ofChannels, List.length_map,
        List.length_range]
      omega
    · intro p
      rw [sampleAt_column, sampleAt_append_silence, ofChannels]
      by_cases hp : p < longest channels
      · simp [hp, hc]
      · rw [sampleAt, Array.getElem?_eq_none (by omega)]
        simp [hp]

/-- The columns of a table make the table they came from. -/
theorem rows_ofChannels_columns (t : Table n) (hn : n ≠ 0) : (ofChannels t.columns).rows = t.rows := by
  have hlongest : longest t.columns = t.rows.length := by
    apply longest_eq
    · exact List.ne_nil_of_length_pos (by rw [t.length_columns]; omega)
    · intro channel hchannel
      obtain ⟨c, -, rfl⟩ := List.mem_map.mp hchannel
      exact t.size_column c
  apply List.ext_getElem
  · rw [ofChannels, List.length_map, List.length_range, hlongest]
  · intro p _ hp
    have hwidth : t.rows[p].length = n := t.width _ (List.getElem_mem hp)
    simp only [ofChannels, List.getElem_map, List.getElem_range]
    apply List.ext_getElem
    · rw [List.length_map, t.length_columns, hwidth]
    · intro c hc hc'
      simp only [columns, List.getElem_map, List.getElem_range]
      rw [sampleAt_column, List.getElem?_eq_getElem hp, Option.bind_some, List.getElem?_eq_getElem hc',
        Option.getD_some]

theorem encodeSamples_columns (t : Table n) (hn : n ≠ 0) : encodeSamples t.columns = t.bytes := by
  rw [encodeSamples_eq, bytes, rows_ofChannels_columns t hn, bytes]

end Table

-- ── payloads in pieces ──────────────────────────────────────────────

theorem nextByte?_of_flatten {pieces : List Bytes} {b : UInt8} {bs : Bytes}
    (h : pieces.flatten = b :: bs) :
    ∃ rest, nextByte? pieces = some (b, rest) ∧ rest.flatten = bs := by
  induction pieces with
  | nil => cases h
  | cons piece pieces ih =>
      cases piece with
      | nil => exact ih h
      | cons first piece =>
          obtain ⟨rfl, hbs⟩ := List.cons.inj h
          exact ⟨piece :: pieces, rfl, hbs⟩

/-- The next sample is found wherever its bytes lie. -/
theorem Sample.next?_of_flatten {pieces : List Bytes} {s : Sample} {bs : Bytes}
    (h : pieces.flatten = s.encode ++ bs) :
    ∃ rest, Sample.next? pieces = some (s, rest) ∧ rest.flatten = bs := by
  obtain ⟨_, ha, h⟩ := nextByte?_of_flatten h
  obtain ⟨_, hb, h⟩ := nextByte?_of_flatten h
  obtain ⟨_, hc, h⟩ := nextByte?_of_flatten h
  obtain ⟨rest, hd, h⟩ := nextByte?_of_flatten h
  refine ⟨rest, ?_, h⟩
  simp only [Sample.next?, ha, hb, hc, hd, Option.bind_eq_bind, Option.bind_some, ofBytes_bytes]
  rfl

theorem takeRow?_of_flatten {channels : List Channel} {row : List Sample} {pieces : List Bytes}
    {bs : Bytes} (hwidth : row.length = channels.length)
    (h : pieces.flatten = row.flatMap Sample.encode ++ bs) :
    ∃ rest, takeRow? channels pieces = some (List.zipWith Array.push channels row, rest) ∧
      rest.flatten = bs := by
  induction channels generalizing row pieces with
  | nil =>
      obtain rfl := List.eq_nil_of_length_eq_zero hwidth
      exact ⟨pieces, rfl, h⟩
  | cons channel channels ih =>
      cases row with
      | nil => cases hwidth
      | cons s row =>
          rw [List.flatMap_cons, List.append_assoc] at h
          obtain ⟨_, hnext, h⟩ := Sample.next?_of_flatten h
          obtain ⟨rest, hrow, h⟩ := ih (Nat.succ.inj hwidth) h
          refine ⟨rest, ?_, h⟩
          simp only [takeRow?, hnext, hrow, Option.bind_eq_bind, Option.bind_some]
          rfl

/-- A row leaves the number of channels as it is. -/
theorem width_of_cons {channels : List Channel} {row : List Sample} {rows : List (List Sample)}
    (hwidth : ∀ r ∈ row :: rows, r.length = channels.length) :
    ∀ r ∈ rows, r.length = (List.zipWith Array.push channels row).length := by
  intro r hr
  rw [List.length_zipWith, hwidth row List.mem_cons_self, Nat.min_self]
  exact hwidth r (List.mem_cons_of_mem _ hr)

/-- Rows are taken one after the other. -/
theorem takeRows?_of_flatten {rows : List (List Sample)} {channels : List Channel} {pieces : List Bytes}
    (hwidth : ∀ row ∈ rows, row.length = channels.length)
    (h : pieces.flatten = rows.flatten.flatMap Sample.encode) :
    takeRows? rows.length channels pieces = some (rows.foldl (List.zipWith Array.push) channels) := by
  induction rows generalizing channels pieces with
  | nil => rfl
  | cons row rows ih =>
      rw [List.flatten_cons, List.flatMap_append] at h
      obtain ⟨rest, htake, h⟩ := takeRow?_of_flatten (hwidth row List.mem_cons_self) h
      simp only [List.length_cons, takeRows?, htake, Option.bind_eq_bind, Option.bind_some, List.foldl_cons]
      exact ih (width_of_cons hwidth) h

/-- Each row puts one sample more at the end of each channel. -/
theorem getElem?_foldl_push {rows : List (List Sample)} {channels : List Channel}
    (hwidth : ∀ row ∈ rows, row.length = channels.length) (c : Nat) :
    (rows.foldl (List.zipWith Array.push) channels)[c]? =
      channels[c]?.map (· ++ (rows.map fun row => row[c]?.getD .silence).toArray) := by
  induction rows generalizing channels with
  | nil => simp
  | cons row rows ih =>
      have hrow : row.length = channels.length := hwidth row List.mem_cons_self
      rw [List.foldl_cons, ih (width_of_cons hwidth), List.getElem?_zipWith]
      by_cases hc : c < channels.length
      · simp [hc, hrow]
      · simp [hc]

/-- Taking all rows of a table gives its columns. -/
theorem Table.takeRows?_bytes {n : Nat} (t : Table n) {pieces : List Bytes} (h : pieces.flatten = t.bytes) :
    takeRows? t.rows.length (List.replicate n #[]) pieces = some t.columns := by
  have hwidth : ∀ row ∈ t.rows, row.length = (List.replicate n (#[] : Channel)).length := by
    rw [List.length_replicate]
    exact t.width
  rw [takeRows?_of_flatten hwidth h]
  refine congrArg some (List.ext_getElem? fun c => ?_)
  rw [getElem?_foldl_push hwidth, columns, List.getElem?_map, List.getElem?_replicate]
  by_cases hc : c < n
  · simp [hc, column]
  · simp [hc]

theorem size_of_pieces (pieces : List Bytes) :
    pieces.foldl (fun n piece => n + piece.length) 0 = pieces.flatten.length := by
  suffices hfold : ∀ n, pieces.foldl (fun n piece => n + piece.length) n = n + pieces.flatten.length by
    rw [hfold, Nat.zero_add]
  induction pieces with
  | nil => simp
  | cons piece pieces ih =>
      intro n
      rw [List.foldl_cons, ih, List.flatten_cons, List.length_append, Nat.add_assoc]

theorem mostChannels_eq : mostChannels = (2 ^ 63 - 1) / 24 := rfl

/-- **Only the bytes in a row matter.** There is no answer where the size of a row is no word, or where there
    would be more channels than can be listed. -/
theorem decodePieces?_eq (pieces : List Bytes) (n : Nat) :
    decodePieces? pieces n =
      if 2 ^ 64 ≤ 4 * n ∨ mostChannels < n ∧ pieces.flatten.length % (4 * n) = 0 then none
      else some (decodeSamples pieces.flatten n) := by
  have hword : 1 <<< 64 = 2 ^ 64 := rfl
  have hmost := mostChannels_eq
  simp only [decodePieces?, size_of_pieces, hword]
  by_cases hzero : n = 0
  · rw [if_pos hzero, if_neg (by omega), decodeSamples, if_pos (.inl hzero)]
  rw [if_neg hzero]
  by_cases hlarge : 2 ^ 64 ≤ 4 * n
  · rw [if_pos hlarge, if_pos (.inl hlarge)]
  rw [if_neg hlarge]
  by_cases hrows : pieces.flatten.length % (4 * n) = 0
  · rw [if_neg (not_not.mpr hrows)]
    by_cases hmany : mostChannels < n
    · rw [if_pos hmany, if_pos (.inr ⟨hmany, hrows⟩)]
    · obtain ⟨t, ht⟩ := Table.exists_bytes_eq hrows
      have hcount : t.rows.length * (4 * n) / (4 * n) = t.rows.length := Nat.mul_div_cancel _ (by omega)
      rw [if_neg hmany, if_neg (by omega), ← ht, t.length_bytes, hcount, t.takeRows?_bytes ht.symm,
        t.decodeSamples_bytes hzero]
      rfl
  · rw [if_pos hrows, if_neg (by omega), decodeSamples, if_pos (.inr hrows)]

theorem decodePieces?_of_le {n : Nat} (h : n ≤ mostChannels) (pieces : List Bytes) :
    decodePieces? pieces n = some (decodeSamples pieces.flatten n) := by
  have hmost := mostChannels_eq
  rw [decodePieces?_eq, if_neg (by omega)]

theorem decodePieces?_eq_none_iff (pieces : List Bytes) (n : Nat) :
    decodePieces? pieces n = none ↔
      2 ^ 64 ≤ 4 * n ∨ mostChannels < n ∧ pieces.flatten.length % (4 * n) = 0 := by
  rw [decodePieces?_eq]
  split
  · next h => exact iff_of_true rfl h
  · next h => exact iff_of_false (Option.some_ne_none _) h

/-- An answer is that of the payload in one piece. -/
theorem decodeSamples_of_decodePieces? {pieces : List Bytes} {n : Nat}
    {answer : Except DecodeError (List Channel)} (h : decodePieces? pieces n = some answer) :
    decodeSamples pieces.flatten n = answer := by
  rw [decodePieces?_eq] at h
  split at h
  · cases h
  · exact Option.some.inj h

theorem decodeSamples_eq_error_iff {bs : Bytes} {n : Nat} {e : DecodeError} :
    decodeSamples bs n = .error e ↔ e = .invalidValue ∧ (n = 0 ∨ bs.length % (4 * n) ≠ 0) := by
  rw [decodeSamples]
  split
  · next h =>
    constructor
    · rintro ⟨⟩
      exact ⟨rfl, h⟩
    · rintro ⟨rfl, -⟩
      rfl
  · next h =>
    constructor
    · intro hok
      cases hok
    · rintro ⟨-, hinvalid⟩
      exact absurd hinvalid h

theorem decodePieces?_eq_error_iff {pieces : List Bytes} {n : Nat} {e : DecodeError} :
    decodePieces? pieces n = some (.error e) ↔
      e = .invalidValue ∧ (n = 0 ∨ 4 * n < 2 ^ 64 ∧ pieces.flatten.length % (4 * n) ≠ 0) := by
  have hmost := mostChannels_eq
  rw [decodePieces?_eq]
  split
  · next hstop =>
    constructor
    · intro h
      cases h
    · rintro ⟨-, hinvalid⟩
      omega
  · next hanswer =>
    rw [Option.some_inj, decodeSamples_eq_error_iff]
    constructor
    · rintro ⟨he, hinvalid⟩
      exact ⟨he, by omega⟩
    · rintro ⟨he, hinvalid⟩
      exact ⟨he, by omega⟩

-- ── round trips ─────────────────────────────────────────────────────

theorem decodeSamples_encodeSamples {channels : List Channel} (hne : channels ≠ []) :
    decodeSamples (encodeSamples channels) channels.length = .ok (padded channels) := by
  have hlength : channels.length ≠ 0 := fun h => hne (List.eq_nil_of_length_eq_zero h)
  rw [Table.encodeSamples_eq, Table.decodeSamples_bytes _ hlength, Table.columns_ofChannels]

theorem encodeSamples_decodeSamples {bs : Bytes} {n : Nat} (hn : n ≠ 0) (hrows : bs.length % (4 * n) = 0) :
    ∃ channels, decodeSamples bs n = .ok channels ∧ channels.length = n ∧ encodeSamples channels = bs := by
  obtain ⟨t, rfl⟩ := Table.exists_bytes_eq hrows
  exact ⟨t.columns, t.decodeSamples_bytes hn, t.length_columns, t.encodeSamples_columns hn⟩

/-- A frame is split into channels and written, if there are whole rows in it. -/
theorem AudioBuffer.writeFrame_eq {r : Ring} (f : MediaFrame) :
    (AudioBuffer.mk (some r)).writeFrame f =
      match decodeSamples f.bytes r.channels.length with
      | .ok data => (AudioBuffer.mk (some r)).write f.timestamp data
      | .error e => .error (.decode e) := by
  show (Except.mapError _ _).bind _ = _
  cases decodeSamples f.bytes r.channels.length <;> rfl

/-- **Samples survive interleaving.** On a machine that counts in words, and as long as there are no more
    channels than can be listed:

    * Channels of any lengths, written and split again, come back filled up with silence to the longest.
    * Bytes of whole rows, split and written again, come back as they were.
    * The payload is invalid exactly if there is no channel, or if its bytes do not make up whole rows.

    Beyond that number the machine stops where a row has no size or whole rows have to be split, and it is
    the only thing that sets such numbers apart. How a payload is cut never matters. A frame is written as its
    channels, and a buffer that refuses it stays what it was. -/
theorem samples_survive_interleaving (channels : List Channel) (pieces others : List Bytes) (n : Nat)
    (b : AudioBuffer) (f : MediaFrame) :
    (channels ≠ [] → channels.length ≤ mostChannels → pieces.flatten = encodeSamples channels →
      decodePieces? pieces channels.length = some (.ok (padded channels))) ∧
    (n ≠ 0 → n ≤ mostChannels → pieces.flatten.length % (4 * n) = 0 →
      ∃ decoded, decodePieces? pieces n = some (.ok decoded) ∧ decoded.length = n ∧
        encodeSamples decoded = pieces.flatten) ∧
    (∀ e : DecodeError, decodePieces? pieces n = some (.error e) ↔
      e = .invalidValue ∧ (n = 0 ∨ 4 * n < 2 ^ 64 ∧ pieces.flatten.length % (4 * n) ≠ 0)) ∧
    (decodePieces? pieces n = none ↔
      2 ^ 64 ≤ 4 * n ∨ mostChannels < n ∧ pieces.flatten.length % (4 * n) = 0) ∧
    (pieces.flatten = others.flatten → decodePieces? pieces n = decodePieces? others n) ∧
    (b.ring = none → b.writeFrame f = .error .notInitialized) ∧
    (∀ r data, b.ring = some r → decodePieces? f.payload r.channels.length = some (.ok data) →
      b.writeFrame f = b.write f.timestamp data) ∧
    (∀ r e, b.ring = some r → decodePieces? f.payload r.channels.length = some (.error e) →
      b.writeFrame f = .error (.decode e)) ∧
    ∀ e, b.writeFrame f = .error e → b.call (.writeFrame f) = (.refused e, b) := by
  refine ⟨?_, ?_, fun e => decodePieces?_eq_error_iff, decodePieces?_eq_none_iff pieces n, ?_, ?_⟩
  · intro hne hmost hpieces
    rw [decodePieces?_of_le hmost, hpieces, decodeSamples_encodeSamples hne]
  · intro hn hmost hrows
    rw [decodePieces?_of_le hmost]
    obtain ⟨decoded, hdecoded, hlength, hencoded⟩ := encodeSamples_decodeSamples hn hrows
    exact ⟨decoded, congrArg some hdecoded, hlength, hencoded⟩
  · intro hsame
    rw [decodePieces?_eq, decodePieces?_eq, hsame]
  · obtain ⟨ring⟩ := b
    refine ⟨?_, ?_, ?_, ?_⟩
    · rintro rfl
      rfl
    · rintro r data rfl hdata
      rw [AudioBuffer.writeFrame_eq, MediaFrame.bytes, decodeSamples_of_decodePieces? hdata]
    · rintro r e rfl he
      rw [AudioBuffer.writeFrame_eq, MediaFrame.bytes, decodeSamples_of_decodePieces? he]
    · intro e he
      simp only [AudioBuffer.call, he]

/-- Two channels of different lengths, in a payload that is cut inside of a sample, and one that no buffer
    takes. -/
theorem samples_survive_interleaving_stereo :
    encodeSamples [#[⟨0x3f000000⟩, ⟨0xbf000000⟩], #[⟨0x7fc00001⟩]] =
        [0, 0, 0, 0x3f, 1, 0, 0xc0, 0x7f, 0, 0, 0, 0xbf, 0, 0, 0, 0] ∧
      decodePieces? [[0, 0, 0, 0x3f, 1, 0], [], [0xc0], [0x7f, 0, 0, 0, 0xbf, 0, 0, 0, 0]] 2 =
        some (.ok [#[⟨0x3f000000⟩, ⟨0xbf000000⟩], #[⟨0x7fc00001⟩, .silence]]) ∧
      (AudioBuffer.mk none).writeFrame ⟨⟨⟨0⟩⟩, true, [[1, 2, 3]]⟩ = .error .notInitialized := by
  have hcuts := samples_survive_interleaving [#[⟨0x3f000000⟩, ⟨0xbf000000⟩], #[⟨0x7fc00001⟩]]
    [[0, 0, 0, 0x3f, 1, 0], [], [0xc0], [0x7f, 0, 0, 0, 0xbf, 0, 0, 0, 0]] [] 2 ⟨none⟩
    ⟨⟨⟨0⟩⟩, true, [[1, 2, 3]]⟩
  obtain ⟨hback, -, -, -, -, hrefused, -⟩ := hcuts
  exact ⟨by decide, hback (by decide) (by decide) (by decide), hrefused rfl⟩

/-- Four bytes make no whole row of as many channels as this, and yet they are not refused: the size of a row
    is no word. -/
theorem row_without_size_stops :
    [[0, 0, 0, 0]].flatten.length % (4 * 2 ^ 62) ≠ 0 ∧ decodePieces? [[0, 0, 0, 0]] (2 ^ 62) = none :=
  ⟨by decide, rfl⟩

end LiveMedia.Audio
