import LiveMedia.Message.Parameters
import LiveMedia.Proofs.Entries
import LiveMedia.Proofs.Wire.Primitive

/-!
# Parameters in any order

A table of parameters is written in whatever order its entries come, the numbers before the byte strings.
`inverts_entries` says that the order does not matter: the entries that are read back are put into the
same table. `inverts_decodeEntries` is the induction, once for both classes; what it asks of a class is
that an entry whose ID is new is read and added.

The count in front is held to a limit by the reader only. So a table that has a wire form is read back
exactly if it has no more entries than the limit.
-/

namespace LiveMedia.Message.Parameters

open LiveMedia.Wire

-- ── tables that are built ───────────────────────────────────────────

/-- One parameter that is set. -/
inductive Setting where
  | number (key : NumberKey) (value : Nat)
  | bytes (key : BytesKey) (value : Bytes)

def set (p : Parameters) : Setting → Parameters
  | .number key value => p.setNumber key value
  | .bytes key value => p.setBytes key value

/-- The parameters after these settings, one after the other. -/
def ofSettings (settings : List Setting) : Parameters := settings.foldl set empty

/-- Both classes are in order. -/
structure Ascending (p : Parameters) : Prop where
  numbers : p.numbers.Ascending
  blobs : p.blobs.Ascending

theorem Ascending.set {p : Parameters} (h : p.Ascending) (setting : Setting) :
    (p.set setting).Ascending := by
  cases setting with
  | number key value => exact ⟨Entries.ascending_insert _ _ h.numbers, h.blobs⟩
  | bytes key value => exact ⟨h.numbers, Entries.ascending_insert _ _ h.blobs⟩

theorem Ascending.setAll {p : Parameters} (h : p.Ascending) (settings : List Setting) :
    (settings.foldl Parameters.set p).Ascending := by
  induction settings generalizing p with
  | nil => exact h
  | cons setting settings ih => exact ih (h.set setting)

/-- However parameters were set, their tables are sorted. -/
theorem ascending_ofSettings (settings : List Setting) : (ofSettings settings).Ascending :=
  Ascending.setAll ⟨Entries.ascending_nil, Entries.ascending_nil⟩ settings

-- ── one entry ───────────────────────────────────────────────────────

def addNumber (p : Parameters) (entry : Nat × Nat) : Parameters :=
  { p with numbers := p.numbers.insert entry.1 entry.2 }

def addBytes (p : Parameters) (entry : Nat × Bytes) : Parameters :=
  { p with blobs := p.blobs.insert entry.1 entry.2 }

theorem inverts_numberEntry {p : Parameters} {entry : Nat × Nat}
    (hnew : p.numbers.find? entry.1 = none) :
    Inverts p.decodeEntry (p.addNumber entry) (encodeNumberEntry entry) := by
  rw [encodeNumberEntry]
  split
  · exact inverts_error _ _ _
  · next hparity =>
    have heven : entry.1 % 2 = 0 := Decidable.not_not.mp hparity
    refine (inverts_wide entry.1).andThen ?_
    rw [if_pos heven, hnew]
    exact (inverts_wide entry.2).thenPure rfl

theorem inverts_bytesEntry {p : Parameters} {entry : Nat × Bytes}
    (hnew : p.blobs.find? entry.1 = none) :
    Inverts p.decodeEntry (p.addBytes entry) (encodeBytesEntry entry) := by
  rw [encodeBytesEntry]
  split
  · exact inverts_error _ _ _
  · next hodd =>
    refine (inverts_wide entry.1).andThen ?_
    rw [if_neg hodd, hnew]
    exact (inverts_bytes entry.2).thenPure rfl

-- ── entries in a row ────────────────────────────────────────────────

/-- Entries that can be read one by one are read in a row. -/
theorem inverts_decodeEntries {ε : Type} {encodeEntry : ε → Encoded}
    (add : Parameters → ε → Parameters) (Fits : Parameters → List ε → Prop)
    (hone : ∀ {p e es}, Fits p (e :: es) → Inverts p.decodeEntry (add p e) (encodeEntry e))
    (hrest : ∀ {p e es}, Fits p (e :: es) → Fits (add p e) es) {p : Parameters} {es : List ε}
    (hfits : Fits p es) :
    Inverts (decodeEntries p es.length) (es.foldl add p) (encodeAll encodeEntry es) := by
  induction es generalizing p with
  | nil => exact inverts_nil p
  | cons e es ih =>
      rw [encodeAll_cons]
      exact (hone hfits).andThen (ih (hrest hfits))

/-- Numbers with new IDs are read into the table one after the other. -/
theorem inverts_numbers {p : Parameters} {es : Entries Nat} (hfresh : p.numbers.Fresh es) :
    Inverts (decodeEntries p es.length) { p with numbers := p.numbers.insertAll es }
      (encodeAll encodeNumberEntry es) := by
  have hall : es.foldl addNumber p = { p with numbers := p.numbers.insertAll es } :=
    List.foldl_hom (fun numbers => { p with numbers }) fun _ _ => rfl
  rw [← hall]
  exact inverts_decodeEntries addNumber (fun p es => p.numbers.Fresh es)
    (fun h => inverts_numberEntry h.find?_eq_none) (fun h => h.insert) hfresh

/-- Byte strings with new IDs are read into the table one after the other. -/
theorem inverts_blobs {p : Parameters} {es : Entries Bytes} (hfresh : p.blobs.Fresh es) :
    Inverts (decodeEntries p es.length) { p with blobs := p.blobs.insertAll es }
      (encodeAll encodeBytesEntry es) := by
  have hall : es.foldl addBytes p = { p with blobs := p.blobs.insertAll es } :=
    List.foldl_hom (fun blobs => { p with blobs }) fun _ _ => rfl
  rw [← hall]
  exact inverts_decodeEntries addBytes (fun p es => p.blobs.Fresh es)
    (fun h => inverts_bytesEntry h.find?_eq_none) (fun h => h.insert) hfresh

/-- Some entries are read, and then the others. -/
theorem decodeEntries_add (p : Parameters) (m n : Nat) :
    decodeEntries p (m + n) = decodeEntries p m >>= fun p => decodeEntries p n := by
  induction m generalizing p with
  | zero =>
      rw [Nat.zero_add]
      rfl
  | succ m ih =>
      rw [Nat.succ_add]
      funext bs
      show (p.decodeEntry.andThen fun p => decodeEntries p (m + n)) bs =
        ((p.decodeEntry.andThen fun p => decodeEntries p m).andThen fun p => decodeEntries p n) bs
      rw [Decoder.andThen, Decoder.andThen, Decoder.andThen]
      cases p.decodeEntry bs with
      | mk answer rest =>
          cases answer with
          | error e => rfl
          | ok p => exact congrFun (ih p) rest

-- ── whole tables ────────────────────────────────────────────────────

theorem encodeEntries_eq (ns : Entries Nat) (bs : Entries Bytes) : encodeEntries ns bs =
    Encoded.append (encodeCompact (ns.length + bs.length))
      (Encoded.append (encodeAll encodeNumberEntry ns) (encodeAll encodeBytesEntry bs)) := by
  simp only [encodeEntries, Encoded.append, bind_assoc, pure_bind]

/-- **The order of the entries does not matter**: behind the count they are read back as the table that
    they were taken from. -/
theorem inverts_entries {p : Parameters} (hp : p.Ascending) {ns : Entries Nat} {bs : Entries Bytes}
    (hns : ns.Perm p.numbers) (hbs : bs.Perm p.blobs) :
    Inverts (decodeEntries empty (ns.length + bs.length)) p
      (Encoded.append (encodeAll encodeNumberEntry ns) (encodeAll encodeBytesEntry bs)) := by
  have hnumbers := inverts_numbers (p := empty) (Entries.fresh_of_perm hp.numbers hns)
  have hblobs := inverts_blobs (p := ⟨p.numbers, []⟩) (Entries.fresh_of_perm hp.blobs hbs)
  rw [Entries.insertAll_of_perm hp.blobs hbs] at hblobs
  have hfirst : empty.numbers.insertAll ns = p.numbers := Entries.insertAll_of_perm hp.numbers hns
  rw [hfirst] at hnumbers
  rw [decodeEntries_add]
  exact hnumbers.andThen hblobs

/-- **Parameters that have a wire form are read back unless they are too many.** Whatever is set, in whatever
    order the entries of each class are written, and whatever stands behind: up to the limit the reader gets
    what was set and leaves what stands behind, and beyond it the reader refuses the count. -/
theorem decodes_iff_size_le (settings : List Setting) (ns : Entries Nat) (bs : Entries Bytes)
    (wire rest : Bytes) (hns : ns.Perm (ofSettings settings).numbers)
    (hbs : bs.Perm (ofSettings settings).blobs) (hwire : encodeEntries ns bs = .ok wire) :
    let p := ofSettings settings
    (decode.run (wire ++ rest) = (.ok p, rest) ↔ p.size ≤ entryLimit) ∧
      (entryLimit < p.size → (decode.run (wire ++ rest)).1 = .error .tooMany) := by
  intro p
  have hsize : ns.length + bs.length = p.size := by
    rw [hns.length_eq, hbs.length_eq, size]
  rw [encodeEntries_eq] at hwire
  obtain ⟨count, entries, hcount, hentries, rfl⟩ := append_eq_ok hwire
  have hrun : decode.run (count ++ entries ++ rest) =
      (if p.size ≤ entryLimit then decodeEntries empty p.size else .fail .tooMany).run
        (entries ++ rest) := by
    rw [List.append_assoc, ← hsize]
    exact Decoder.run_bind_ok (inverts_compact _ count hcount (entries ++ rest))
  have hall := inverts_entries (ascending_ofSettings settings) hns hbs entries hentries rest
  rw [hsize] at hall
  by_cases hle : p.size ≤ entryLimit
  · rw [hrun, if_pos hle, hall]
    exact ⟨iff_of_true rfl hle, fun hlt => absurd hle (Nat.not_le_of_lt hlt)⟩
  · rw [hrun, if_neg hle]
    exact ⟨iff_of_false (fun h => nomatch h) hle, fun _ => rfl⟩

/-- Three parameters, one of them set twice and under two names, written in another order than that of
    their IDs, with a byte behind. -/
theorem decodes_iff_size_le_three :
    decode.run ([3, 4, 9, 2, 7, 1, 1, 47] ++ [255]) =
      (.ok (ofSettings [.number .maxRequestId 1, .bytes .path [47], .number (.unknown 2) 7,
        .number .maxAuthTokenCacheSize 9]), [255]) :=
  (decodes_iff_size_le [.number .maxRequestId 1, .bytes .path [47], .number (.unknown 2) 7,
    .number .maxAuthTokenCacheSize 9] [(4, 9), (2, 7)] [(1, [47])] [3, 4, 9, 2, 7, 1, 1, 47] [255]
    (.swap (2, 7) (4, 9) []) (.refl _) rfl).1.mpr (by decide)

/-- One parameter more than the limit. -/
def sixtyFive : List Setting := (List.range 65).map fun n => .number (.unknown (2 * n)) 0

/-- **Too many parameters are written** without complaint, and cannot be read back. -/
theorem too_many_are_written : ∃ wire, (ofSettings sixtyFive).encode = .ok wire ∧
    (decode.run wire).1 = .error .tooMany := ⟨_, rfl, rfl⟩

end LiveMedia.Message.Parameters
