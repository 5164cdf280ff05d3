import LiveMedia.Proofs.Message.Parameters
import LiveMedia.Proofs.Wire.Lengths
import Mathlib.Data.List.Induction

/-!
# The grammar of parameters

On the wire parameters are a count and so many entries. An entry is an ID and a value, a number if the ID is
even and a byte string if it is odd, and every integer may stand in any length that it fits in. `Entry.Spelled`
and `Spelled` say so without the decoder.

The decoder accepts exactly this grammar, as long as the count is no more than the limit and no ID comes
twice. What carries the induction along the entries is `Shows`: the table that was built so far has exactly
the entries that were read. It decides each lookup, so an entry is added if its ID is new
(`decodeEntry_new`) and refused before its value is read otherwise (`decodeEntry_repeated`). As it speaks of
membership only, it does not know in which order the entries came (`Shows.eq_of_perm`).
-/

namespace LiveMedia.Message.Parameters

open LiveMedia.Wire

-- ── the grammar ─────────────────────────────────────────────────────

/-- A parameter as it stands on the wire. -/
inductive Entry where
  | number (id value : Nat)
  | bytes (id : Nat) (value : Bytes)

namespace Entry

def id : Entry → Nat
  | number id _ => id
  | bytes id _ => id

/-- The parity of the ID is that of the class. -/
def Fits : Entry → Prop
  | number id _ => id % 2 = 0
  | bytes id _ => id % 2 = 1

/-- The bytes are the entry. The length of a byte string is of the compact class, as every length is. -/
inductive Spelled : Entry → Bytes → Prop where
  | number {id value : Nat} {key front : Bytes} : id % 2 = 0 → Varint.Spelled id key →
      Varint.Spelled value front → Spelled (.number id value) (key ++ front)
  | bytes {id : Nat} {value key front : Bytes} : id % 2 = 1 → Varint.Spelled id key →
      Varint.Spelled value.length front → value.length ≤ Varint.compactMaximum →
      Spelled (.bytes id value) (key ++ (front ++ value))

theorem Spelled.fits {e : Entry} {bs : Bytes} (h : e.Spelled bs) : e.Fits := by
  cases h with
  | number heven _ _ => exact heven
  | bytes hodd _ _ _ => exact hodd

theorem Fits.exists_number {e : Entry} (h : e.Fits) (heven : e.id % 2 = 0) :
    ∃ value, e = .number e.id value := by
  cases e with
  | number id value => exact ⟨value, rfl⟩
  | bytes id value =>
      have hodd : id % 2 = 1 := h
      exact absurd (hodd.symm.trans heven) (by decide)

theorem Fits.exists_bytes {e : Entry} (h : e.Fits) (hodd : e.id % 2 = 1) :
    ∃ value, e = .bytes e.id value := by
  cases e with
  | number id value =>
      have heven : id % 2 = 0 := h
      exact absurd (hodd.symm.trans heven) (by decide)
  | bytes id value => exact ⟨value, rfl⟩

/-- An entry begins with its ID. -/
theorem Spelled.exists_id {e : Entry} {bs : Bytes} (h : e.Spelled bs) :
    ∃ key value, Varint.Spelled e.id key ∧ bs = key ++ value := by
  cases h with
  | number _ hkey _ => exact ⟨_, _, hkey, rfl⟩
  | bytes _ hkey _ _ => exact ⟨_, _, hkey, rfl⟩

end Entry

/-- The bytes are the entries, one after the other. -/
inductive Spelled : List Entry → Bytes → Prop where
  | nil : Spelled [] []
  | cons {e : Entry} {es : List Entry} {front back : Bytes} : e.Spelled front → Spelled es back →
      Spelled (e :: es) (front ++ back)

theorem Spelled.split {es es' : List Entry} {bs : Bytes} (h : Spelled (es ++ es') bs) :
    ∃ front back, Spelled es front ∧ Spelled es' back ∧ bs = front ++ back := by
  induction es generalizing bs with
  | nil => exact ⟨[], bs, .nil, h, rfl⟩
  | cons e es ih =>
      cases h with
      | cons hfirst hrest =>
          obtain ⟨front, back, hfront, hback, rfl⟩ := ih hrest
          exact ⟨_, back, .cons hfirst hfront, hback, (List.append_assoc _ _ _).symm⟩

/-- An ID that comes twice comes for the second time somewhere. -/
theorem exists_repeated {es : List Entry} (h : ¬ (es.map Entry.id).Nodup) :
    ∃ front e back, es = front ++ e :: back ∧ (front.map Entry.id).Nodup ∧
      e.id ∈ front.map Entry.id := by
  induction es using List.reverseRecOn with
  | nil => exact absurd List.nodup_nil h
  | append_singleton es e ih =>
      by_cases hes : (es.map Entry.id).Nodup
      · refine ⟨es, e, [], rfl, hes, ?_⟩
        by_contra hnew
        refine h ?_
        rw [List.map_append, List.map_cons, List.map_nil, List.nodup_append]
        refine ⟨hes, List.pairwise_singleton _ _, fun id hid id' hid' heq => hnew ?_⟩
        rwa [← List.mem_singleton.mp hid', ← heq]
      · obtain ⟨front, e', back, rfl, hnodup, hmem⟩ := ih hes
        exact ⟨front, e', back ++ [e], by simp, hnodup, hmem⟩

-- ── tables of entries ───────────────────────────────────────────────

/-- The table with one entry more. -/
def add (p : Parameters) : Entry → Parameters
  | .number id value => p.addNumber (id, value)
  | .bytes id value => p.addBytes (id, value)

/-- The table has exactly these entries. -/
structure Shows (p : Parameters) (es : List Entry) : Prop where
  ascending : p.Ascending
  fits : ∀ e ∈ es, e.Fits
  numbers : ∀ id value, (id, value) ∈ p.numbers ↔ .number id value ∈ es
  blobs : ∀ id value, (id, value) ∈ p.blobs ↔ .bytes id value ∈ es

namespace Shows

variable {p p' : Parameters} {es es' : List Entry} {e : Entry} {id : Nat}

theorem empty : Shows empty [] where
  ascending := ⟨Entries.ascending_nil, Entries.ascending_nil⟩
  fits _ he := absurd he List.not_mem_nil
  numbers _ _ := iff_of_false List.not_mem_nil List.not_mem_nil
  blobs _ _ := iff_of_false List.not_mem_nil List.not_mem_nil

/-- The order of the entries is not seen. -/
theorem perm (h : Shows p es) (hperm : es'.Perm es) : Shows p es' where
  ascending := h.ascending
  fits e he := h.fits e (hperm.mem_iff.mp he)
  numbers id value := (h.numbers id value).trans hperm.mem_iff.symm
  blobs id value := (h.blobs id value).trans hperm.mem_iff.symm

/-- **The entries are the table.** -/
theorem eq_of_perm (h : Shows p es) (h' : Shows p' es') (hperm : es'.Perm es) : p' = p := by
  have hsame := h'.perm hperm.symm
  have hnumbers : p'.numbers = p.numbers := Entries.eq_of_mem_iff hsame.ascending.numbers
    h.ascending.numbers fun e => (hsame.numbers e.1 e.2).trans (h.numbers e.1 e.2).symm
  have hblobs : p'.blobs = p.blobs := Entries.eq_of_mem_iff hsame.ascending.blobs
    h.ascending.blobs fun e => (hsame.blobs e.1 e.2).trans (h.blobs e.1 e.2).symm
  cases p
  cases p'
  rw [Parameters.mk.injEq]
  exact ⟨hnumbers, hblobs⟩

/-- An ID is not in the table of its class exactly if it is new. -/
theorem find?_eq_none_iff {α : Type} {table : Entries α} {entry : Nat → α → Entry}
    (hs : table.Ascending) (hmem : ∀ id value, (id, value) ∈ table ↔ entry id value ∈ es)
    (hid : ∀ value, (entry id value).id = id)
    (hclass : ∀ e ∈ es, e.id = id → ∃ value, e = entry id value) :
    table.find? id = none ↔ id ∉ es.map Entry.id := by
  rw [Entries.find?_eq_none_iff hs]
  constructor
  · intro hnone hold
    obtain ⟨e, he, heq⟩ := List.mem_map.mp hold
    obtain ⟨value, rfl⟩ := hclass e he heq
    exact hnone value ((hmem id value).mpr he)
  · exact fun hnew value hv => hnew (List.mem_map.mpr ⟨_, (hmem id value).mp hv, hid value⟩)

/-- An even ID is looked up among the numbers. -/
theorem number_eq_none_iff (h : Shows p es) (heven : id % 2 = 0) :
    p.numbers.find? id = none ↔ id ∉ es.map Entry.id := by
  refine find?_eq_none_iff h.ascending.numbers h.numbers (fun _ => rfl) fun e he heq => ?_
  exact heq ▸ (h.fits e he).exists_number (heq.symm ▸ heven)

/-- An odd ID is looked up among the byte strings. -/
theorem blob_eq_none_iff (h : Shows p es) (hodd : id % 2 = 1) :
    p.blobs.find? id = none ↔ id ∉ es.map Entry.id := by
  refine find?_eq_none_iff h.ascending.blobs h.blobs (fun _ => rfl) fun e he heq => ?_
  exact heq ▸ (h.fits e he).exists_bytes (heq.symm ▸ hodd)

/-- An entry with a new ID comes to the others. -/
theorem add (h : Shows p es) (he : e.Fits) (hnew : e.id ∉ es.map Entry.id) :
    Shows (p.add e) (es ++ [e]) := by
  have hfits : ∀ e' ∈ es ++ [e], e'.Fits := by
    intro e' he'
    rcases List.mem_append.mp he' with hmem | hmem
    · exact h.fits e' hmem
    · exact List.mem_singleton.mp hmem ▸ he
  cases e with
  | number id value =>
      have hnone := (h.number_eq_none_iff he).mpr hnew
      refine ⟨⟨Entries.ascending_insert _ _ h.ascending.numbers, h.ascending.blobs⟩, hfits, ?_, ?_⟩
      · intro id' value'
        refine (Entries.perm_insert value hnone).mem_iff.trans ?_
        rw [List.mem_cons, h.numbers id' value', List.mem_append, List.mem_singleton, or_comm,
          Prod.mk.injEq, Entry.number.injEq]
      · intro id' value'
        refine (h.blobs id' value').trans ?_
        rw [List.mem_append, List.mem_singleton, or_iff_left (fun heq => by cases heq)]
  | bytes id value =>
      have hnone := (h.blob_eq_none_iff he).mpr hnew
      refine ⟨⟨h.ascending.numbers, Entries.ascending_insert _ _ h.ascending.blobs⟩, hfits, ?_, ?_⟩
      · intro id' value'
        refine (h.numbers id' value').trans ?_
        rw [List.mem_append, List.mem_singleton, or_iff_left (fun heq => by cases heq)]
      · intro id' value'
        refine (Entries.perm_insert value hnone).mem_iff.trans ?_
        rw [List.mem_cons, h.blobs id' value', List.mem_append, List.mem_singleton, or_comm,
          Prod.mk.injEq, Entry.bytes.injEq]

end Shows

-- ── one entry ───────────────────────────────────────────────────────

section Reading

variable {p p' : Parameters} {es : List Entry} {e : Entry} {bs rest : Bytes}

/-- **An entry with a new ID is read and added.** -/
theorem decodeEntry_new (h : Shows p es) (he : e.Spelled bs) (hnew : e.id ∉ es.map Entry.id)
    (rest : Bytes) : p.decodeEntry.run (bs ++ rest) = (.ok (p.add e), rest) := by
  cases he with
  | number heven hkey hvalue =>
      rw [List.append_assoc, decodeEntry, Decoder.run_bind_ok (hkey.wide _), if_pos heven,
        (h.number_eq_none_iff heven).mpr hnew, Decoder.run_bind_ok (hvalue.wide rest)]
      rfl
  | bytes hodd hkey hlength hvalue =>
      have hnot : ¬ _ % 2 = 0 := fun heven => absurd (hodd.symm.trans heven) (by decide)
      rw [List.append_assoc, decodeEntry, Decoder.run_bind_ok (hkey.wide _), if_neg hnot,
        (h.blob_eq_none_iff hodd).mpr hnew, Decoder.run_bind_ok (hlength.bytes hvalue rest)]
      rfl

/-- **An ID that was read before is refused**, and its value is not read. -/
theorem decodeEntry_repeated {id : Nat} {key : Bytes} (h : Shows p es) (hkey : Varint.Spelled id key)
    (hold : id ∈ es.map Entry.id) (rest : Bytes) :
    p.decodeEntry.run (key ++ rest) = (.error (.duplicateParameter id), rest) := by
  rw [decodeEntry, Decoder.run_bind_ok (hkey.wide rest)]
  by_cases heven : id % 2 = 0
  · rw [if_pos heven]
    cases hfound : p.numbers.find? id with
    | none => exact absurd hold ((h.number_eq_none_iff heven).mp hfound)
    | some value => rfl
  · rw [if_neg heven]
    cases hfound : p.blobs.find? id with
    | none => exact absurd hold ((h.blob_eq_none_iff (Nat.mod_two_ne_zero.mp heven)).mp hfound)
    | some value => rfl

/-- **Whatever is read and added is an entry with a new ID.** -/
theorem exists_of_decodeEntry (h : Shows p es) (hrun : p.decodeEntry.run bs = (.ok p', rest)) :
    ∃ e front, e.Spelled front ∧ e.id ∉ es.map Entry.id ∧ p' = p.add e ∧ bs = front ++ rest := by
  obtain ⟨id, left, hid, hentry⟩ := Decoder.exists_of_run_bind hrun
  obtain ⟨key, hkey, rfl⟩ := spelled_of_wide hid
  split at hentry
  · next heven =>
    split at hentry
    · cases (Prod.mk.inj hentry).1
    · next hnone =>
      obtain ⟨value, left, hvalue, hadd⟩ := Decoder.exists_of_run_bind hentry
      obtain ⟨front, hfront, rfl⟩ := spelled_of_wide hvalue
      obtain ⟨hp, rfl⟩ := Prod.mk.inj hadd
      obtain rfl := Except.ok.inj hp
      exact ⟨.number id value, key ++ front, .number heven hkey hfront,
        (h.number_eq_none_iff heven).mp hnone, rfl, (List.append_assoc _ _ _).symm⟩
  · next hodd =>
    have hodd : id % 2 = 1 := Nat.mod_two_ne_zero.mp hodd
    split at hentry
    · cases (Prod.mk.inj hentry).1
    · next hnone =>
      obtain ⟨value, left, hvalue, hadd⟩ := Decoder.exists_of_run_bind hentry
      obtain ⟨front, hfront, hlength, rfl⟩ := spelled_of_bytes hvalue
      obtain ⟨hp, rfl⟩ := Prod.mk.inj hadd
      obtain rfl := Except.ok.inj hp
      exact ⟨.bytes id value, key ++ (front ++ value), .bytes hodd hkey hfront hlength,
        (h.blob_eq_none_iff hodd).mp hnone, rfl, (List.append_assoc _ _ _).symm⟩

end Reading

-- ── entries in a row ────────────────────────────────────────────────

section Runs

variable {p p' : Parameters} {es more : List Entry} {bs body rest : Bytes}

theorem Spelled.fits (h : Spelled es bs) : ∀ e ∈ es, e.Fits := by
  induction h with
  | nil => exact fun e he => absurd he List.not_mem_nil
  | cons hfirst _ ih => exact List.forall_mem_cons.mpr ⟨hfirst.fits, ih⟩

/-- In a row of different IDs the next one is new, and the rest is a row behind it. -/
theorem nodup_cons_iff {e : Entry} : ((es ++ e :: more).map Entry.id).Nodup ↔
    e.id ∉ es.map Entry.id ∧ ((es ++ [e] ++ more).map Entry.id).Nodup := by
  rw [List.append_assoc, List.singleton_append]
  refine (and_iff_right_of_imp fun h hmem => ?_).symm
  rw [List.map_append, List.map_cons, List.nodup_append] at h
  exact h.2.2 _ hmem _ List.mem_cons_self rfl

theorem Shows.addAll (h : Shows p es) (hfits : ∀ e ∈ more, e.Fits)
    (hnodup : ((es ++ more).map Entry.id).Nodup) : Shows (more.foldl Parameters.add p) (es ++ more) := by
  induction more generalizing p es with
  | nil =>
      rw [List.append_nil]
      exact h
  | cons e more ih =>
      obtain ⟨hnew, hrest⟩ := nodup_cons_iff.mp hnodup
      obtain ⟨he, hmore⟩ := List.forall_mem_cons.mp hfits
      have hall := ih (h.add he hnew) hmore hrest
      rwa [List.append_assoc, List.singleton_append] at hall

/-- **Entries with new IDs are read and added**, one after the other. -/
theorem decodeEntries_new (h : Shows p es) (hbody : Spelled more body)
    (hnodup : ((es ++ more).map Entry.id).Nodup) (rest : Bytes) :
    (decodeEntries p more.length).run (body ++ rest) = (.ok (more.foldl add p), rest) := by
  induction hbody generalizing p es with
  | nil => rfl
  | cons hfirst _ ih =>
      obtain ⟨hnew, hrest⟩ := nodup_cons_iff.mp hnodup
      rw [List.length_cons, decodeEntries, List.append_assoc,
        Decoder.run_bind_ok (decodeEntry_new h hfirst hnew _)]
      exact ih (h.add hfirst.fits hnew) hrest

/-- **The first ID that comes again ends the reading**, whatever stands behind it. -/
theorem decodeEntries_repeated {n id : Nat} {key : Bytes} (hbody : Spelled es body)
    (hnodup : (es.map Entry.id).Nodup) (hkey : Varint.Spelled id key) (hold : id ∈ es.map Entry.id)
    (hn : es.length < n) (rest : Bytes) :
    (decodeEntries empty n).run (body ++ (key ++ rest)) = (.error (.duplicateParameter id), rest) := by
  obtain ⟨m, rfl⟩ := Nat.exists_eq_add_of_lt hn
  have hshows := Shows.empty.addAll hbody.fits hnodup
  rw [Nat.add_assoc, decodeEntries_add,
    Decoder.run_bind_ok (decodeEntries_new Shows.empty hbody hnodup (key ++ rest)), decodeEntries]
  exact Decoder.run_bind_error (decodeEntry_repeated hshows hkey hold rest)

/-- **Whatever is read are entries with new IDs.** -/
theorem exists_of_decodeEntries {n : Nat} (h : Shows p es) (hnodup : (es.map Entry.id).Nodup)
    (hrun : (decodeEntries p n).run bs = (.ok p', rest)) :
    ∃ more body, more.length = n ∧ ((es ++ more).map Entry.id).Nodup ∧ Spelled more body ∧
      bs = body ++ rest := by
  induction n generalizing p es bs with
  | zero =>
      obtain ⟨-, rfl⟩ := Prod.mk.inj hrun
      exact ⟨[], [], rfl, by rwa [List.append_nil], .nil, rfl⟩
  | succ n ih =>
      obtain ⟨q, left, hone, hrest⟩ := Decoder.exists_of_run_bind hrun
      obtain ⟨e, front, hfront, hnew, rfl, rfl⟩ := exists_of_decodeEntry h hone
      have hnodup' : ((es ++ [e]).map Entry.id).Nodup := by
        rw [List.map_append]
        exact List.nodup_append.mpr ⟨hnodup, List.pairwise_singleton _ _, fun id hid id' hid' heq =>
          hnew (List.mem_singleton.mp hid' ▸ heq ▸ hid)⟩
      obtain ⟨more, back, hlength, hall, hback, rfl⟩ := ih (h.add hfront.fits hnew) hnodup' hrest
      exact ⟨e :: more, front ++ back, congrArg (· + 1) hlength, nodup_cons_iff.mpr ⟨hnew, hall⟩,
        .cons hfront hback, (List.append_assoc _ _ _).symm⟩

end Runs

-- ── whole tables ────────────────────────────────────────────────────

/-- A count up to the limit is followed by so many entries. -/
theorem run_decode_of_le {n : Nat} {count : Bytes} (hcount : Varint.Spelled n count) (hn : n ≤ entryLimit)
    (tail : Bytes) : decode.run (count ++ tail) = (decodeEntries empty n).run tail := by
  have hcompact : n ≤ Varint.compactMaximum := Nat.le_trans hn (by decide)
  rw [decode, Decoder.run_bind_ok (hcount.compact hcompact tail), if_pos hn]

/-- What is read is in the grammar. -/
theorem exists_of_decode {bs rest : Bytes} {p : Parameters} (hrun : decode.run bs = (.ok p, rest)) :
    ∃ es count body, es.length ≤ entryLimit ∧ (es.map Entry.id).Nodup ∧
      Varint.Spelled es.length count ∧ Spelled es body ∧ bs = count ++ body ++ rest := by
  obtain ⟨n, left, hcount, hrest⟩ := Decoder.exists_of_run_bind hrun
  obtain ⟨count, hspelled, -, rfl⟩ := spelled_of_compact hcount
  split at hrest
  · next hle =>
    obtain ⟨es, body, rfl, hnodup, hbody, rfl⟩ := exists_of_decodeEntries Shows.empty List.nodup_nil hrest
    exact ⟨es, count, body, hle, hnodup, hspelled, hbody, (List.append_assoc _ _ _).symm⟩
  · cases (Prod.mk.inj hrest).1

/-- **Parameters are read exactly if they are in the grammar.** The count, the IDs and the values may have
    any of their lengths, and the entries any order.

    Up to the limit, entries with different IDs are read as the table of just these entries, whatever stands
    behind is left, and any rearrangement of them is read as the same table. If an ID comes twice, the first
    one that does is named in the error. A count over the limit is refused, whatever follows. And every table
    that is read was so many entries with different IDs. -/
theorem decode_accepts_grammar (es : List Entry) (count body rest : Bytes)
    (hcount : Varint.Spelled es.length count) (hbody : Spelled es body) :
    (es.length ≤ entryLimit → (es.map Entry.id).Nodup →
      ∃ p, decode.run (count ++ body ++ rest) = (.ok p, rest) ∧
        (∀ key value, p.number? key = some value ↔ Entry.number key.id value ∈ es) ∧
        (∀ key value, p.bytes? key = some value ↔ Entry.bytes key.id value ∈ es) ∧
        ∀ es' count' body' rest', es'.Perm es → Varint.Spelled es'.length count' → Spelled es' body' →
          decode.run (count' ++ body' ++ rest') = (.ok p, rest')) ∧
    (es.length ≤ entryLimit → ¬ (es.map Entry.id).Nodup →
      ∃ front e back, es = front ++ e :: back ∧ (front.map Entry.id).Nodup ∧
        e.id ∈ front.map Entry.id ∧
        (decode.run (count ++ body ++ rest)).1 = .error (.duplicateParameter e.id)) ∧
    (∀ n count tail, Varint.Spelled n count → n ≤ Varint.compactMaximum → entryLimit < n →
      decode.run (count ++ tail) = (.error .tooMany, tail)) ∧
    ∀ bs p rest, decode.run bs = (.ok p, rest) →
      ∃ es count body, es.length ≤ entryLimit ∧ (es.map Entry.id).Nodup ∧
        Varint.Spelled es.length count ∧ Spelled es body ∧ bs = count ++ body ++ rest := by
  refine ⟨fun hle hnodup => ?_, fun hle hrepeated => ?_, fun n count tail hcount hn hlimit => ?_,
    fun bs p rest hrun => ?_⟩
  · -- every order of the entries gives a table that shows them, and there is only one
    have hshows := Shows.empty.addAll hbody.fits hnodup
    rw [List.nil_append] at hshows
    have hread : ∀ es' count' body' rest', es'.Perm es → Varint.Spelled es'.length count' →
        Spelled es' body' →
        decode.run (count' ++ body' ++ rest') = (.ok (es.foldl Parameters.add empty), rest') := by
      intro es' count' body' rest' hperm hcount' hbody'
      have hnodup' : (es'.map Entry.id).Nodup := (hperm.map Entry.id).nodup_iff.mpr hnodup
      have hshows' := Shows.empty.addAll hbody'.fits hnodup'
      rw [List.nil_append] at hshows'
      rw [List.append_assoc, run_decode_of_le hcount' (hperm.length_eq ▸ hle),
        decodeEntries_new Shows.empty hbody' hnodup' rest', hshows.eq_of_perm hshows' hperm]
    refine ⟨es.foldl Parameters.add empty, hread es count body rest (.refl es) hcount hbody, ?_, ?_, hread⟩
    · intro key value
      exact (Entries.find?_eq_some_iff hshows.ascending.numbers).trans (hshows.numbers key.id value)
    · intro key value
      exact (Entries.find?_eq_some_iff hshows.ascending.blobs).trans (hshows.blobs key.id value)
  · -- the entries up to the repetition are read, and of the next one only its ID
    obtain ⟨front, e, back, rfl, hnodup, hold⟩ := exists_repeated hrepeated
    obtain ⟨first, more, hfirst, hmore, rfl⟩ := hbody.split
    refine ⟨front, e, back, rfl, hnodup, hold, ?_⟩
    cases hmore with
    | cons he hback =>
        obtain ⟨key, value, hkey, rfl⟩ := he.exists_id
        have hlong : front.length < (front ++ e :: back).length := by
          rw [List.length_append, List.length_cons]
          omega
        simp only [List.append_assoc]
        rw [run_decode_of_le hcount hle, decodeEntries_repeated hfirst hnodup hkey hold hlong]
  · rw [decode, Decoder.run_bind_ok (hcount.compact hn tail), if_neg (Nat.not_le_of_lt hlimit)]
    rfl
  · exact exists_of_decode hrun

/-- Three entries, not in the order of their IDs: the count, an ID and a length stand in two bytes, and
    another ID in four. -/
theorem decode_accepts_grammar_three :
    ∃ p, decode.run ([64, 3] ++ [128, 0, 0, 4, 9, 1, 64, 1, 47, 64, 2, 7] ++ [255]) = (.ok p, [255]) ∧
      p.number? .maxRequestId = some 7 ∧ p.bytes? .path = some [47] ∧
      p.number? (.unknown 4) = some 9 := by
  have hbody : Spelled [.number 4 9, .bytes 1 [47], .number 2 7]
      ([128, 0, 0, 4] ++ [9] ++ ([1] ++ ([64, 1] ++ [47]) ++ ([64, 2] ++ [7] ++ []))) :=
    .cons (.number rfl ⟨2, by decide, by decide, rfl⟩ ⟨0, by decide, by decide, rfl⟩)
      (.cons (.bytes rfl ⟨0, by decide, by decide, rfl⟩ ⟨1, by decide, by decide, rfl⟩ (by decide))
        (.cons (.number rfl ⟨1, by decide, by decide, rfl⟩ ⟨0, by decide, by decide, rfl⟩) .nil))
  obtain ⟨p, hrun, hnumbers, hblobs, -⟩ := (decode_accepts_grammar _ [64, 3] _ [255]
    ⟨1, by decide, by decide, rfl⟩ hbody).1 (by decide) (by decide)
  exact ⟨p, hrun, (hnumbers .maxRequestId 7).mpr (by simp [NumberKey.id]),
    (hblobs .path [47]).mpr (by simp [BytesKey.id]), (hnumbers (.unknown 4) 9).mpr (by simp [NumberKey.id])⟩

end LiveMedia.Message.Parameters
