import LiveMedia.Proofs.Message.ParameterGrammar
import Mathlib.Data.List.Dedup

/-!
# The log of parameters

Parameters come about by setting them, under names and under numbers, and by reading them, in any order
(`ofChanges`). A `Log` tells the same without a table and without a reader: it lists the entries that were
set or read, as they came, since the parameters were last read, and what can be read is told by the grammar.

The parameters are what comes of adding the entries of the log to none (`Log.ofChanges_eq`). A lookup is then
the last entry of the log under the ID, and the size is the number of different IDs in it, both of which hold
of any table that is built by insertion. Of a wire form `spelled_of_encodeEntries` reads off the entries, and
no ID is twice among them (`nodup_entriesOf`).
-/

namespace LiveMedia.Message.Parameters

open LiveMedia.Wire

-- ── how parameters come about ───────────────────────────────────────

/-- One parameter is set, or all of them are read anew. -/
inductive Change where
  | set (setting : Setting)
  | read (bs : Bytes)

/-- What cannot be read leaves the parameters that are there. -/
def change (p : Parameters) : Change → Parameters
  | .set setting => p.set setting
  | .read bs => match (decode.run bs).1 with
    | .ok q => q
    | .error _ => p

/-- The parameters after these changes, one after the other. -/
def ofChanges (changes : List Change) : Parameters := changes.foldl change empty

theorem ofChanges_concat (changes : List Change) (c : Change) :
    ofChanges (changes ++ [c]) = (ofChanges changes).change c := List.foldl_concat ..

/-- The entry that is set. A key has left only its ID. -/
def Setting.entry : Setting → Entry
  | .number key value => .number key.id value
  | .bytes key value => .bytes key.id value

theorem set_eq_add (p : Parameters) (setting : Setting) : p.set setting = p.add setting.entry := by
  cases setting <;> rfl

/-- The bytes begin with parameters. -/
def Readable (bs : Bytes) : Prop :=
  ∃ es count body rest, es.length ≤ entryLimit ∧ (es.map Entry.id).Nodup ∧
    Varint.Spelled es.length count ∧ Spelled es body ∧ bs = count ++ body ++ rest

/-- The entries that were set or read, in this order, since the parameters were last read. -/
inductive Log : List Change → List Entry → Prop where
  | start : Log [] []
  | set {changes : List Change} {log : List Entry} (setting : Setting) :
      Log changes log → Log (changes ++ [.set setting]) (log ++ [setting.entry])
  | read {changes : List Change} {log es : List Entry} {count body : Bytes} (rest : Bytes) :
      Log changes log → es.length ≤ entryLimit → (es.map Entry.id).Nodup →
      Varint.Spelled es.length count → Spelled es body →
      Log (changes ++ [.read (count ++ body ++ rest)]) es
  | refused {changes : List Change} {log : List Entry} {bs : Bytes} :
      Log changes log → ¬ Readable bs → Log (changes ++ [.read bs]) log

-- ── the classes of a log ────────────────────────────────────────────

/-- The numbers among the entries, with their IDs. -/
def numbersOf (es : List Entry) : List (Nat × Nat) := es.filterMap fun
  | .number id value => some (id, value)
  | .bytes _ _ => none

/-- The byte strings among the entries, with their IDs. -/
def blobsOf (es : List Entry) : List (Nat × Bytes) := es.filterMap fun
  | .number _ _ => none
  | .bytes id value => some (id, value)

theorem numbers_addAll (p : Parameters) (es : List Entry) :
    (es.foldl add p).numbers = p.numbers.insertAll (numbersOf es) := by
  induction es generalizing p with
  | nil => rfl
  | cons e es ih => cases e <;> exact ih _

theorem blobs_addAll (p : Parameters) (es : List Entry) :
    (es.foldl add p).blobs = p.blobs.insertAll (blobsOf es) := by
  induction es generalizing p with
  | nil => rfl
  | cons e es ih => cases e <;> exact ih _

-- ── the table is what the log comes to ──────────────────────────────

section Logs

variable {changes : List Change} {log : List Entry}

/-- What is in the grammar is read as the table of its entries. -/
theorem decode_eq_addAll {es : List Entry} {count body : Bytes} (hle : es.length ≤ entryLimit)
    (hnodup : (es.map Entry.id).Nodup) (hcount : Varint.Spelled es.length count) (hbody : Spelled es body)
    (rest : Bytes) : (decode.run (count ++ body ++ rest)).1 = .ok (es.foldl add empty) := by
  rw [List.append_assoc, run_decode_of_le hcount hle, decodeEntries_new Shows.empty hbody hnodup rest]

/-- What is not in the grammar is not read. -/
theorem exists_error_of_not_readable {bs : Bytes} (h : ¬ Readable bs) :
    ∃ e, (decode.run bs).1 = .error e := by
  cases hrun : (decode.run bs).1 with
  | error e => exact ⟨e, rfl⟩
  | ok p =>
      have hread : decode.run bs = (.ok p, (decode.run bs).2) := Prod.ext hrun rfl
      obtain ⟨es, count, body, hall⟩ := exists_of_decode hread
      exact absurd ⟨es, count, body, _, hall⟩ h

theorem Log.ofChanges_eq (h : Log changes log) : ofChanges changes = log.foldl add empty := by
  induction h with
  | start => rfl
  | set setting _ ih => rw [ofChanges_concat, change, ih, set_eq_add, List.foldl_concat]
  | read rest _ hle hnodup hcount hbody _ =>
      rw [ofChanges_concat, change, decode_eq_addAll hle hnodup hcount hbody rest]
  | refused _ hunreadable ih =>
      obtain ⟨e, herror⟩ := exists_error_of_not_readable hunreadable
      rw [ofChanges_concat, change, herror, ih]

/-- **All changes have a log.** -/
theorem exists_log (changes : List Change) : ∃ log, Log changes log := by
  induction changes using List.reverseRecOn with
  | nil => exact ⟨[], .start⟩
  | append_singleton changes c ih =>
      obtain ⟨log, hlog⟩ := ih
      cases c with
      | set setting => exact ⟨_, hlog.set setting⟩
      | read bs =>
          by_cases hreadable : Readable bs
          · obtain ⟨es, count, body, rest, hle, hnodup, hcount, hbody, rfl⟩ := hreadable
            exact ⟨es, hlog.read rest hle hnodup hcount hbody⟩
          · exact ⟨log, hlog.refused hreadable⟩

theorem Log.numbers_eq (h : Log changes log) : (ofChanges changes).numbers = Entries.insertAll [] (numbersOf log) :=
  h.ofChanges_eq ▸ numbers_addAll empty log

theorem Log.blobs_eq (h : Log changes log) : (ofChanges changes).blobs = Entries.insertAll [] (blobsOf log) :=
  h.ofChanges_eq ▸ blobs_addAll empty log

end Logs

-- ── what is written ─────────────────────────────────────────────────

section Writing

variable {bs : Bytes}

theorem spelled_of_encodeWide {n : Nat} (h : encodeWide n = .ok bs) : Varint.Spelled n bs := by
  obtain ⟨front, hfront, heq⟩ := spelled_of_wide (inverts_wide n bs h [])
  rw [List.append_nil, List.append_nil] at heq
  exact heq ▸ hfront

theorem spelled_of_encodeCompact {n : Nat} (h : encodeCompact n = .ok bs) : Varint.Spelled n bs := by
  obtain ⟨front, hfront, -, heq⟩ := spelled_of_compact (inverts_compact n bs h [])
  rw [List.append_nil, List.append_nil] at heq
  exact heq ▸ hfront

theorem spelled_of_encodeNumberEntry {entry : Nat × Nat} (h : encodeNumberEntry entry = .ok bs) :
    (Entry.number entry.1 entry.2).Spelled bs := by
  rw [encodeNumberEntry] at h
  split at h
  · cases h
  · next hparity =>
    obtain ⟨key, front, hkey, hfront, rfl⟩ := append_eq_ok h
    exact .number (Decidable.not_not.mp hparity) (spelled_of_encodeWide hkey) (spelled_of_encodeWide hfront)

theorem spelled_of_encodeBytesEntry {entry : Nat × Bytes} (h : encodeBytesEntry entry = .ok bs) :
    (Entry.bytes entry.1 entry.2).Spelled bs := by
  rw [encodeBytesEntry] at h
  split at h
  · cases h
  · next hparity =>
    obtain ⟨key, back, hkey, hback, rfl⟩ := append_eq_ok h
    obtain ⟨front, hfront, hlength, heq⟩ := spelled_of_bytes (inverts_bytes entry.2 back hback [])
    rw [List.append_nil, List.append_nil] at heq
    rw [heq]
    exact .bytes (Nat.mod_two_ne_zero.mp hparity) (spelled_of_encodeWide hkey) hfront hlength

theorem Spelled.append {es es' : List Entry} {front back : Bytes} (h : Spelled es front)
    (h' : Spelled es' back) : Spelled (es ++ es') (front ++ back) := by
  induction h with
  | nil => exact h'
  | cons hfirst _ ih =>
      rw [List.cons_append, List.append_assoc]
      exact .cons hfirst ih

/-- Entries in a row, of whichever class. -/
theorem spelled_of_encodeAll {ε : Type} {encodeEntry : ε → Encoded} {entry : ε → Entry}
    (hone : ∀ {e bs}, encodeEntry e = .ok bs → (entry e).Spelled bs) {es : List ε}
    (h : encodeAll encodeEntry es = .ok bs) : Spelled (es.map entry) bs := by
  induction es generalizing bs with
  | nil =>
      obtain rfl := Except.ok.inj h
      exact .nil
  | cons e es ih =>
      rw [encodeAll_cons] at h
      obtain ⟨front, back, hfront, hback, rfl⟩ := append_eq_ok h
      exact .cons (hone hfront) (ih hback)

/-- The entries of a table in the order in which they are written. -/
def entriesOf (ns : Entries Nat) (bs : Entries Bytes) : List Entry :=
  ns.map (fun e => .number e.1 e.2) ++ bs.map fun e => .bytes e.1 e.2

theorem map_id_entriesOf (ns : Entries Nat) (bs : Entries Bytes) :
    (entriesOf ns bs).map Entry.id = ns.map Prod.fst ++ bs.map Prod.fst := by
  rw [entriesOf, List.map_append, List.map_map, List.map_map]
  rfl

/-- **The wire form is the count and the entries.** -/
theorem spelled_of_encodeEntries {ns : Entries Nat} {bs : Entries Bytes} {wire : Bytes}
    (h : encodeEntries ns bs = .ok wire) :
    ∃ count body, wire = count ++ body ∧ Varint.Spelled (entriesOf ns bs).length count ∧
      Spelled (entriesOf ns bs) body := by
  rw [encodeEntries_eq] at h
  obtain ⟨count, body, hcount, hbody, rfl⟩ := append_eq_ok h
  obtain ⟨front, back, hnumbers, hblobs, rfl⟩ := append_eq_ok hbody
  refine ⟨count, front ++ back, rfl, ?_, ?_⟩
  · rw [entriesOf, List.length_append, List.length_map, List.length_map]
    exact spelled_of_encodeCompact hcount
  · exact (spelled_of_encodeAll spelled_of_encodeNumberEntry hnumbers).append
      (spelled_of_encodeAll spelled_of_encodeBytesEntry hblobs)

/-- No ID is written twice: within a class the table has it once, and the classes differ in parity. -/
theorem nodup_entriesOf {p : Parameters} (hp : p.Ascending) {ns : Entries Nat} {bs : Entries Bytes}
    (hns : ns.Perm p.numbers) (hbs : bs.Perm p.blobs) (hfits : ∀ e ∈ entriesOf ns bs, e.Fits) :
    ((entriesOf ns bs).map Entry.id).Nodup := by
  rw [map_id_entriesOf, List.nodup_append]
  refine ⟨(hns.map Prod.fst).nodup_iff.mpr hp.numbers.nodup,
    (hbs.map Prod.fst).nodup_iff.mpr hp.blobs.nodup, fun id hid id' hid' heq => ?_⟩
  obtain ⟨n, hn, rfl⟩ := List.mem_map.mp hid
  obtain ⟨b, hb, rfl⟩ := List.mem_map.mp hid'
  have heven : n.1 % 2 = 0 := hfits (.number n.1 n.2) (List.mem_append_left _ (List.mem_map_of_mem hn))
  have hodd : b.1 % 2 = 1 := hfits (.bytes b.1 b.2) (List.mem_append_right _ (List.mem_map_of_mem hb))
  rw [heq, hodd] at heven
  exact absurd heven (by decide)

end Writing

end LiveMedia.Message.Parameters
