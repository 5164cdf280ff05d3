import LiveMedia.Message.ParameterTables
import LiveMedia.Proofs.Message.ParameterLog
import Mathlib.Data.List.Perm.Subperm

/-!
# The keys of parameters

A hash table that compares keys form by form may hold one ID under two keys, its name and its number. That
it does not is no property of the table. It holds because every way into the table goes through the key of
the ID: then each key is the key of its ID (`KeyTable.Canonical`), so keys with one ID are one key.

On tables of this kind an insertion, a lookup and a whole reading come to the same as on parameters that are
kept by ID (`Canonical.sorted_insert`, `Canonical.find?_sorted`, `decode_agrees`). So whichever way the tables
came about, their contents are the parameters that come about in the same way (`contents_ofChanges`), and
what the log says of those is so of the tables.

If one entry path forgot that an ID has two forms, the table would hold the ID twice, and the wire form would
be refused by its own reader.
-/

namespace LiveMedia.Message

open LiveMedia.Wire

-- ── the key of an ID ────────────────────────────────────────────────

/-- Every ID has a key. -/
theorem NumberKey.id_ofId (n : Nat) : (NumberKey.ofId n).id = n := by
  unfold ofId
  split <;> rfl

theorem BytesKey.id_ofId (n : Nat) : (BytesKey.ofId n).id = n := by
  unfold ofId
  split <;> rfl

-- ── hash tables ─────────────────────────────────────────────────────

namespace KeyTable

section Tables

variable {κ α : Type}

theorem nodup_entries (t : KeyTable κ α) : t.entries.Nodup := t.nodup.of_map

variable [DecidableEq κ] {t u : KeyTable κ α} {key : κ} {value : α}

theorem mem_of_lookup {es : List (κ × α)} (h : es.lookup key = some value) : (key, value) ∈ es := by
  obtain ⟨front, back, rfl, -⟩ := List.lookup_eq_some_iff.mp h
  exact List.mem_append_right front List.mem_cons_self

theorem lookup_cons_eq_ite (key : κ) (e : κ × α) (es : List (κ × α)) :
    (e :: es).lookup key = if key = e.1 then some e.2 else es.lookup key := by
  rw [List.lookup_cons]
  by_cases hkey : key = e.1
  · rw [if_pos hkey, hkey, beq_self_eq_true]
  · rw [if_neg hkey, beq_eq_false_iff_ne.mpr hkey]

/-- What is found under a key is its entry, as no other has the key. -/
theorem find?_eq_some_iff : t.find? key = some value ↔ (key, value) ∈ t.entries := by
  refine ⟨mem_of_lookup, fun hmem => ?_⟩
  have hnodup := t.nodup
  unfold find?
  generalize t.entries = es at hmem hnodup
  induction es with
  | nil => exact absurd hmem List.not_mem_nil
  | cons e rest ih =>
      obtain ⟨hnew, hrest⟩ := List.nodup_cons.mp hnodup
      rw [lookup_cons_eq_ite]
      rcases List.mem_cons.mp hmem with rfl | hmem
      · exact if_pos rfl
      · have hne : key ≠ e.1 := fun heq => hnew (heq ▸ List.mem_map_of_mem hmem)
        rw [if_neg hne]
        exact ih hmem hrest

/-- A value that is put under a key is found there, and nothing else changes. -/
theorem lookup_put (k : κ) (es : List (κ × α)) :
    (put key value es).lookup k = if k = key then some value else es.lookup k := by
  induction es with
  | nil => exact lookup_cons_eq_ite k (key, value) []
  | cons e rest ih =>
      obtain ⟨other, old⟩ := e
      rw [put]
      by_cases hother : other = key
      · rw [if_pos hother, lookup_cons_eq_ite, lookup_cons_eq_ite, hother]
        split <;> rfl
      · rw [if_neg hother, lookup_cons_eq_ite, lookup_cons_eq_ite, ih]
        by_cases hk : k = other
        · rw [if_pos hk, if_neg (hk ▸ hother), if_pos hk]
        · rw [if_neg hk, if_neg hk]

theorem find?_insert (k : κ) :
    (t.insert key value).find? k = if k = key then some value else t.find? k :=
  lookup_put k t.entries

/-- Tables that answer alike have the same entries, in whatever order. -/
theorem perm_iff_find?_eq : t.entries.Perm u.entries ↔ ∀ key, t.find? key = u.find? key := by
  rw [List.perm_ext_iff_of_nodup t.nodup_entries u.nodup_entries]
  constructor
  · intro h key
    refine Option.ext fun value => ?_
    rw [find?_eq_some_iff, find?_eq_some_iff, h]
  · rintro h ⟨key, value⟩
    rw [← find?_eq_some_iff, ← find?_eq_some_iff, h]

/-- **Two tables are the same exactly if they answer alike.** -/
theorem same_iff [DecidableEq α] : t.same u = true ↔ ∀ key, t.find? key = u.find? key := by
  rw [← perm_iff_find?_eq, same, Bool.and_eq_true, beq_iff_eq, List.all_eq_true]
  constructor
  · rintro ⟨hsize, hall⟩
    have hsub : t.entries ⊆ u.entries := fun e he => find?_eq_some_iff.mp (beq_iff_eq.mp (hall e he))
    exact (t.nodup_entries.subperm hsub).perm_of_length_le (Nat.le_of_eq hsize.symm)
  · intro hperm
    refine ⟨hperm.length_eq, fun e he => beq_iff_eq.mpr ?_⟩
    exact find?_eq_some_iff.mpr (hperm.mem_iff.mp he)

end Tables

-- ── tables with the keys of IDs ─────────────────────────────────────

section Keys

variable {κ α : Type} {t u : KeyTable κ α} {id : κ → Nat} {ofId : Nat → κ}

/-- Every key in the table is the key of its ID. -/
def Canonical (id : κ → Nat) (ofId : Nat → κ) (t : KeyTable κ α) : Prop :=
  ∀ key ∈ t.entries.map Prod.fst, ofId (id key) = key

theorem canonical_empty : (empty : KeyTable κ α).Canonical id ofId :=
  fun _ hkey => absurd hkey List.not_mem_nil

/-- No ID is there twice, for it would be there under one key. -/
theorem Canonical.nodup_numbered (h : t.Canonical id ofId) :
    ((numbered id t.entries).map Prod.fst).Nodup := by
  have hmap : (numbered id t.entries).map Prod.fst = (t.entries.map Prod.fst).map id := by
    rw [numbered, List.map_map, List.map_map]
    rfl
  rw [hmap]
  refine t.nodup.map_on fun key hkey key' hkey' heq => ?_
  rw [← h key hkey, heq, h key' hkey']

/-- However the keys came into the table, they are sorted by their IDs. -/
theorem ascending_sorted (t : KeyTable κ α) : (t.sorted id).Ascending :=
  Entries.ascending_insertAll Entries.ascending_nil _

/-- Sorting neither adds nor drops an entry. -/
theorem Canonical.perm_sorted (h : t.Canonical id ofId) :
    (t.sorted id).Perm (numbered id t.entries) := by
  have hfresh : Entries.Fresh [] (numbered id t.entries) := by
    rw [Entries.Fresh, List.append_nil]
    exact h.nodup_numbered
  have hperm := hfresh.perm_insertAll
  rw [List.append_nil] at hperm
  exact hperm

theorem Canonical.length_sorted (h : t.Canonical id ofId) : (t.sorted id).length = t.size := by
  rw [h.perm_sorted.length_eq, numbered, List.length_map, size]

variable [DecidableEq κ]

/-- Keys that are put in as the keys of IDs keep the table so. -/
theorem Canonical.insert (h : t.Canonical id ofId) (hid : ∀ n, id (ofId n) = n) (n : Nat) (value : α) :
    (t.insert (ofId n) value).Canonical id ofId := by
  intro key hkey
  rcases mem_map_fst_put.mp hkey with rfl | hkey
  · rw [hid]
  · exact h key hkey

-- a table into which the keys go as they come holds both forms of an ID
example : ((empty.insert NumberKey.maxRequestId 1).insert (.unknown 2) 7).entries =
    [(.maxRequestId, 1), (.unknown 2, 7)] := rfl

/-- **An ID is found in the sorted table as its key is found in the hash table.** -/
theorem Canonical.find?_sorted (h : t.Canonical id ofId) (hid : ∀ n, id (ofId n) = n) (n : Nat) :
    (t.sorted id).find? n = t.find? (ofId n) := by
  refine Option.ext fun value => ?_
  rw [Entries.find?_eq_some_iff t.ascending_sorted, h.perm_sorted.mem_iff, find?_eq_some_iff, numbered,
    List.mem_map]
  constructor
  · rintro ⟨⟨key, value⟩, hmem, heq⟩
    obtain ⟨rfl, rfl⟩ := Prod.mk.inj heq
    rw [h key (List.mem_map_of_mem hmem)]
    exact hmem
  · intro hmem
    exact ⟨(ofId n, value), hmem, by rw [hid]⟩

/-- **To put a value under the key of an ID is to put it under the ID.** -/
theorem Canonical.sorted_insert (h : t.Canonical id ofId) (hid : ∀ n, id (ofId n) = n) (n : Nat)
    (value : α) : (t.insert (ofId n) value).sorted id = (t.sorted id).insert n value := by
  refine Entries.eq_of_find?_eq (ascending_sorted _) (Entries.ascending_insert n value t.ascending_sorted)
    fun k => ?_
  rw [(h.insert hid n value).find?_sorted hid, find?_insert]
  by_cases hk : k = n
  · rw [hk, if_pos rfl, Entries.find?_insert_self]
  · have hne : ofId k ≠ ofId n := fun heq => hk (by rw [← hid k, heq, hid])
    rw [if_neg hne, Entries.find?_insert_of_ne hk, h.find?_sorted hid]

/-- Nothing is found under a key that is not the key of its ID. -/
theorem Canonical.find?_eq_none (h : t.Canonical id ofId) {key : κ} (hkey : ofId (id key) ≠ key) :
    t.find? key = none := by
  cases hfind : t.find? key with
  | none => rfl
  | some value => exact absurd (h key (List.mem_map_of_mem (find?_eq_some_iff.mp hfind))) hkey

/-- Tables of this kind are the same if they answer alike under the keys of IDs. -/
theorem Canonical.same_iff [DecidableEq α] (h : t.Canonical id ofId) (hu : u.Canonical id ofId) :
    t.same u = true ↔ ∀ n, t.find? (ofId n) = u.find? (ofId n) := by
  rw [KeyTable.same_iff]
  refine ⟨fun hall n => hall (ofId n), fun hall key => ?_⟩
  by_cases hkey : ofId (id key) = key
  · rw [← hkey]
    exact hall (id key)
  · rw [h.find?_eq_none hkey, hu.find?_eq_none hkey]

end Keys

end KeyTable

-- ── parameters by key and by ID ─────────────────────────────────────

namespace ParameterTables

open Parameters (Setting Change Log Entry Spelled numbersOf blobsOf entriesOf)

section Contents

variable {p : ParameterTables}

/-- Every key in the tables is the key of its ID. -/
structure Canonical (p : ParameterTables) : Prop where
  numbers : p.numbers.Canonical NumberKey.id NumberKey.ofId
  blobs : p.blobs.Canonical BytesKey.id BytesKey.ofId

theorem canonical_empty : empty.Canonical := ⟨KeyTable.canonical_empty, KeyTable.canonical_empty⟩

theorem Canonical.addNumber (h : p.Canonical) (n value : Nat) :
    Canonical { p with numbers := p.numbers.insert (.ofId n) value } :=
  ⟨h.numbers.insert NumberKey.id_ofId n value, h.blobs⟩

theorem Canonical.addBytes (h : p.Canonical) (n : Nat) (value : Bytes) :
    Canonical { p with blobs := p.blobs.insert (.ofId n) value } :=
  ⟨h.numbers, h.blobs.insert BytesKey.id_ofId n value⟩

theorem Canonical.contents_addNumber (h : p.Canonical) (n value : Nat) :
    contents { p with numbers := p.numbers.insert (.ofId n) value } =
      { p.contents with numbers := p.contents.numbers.insert n value } := by
  rw [contents, h.numbers.sorted_insert NumberKey.id_ofId]
  rfl

theorem Canonical.contents_addBytes (h : p.Canonical) (n : Nat) (value : Bytes) :
    contents { p with blobs := p.blobs.insert (.ofId n) value } =
      { p.contents with blobs := p.contents.blobs.insert n value } := by
  rw [contents, h.blobs.sorted_insert BytesKey.id_ofId]
  rfl

theorem Canonical.number?_contents (h : p.Canonical) (key : NumberKey) :
    p.contents.number? key = p.number? key := h.numbers.find?_sorted NumberKey.id_ofId key.id

theorem Canonical.bytes?_contents (h : p.Canonical) (key : BytesKey) :
    p.contents.bytes? key = p.bytes? key := h.blobs.find?_sorted BytesKey.id_ofId key.id

theorem Canonical.size_contents (h : p.Canonical) : p.contents.size = p.size := by
  rw [Parameters.size, contents, h.numbers.length_sorted, h.blobs.length_sorted, size]

end Contents

-- ── reading ─────────────────────────────────────────────────────────

section Reading

variable {p : ParameterTables}

/-- Two readers come to the same: to one error, or to tables with their contents, and leave the same bytes. -/
inductive Agrees :
    Except DecodeError ParameterTables × Bytes → Except DecodeError Parameters × Bytes → Prop where
  | ok {p : ParameterTables} {rest : Bytes} : p.Canonical → Agrees (.ok p, rest) (.ok p.contents, rest)
  | error {e : DecodeError} {rest : Bytes} : Agrees (.error e, rest) (.error e, rest)

/-- Readers that begin alike agree if they do behind that. -/
theorem agrees_bind {α : Type} (d : Decoder α) {f : α → Decoder ParameterTables} {g : α → Decoder Parameters}
    (h : ∀ a rest, Agrees ((f a).run rest) ((g a).run rest)) (bs : Bytes) :
    Agrees ((d >>= f).run bs) ((d >>= g).run bs) := by
  rw [Decoder.run_bind, Decoder.run_bind]
  cases d.run bs with
  | mk answer rest =>
      cases answer with
      | ok a => exact h a rest
      | error e => exact .error

/-- Whether a key is repeated is asked of the hash table, and it knows the key exactly if the ID is
    known. -/
theorem decodeEntry_agrees (h : p.Canonical) (bs : Bytes) :
    Agrees (p.decodeEntry.run bs) (p.contents.decodeEntry.run bs) := by
  refine agrees_bind decodeWide (fun id rest => ?_) bs
  by_cases heven : id % 2 = 0
  · rw [if_pos heven, if_pos heven]
    have hfind : p.contents.numbers.find? id = p.numbers.find? (.ofId id) :=
      h.numbers.find?_sorted NumberKey.id_ofId id
    rw [hfind]
    cases p.numbers.find? (.ofId id) with
    | some _ => exact .error
    | none =>
        refine agrees_bind decodeWide (fun value rest => ?_) rest
        have hcontents := h.contents_addNumber id value
        exact hcontents ▸ .ok (h.addNumber id value)
  · rw [if_neg heven, if_neg heven]
    have hfind : p.contents.blobs.find? id = p.blobs.find? (.ofId id) :=
      h.blobs.find?_sorted BytesKey.id_ofId id
    rw [hfind]
    cases p.blobs.find? (.ofId id) with
    | some _ => exact .error
    | none =>
        refine agrees_bind decodeBytes (fun value rest => ?_) rest
        have hcontents := h.contents_addBytes id value
        exact hcontents ▸ .ok (h.addBytes id value)

/-- The induction is on the number of entries, for all tables whose keys are canonical. -/
theorem decodeEntries_agrees (h : p.Canonical) (n : Nat) (bs : Bytes) :
    Agrees ((p.decodeEntries n).run bs) ((p.contents.decodeEntries n).run bs) := by
  induction n generalizing p bs with
  | zero => exact .ok h
  | succ n ih =>
      have hentry := decodeEntry_agrees h bs
      rw [decodeEntries, Parameters.decodeEntries, Decoder.run_bind, Decoder.run_bind]
      generalize p.decodeEntry.run bs = x at hentry
      generalize p.contents.decodeEntry.run bs = y at hentry
      cases hentry with
      | ok hp => exact ih hp _
      | error => exact .error

/-- **Tables are read as parameters are.** -/
theorem decode_agrees (bs : Bytes) : Agrees (decode.run bs) (Parameters.decode.run bs) := by
  refine agrees_bind decodeCompact (fun count rest => ?_) bs
  by_cases hle : count ≤ Parameters.entryLimit
  · rw [if_pos hle, if_pos hle]
    exact decodeEntries_agrees canonical_empty count rest
  · rw [if_neg hle, if_neg hle]
    exact .error

end Reading

-- ── how tables come about ───────────────────────────────────────────

def set (p : ParameterTables) : Setting → ParameterTables
  | .number key value => p.setNumber key value
  | .bytes key value => p.setBytes key value

/-- What cannot be read leaves the parameters that are there. -/
def change (p : ParameterTables) : Change → ParameterTables
  | .set setting => p.set setting
  | .read bs => match (decode.run bs).1 with
    | .ok q => q
    | .error _ => p

/-- The tables after these changes, one after the other. -/
def ofChanges (changes : List Change) : ParameterTables := changes.foldl change empty

section Changes

variable {p : ParameterTables}

/-- A change keeps the keys of the tables canonical, and does to the contents what it does to parameters. -/
theorem Canonical.change (h : p.Canonical) (c : Change) :
    (p.change c).Canonical ∧ (p.change c).contents = p.contents.change c := by
  cases c with
  | set setting =>
      cases setting with
      | number key value => exact ⟨h.addNumber key.id value, h.contents_addNumber key.id value⟩
      | bytes key value => exact ⟨h.addBytes key.id value, h.contents_addBytes key.id value⟩
  | read bs =>
      have hread := decode_agrees bs
      rw [ParameterTables.change, Parameters.change]
      generalize decode.run bs = x at hread
      generalize Parameters.decode.run bs = y at hread
      cases hread with
      | ok hp => exact ⟨hp, rfl⟩
      | error => exact ⟨h, rfl⟩

theorem Canonical.changeAll (h : p.Canonical) (changes : List Change) :
    (changes.foldl ParameterTables.change p).Canonical ∧
      (changes.foldl ParameterTables.change p).contents = changes.foldl Parameters.change p.contents := by
  induction changes generalizing p with
  | nil => exact ⟨h, rfl⟩
  | cons c changes ih =>
      obtain ⟨hchange, hcontents⟩ := h.change c
      rw [List.foldl_cons, List.foldl_cons, ← hcontents]
      exact ih hchange

theorem canonical_ofChanges (changes : List Change) : (ofChanges changes).Canonical :=
  (canonical_empty.changeAll changes).1

/-- **The contents of tables are the parameters that come about in the same way.** -/
theorem contents_ofChanges (changes : List Change) :
    (ofChanges changes).contents = Parameters.ofChanges changes :=
  (canonical_empty.changeAll changes).2

end Changes

-- ── what tables answer ──────────────────────────────────────────────

section Answers

variable {p q : ParameterTables} {changes : List Change} {log : List Entry}

/-- A lookup gives what was set or read last under the ID of its key. -/
theorem number?_ofChanges (hlog : Log changes log) (key : NumberKey) :
    (ofChanges changes).number? key = Entries.last? key.id (numbersOf log) := by
  rw [← (canonical_ofChanges changes).number?_contents, contents_ofChanges, Parameters.number?,
    hlog.numbers_eq, Entries.find?_insertAll]

theorem bytes?_ofChanges (hlog : Log changes log) (key : BytesKey) :
    (ofChanges changes).bytes? key = Entries.last? key.id (blobsOf log) := by
  rw [← (canonical_ofChanges changes).bytes?_contents, contents_ofChanges, Parameters.bytes?,
    hlog.blobs_eq, Entries.find?_insertAll]

/-- The size counts the different IDs of each class. -/
theorem size_ofChanges (hlog : Log changes log) : (ofChanges changes).size =
    ((numbersOf log).map Prod.fst).dedup.length + ((blobsOf log).map Prod.fst).dedup.length := by
  rw [← (canonical_ofChanges changes).size_contents, contents_ofChanges, Parameters.size,
    hlog.numbers_eq, hlog.blobs_eq, Entries.length_insertAll, Entries.length_insertAll]

/-- Parameters are the same if they answer alike under numbers. -/
theorem Canonical.same_iff (hp : p.Canonical) (hq : q.Canonical) :
    p.same q = true ↔ (∀ id, p.number? (.unknown id) = q.number? (.unknown id)) ∧
      ∀ id, p.bytes? (.unknown id) = q.bytes? (.unknown id) := by
  rw [same, Bool.and_eq_true, hp.numbers.same_iff hq.numbers, hp.blobs.same_iff hq.blobs]
  rfl

/-- In whatever order the entries are written, no ID comes twice. -/
theorem Canonical.spelled (hp : p.Canonical) {ns : List (NumberKey × Nat)} {bs : List (BytesKey × Bytes)}
    {wire : Bytes} (hns : ns.Perm p.numbers.entries) (hbs : bs.Perm p.blobs.entries)
    (hwire : encodeEntries ns bs = .ok wire) :
    let es := entriesOf (KeyTable.numbered NumberKey.id ns) (KeyTable.numbered BytesKey.id bs)
    ∃ count body, wire = count ++ body ∧ Varint.Spelled es.length count ∧ Spelled es body ∧
      (es.map Entry.id).Nodup := by
  obtain ⟨count, body, hsplit, hcount, hbody⟩ := Parameters.spelled_of_encodeEntries hwire
  have hascending : p.contents.Ascending := ⟨KeyTable.ascending_sorted _, KeyTable.ascending_sorted _⟩
  have hns' := (hns.map _).trans hp.numbers.perm_sorted.symm
  have hbs' := (hbs.map _).trans hp.blobs.perm_sorted.symm
  exact ⟨count, body, hsplit, hcount, hbody, Parameters.nodup_entriesOf hascending hns' hbs' hbody.fits⟩

end Answers

-- ── the result ──────────────────────────────────────────────────────

/-- **Keys are canonical.** However parameters came about, by setting them under names and under numbers and
    by reading them:

    Each key in a table is the key of its ID, and no class holds an ID twice. Whatever the log of the changes
    is, and there is one, a lookup gives what was set or read last under the ID of its key, so all keys with
    this ID are answered alike, and the size counts the different IDs of each class. Parameters are the same
    exactly if they answer all IDs alike, though they came about in different ways. And a wire form, in
    whatever order it is written, is the count and the entries, in which no ID comes twice. -/
theorem keys_are_canonical (changes : List Change) :
    let p := ofChanges changes
    p.Canonical ∧
    (p.numbers.entries.map fun e => e.1.id).Nodup ∧ (p.blobs.entries.map fun e => e.1.id).Nodup ∧
    (∃ log, Log changes log) ∧
    (∀ log, Log changes log →
      (∀ key, p.number? key = Entries.last? key.id (numbersOf log)) ∧
      (∀ key, p.bytes? key = Entries.last? key.id (blobsOf log)) ∧
      p.size = ((numbersOf log).map Prod.fst).dedup.length + ((blobsOf log).map Prod.fst).dedup.length) ∧
    (∀ changes', let q := ofChanges changes'
      p.same q = true ↔ (∀ id, p.number? (.unknown id) = q.number? (.unknown id)) ∧
        ∀ id, p.bytes? (.unknown id) = q.bytes? (.unknown id)) ∧
    ∀ ns bs wire, ns.Perm p.numbers.entries → bs.Perm p.blobs.entries → encodeEntries ns bs = .ok wire →
      let es := entriesOf (KeyTable.numbered NumberKey.id ns) (KeyTable.numbered BytesKey.id bs)
      ∃ count body, wire = count ++ body ∧ Varint.Spelled es.length count ∧ Spelled es body ∧
        (es.map Entry.id).Nodup := by
  intro p
  have hp : p.Canonical := canonical_ofChanges changes
  have hnumbers := hp.numbers.nodup_numbered
  have hblobs := hp.blobs.nodup_numbered
  rw [KeyTable.numbered, List.map_map] at hnumbers hblobs
  refine ⟨hp, hnumbers, hblobs, Parameters.exists_log changes, fun log hlog => ?_, fun changes' => ?_, ?_⟩
  · exact ⟨number?_ofChanges hlog, bytes?_ofChanges hlog, size_ofChanges hlog⟩
  · exact hp.same_iff (canonical_ofChanges changes')
  · intro ns bs wire hns hbs hwire
    exact hp.spelled hns hbs hwire

/-- Two parameters are read, one with its ID in two bytes. Then each is set under both forms of its key. -/
def setTwice : List Change := [.read ([2] ++ ([64, 2] ++ [5] ++ ([7] ++ ([1] ++ [97]) ++ [])) ++ []),
  .set (.number .maxRequestId 1), .set (.number (.unknown 2) 7), .set (.bytes (.unknown 7) [98]),
  .set (.bytes .implementation [99])]

/-- What was set last is found under the other form, and as if it had been set alone. -/
theorem keys_are_canonical_setTwice :
    let p := ofChanges setTwice
    p.number? .maxRequestId = some 7 ∧ p.bytes? (.unknown 7) = some [99] ∧ p.size = 2 ∧
      p.same (ofChanges [.set (.bytes .implementation [99]), .set (.number .maxRequestId 7)]) = true ∧
      ∃ count body, [2, 2, 7, 7, 1, 99] = count ++ body ∧ Varint.Spelled 2 count ∧
        Spelled [.number 2 7, .bytes 7 [99]] body ∧ [2, 7].Nodup := by
  intro p
  have hbody : Spelled [.number 2 5, .bytes 7 [97]] ([64, 2] ++ [5] ++ ([7] ++ ([1] ++ [97]) ++ [])) :=
    .cons (.number rfl ⟨1, by decide, by decide, rfl⟩ ⟨0, by decide, by decide, rfl⟩)
      (.cons (.bytes rfl ⟨0, by decide, by decide, rfl⟩ ⟨0, by decide, by decide, rfl⟩ (by decide)) .nil)
  have hread := Log.start.read [] (by decide) (by decide) ⟨0, by decide, by decide, rfl⟩ hbody
  have hlog : Log setTwice _ := (((hread.set (.number .maxRequestId 1)).set (.number (.unknown 2) 7)).set
    (.bytes (.unknown 7) [98])).set (.bytes .implementation [99])
  have hnumbers : p.numbers.entries = [(.maxRequestId, 7)] := rfl
  have hblobs : p.blobs.entries = [(.implementation, [99])] := rfl
  obtain ⟨-, -, -, -, hlast, hsame, hwire⟩ := keys_are_canonical setTwice
  obtain ⟨hnumber, hbytes, hsize⟩ := hlast _ hlog
  refine ⟨hnumber .maxRequestId, hbytes (.unknown 7), hsize,
    (hsame [.set (.bytes .implementation [99]), .set (.number .maxRequestId 7)]).mpr
      ⟨fun id => rfl, fun id => rfl⟩, ?_⟩
  exact hwire _ _ _ (.of_eq hnumbers.symm) (.of_eq hblobs.symm) rfl

end ParameterTables

end LiveMedia.Message
