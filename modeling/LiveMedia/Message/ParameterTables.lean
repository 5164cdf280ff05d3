import LiveMedia.Message.Parameters

/-!
# Parameters under their keys

A key has two forms, a name and a number, and a hash table compares keys form by form. A known ID that is
given as a number is another key there than its name. So wherever a key comes in, because a parameter is
looked up, set or read, the table is not asked for it but for the key of its ID (`NumberKey.ofId`,
`BytesKey.ofId`), which is the name where there is one.

A hash table has no order. Here its entries are a list, new ones behind the old ones; nothing depends on
that but the order in which they are written. `ParameterTables.contents` forgets the forms of the keys and
puts the entries in order.
-/

namespace LiveMedia.Message

open LiveMedia.Wire

-- ── keys ────────────────────────────────────────────────────────────

/-- The key of an ID: its name, if it has one. -/
def NumberKey.ofId : Nat → NumberKey
  | 2 => .maxRequestId
  | 4 => .maxAuthTokenCacheSize
  | id => .unknown id

/-- The key of an ID: its name, if it has one. -/
def BytesKey.ofId : Nat → BytesKey
  | 1 => .path
  | 3 => .authorizationToken
  | 5 => .authority
  | 7 => .implementation
  | id => .unknown id

-- ── hash tables ─────────────────────────────────────────────────────

/-- Values under keys, each key of which is there once. -/
structure KeyTable (κ α : Type) where
  entries : List (κ × α)
  nodup : (entries.map Prod.fst).Nodup

namespace KeyTable

variable {κ α : Type}

def empty : KeyTable κ α := ⟨[], .nil⟩

def size (t : KeyTable κ α) : Nat := t.entries.length

/-- Entries with the IDs of their keys. -/
def numbered (id : κ → Nat) (es : List (κ × α)) : Entries α := es.map fun e => (id e.1, e.2)

/-- The entries in ascending order of the IDs of their keys. -/
def sorted (id : κ → Nat) (t : KeyTable κ α) : Entries α :=
  (numbered id t.entries).foldl (fun es e => es.insert e.1 e.2) []

variable [DecidableEq κ]

def find? (t : KeyTable κ α) (key : κ) : Option α := t.entries.lookup key

/-- Replaces the value under a key, or puts it behind the others. -/
def put (key : κ) (value : α) : List (κ × α) → List (κ × α)
  | [] => [(key, value)]
  | (other, old) :: rest =>
    if other = key then (key, value) :: rest else (other, old) :: put key value rest

theorem mem_map_fst_put {key k : κ} {value : α} {es : List (κ × α)} :
    k ∈ (put key value es).map Prod.fst ↔ k = key ∨ k ∈ es.map Prod.fst := by
  induction es with
  | nil => simp [put]
  | cons e rest ih =>
    rw [put]
    split
    · next h => simp [h]
    · rw [List.map_cons, List.mem_cons, ih, List.map_cons, List.mem_cons]
      exact or_left_comm

theorem nodup_put {key : κ} (value : α) {es : List (κ × α)} (h : (es.map Prod.fst).Nodup) :
    ((put key value es).map Prod.fst).Nodup := by
  induction es with
  | nil => simp [put]
  | cons e rest ih =>
    obtain ⟨hnew, hrest⟩ := List.nodup_cons.mp h
    rw [put]
    split
    · next heq => exact List.nodup_cons.mpr ⟨heq ▸ hnew, hrest⟩
    · next hne =>
      refine List.nodup_cons.mpr ⟨fun hmem => ?_, ih hrest⟩
      exact (mem_map_fst_put.mp hmem).elim hne hnew

/-- Puts a value under a key and replaces the one that is there. -/
def insert (t : KeyTable κ α) (key : κ) (value : α) : KeyTable κ α :=
  ⟨put key value t.entries, nodup_put value t.nodup⟩

/-- Two tables are the same if they have equally many entries and each entry of the one is found in the
other. -/
def same [DecidableEq α] (t u : KeyTable κ α) : Bool :=
  t.size == u.size && t.entries.all fun e => u.find? e.1 == some e.2

end KeyTable

-- ── parameters ──────────────────────────────────────────────────────

/-- The parameters of a message, a table for each class. -/
structure ParameterTables where
  numbers : KeyTable NumberKey Nat
  blobs : KeyTable BytesKey Bytes

namespace ParameterTables

def empty : ParameterTables := ⟨.empty, .empty⟩

/-- The number of entries. -/
def size (p : ParameterTables) : Nat := p.numbers.size + p.blobs.size

def isEmpty (p : ParameterTables) : Bool := p.numbers.entries.isEmpty && p.blobs.entries.isEmpty

def number? (p : ParameterTables) (key : NumberKey) : Option Nat := p.numbers.find? (.ofId key.id)

def bytes? (p : ParameterTables) (key : BytesKey) : Option Bytes := p.blobs.find? (.ofId key.id)

def setNumber (p : ParameterTables) (key : NumberKey) (value : Nat) : ParameterTables :=
  { p with numbers := p.numbers.insert (.ofId key.id) value }

def setBytes (p : ParameterTables) (key : BytesKey) (value : Bytes) : ParameterTables :=
  { p with blobs := p.blobs.insert (.ofId key.id) value }

/-- Writes entries in the order given. -/
def encodeEntries (numbers : List (NumberKey × Nat)) (blobs : List (BytesKey × Bytes)) : Encoded :=
  Parameters.encodeEntries (KeyTable.numbered NumberKey.id numbers) (KeyTable.numbered BytesKey.id blobs)

/-- The wire form with the entries as they came. -/
def encode (p : ParameterTables) : Encoded := encodeEntries p.numbers.entries p.blobs.entries

/-- Reads one entry and adds it; a repeated key is refused before its value is read. -/
def decodeEntry (p : ParameterTables) : Decoder ParameterTables := do
  let id ← decodeWide
  if id % 2 = 0 then
    match p.numbers.find? (.ofId id) with
    | some _ => .fail (.duplicateParameter id)
    | none =>
      let value ← decodeWide
      pure { p with numbers := p.numbers.insert (.ofId id) value }
  else
    match p.blobs.find? (.ofId id) with
    | some _ => .fail (.duplicateParameter id)
    | none =>
      let value ← decodeBytes
      pure { p with blobs := p.blobs.insert (.ofId id) value }

/-- Reads `n` entries. -/
def decodeEntries (p : ParameterTables) : Nat → Decoder ParameterTables
  | 0 => pure p
  | n + 1 => do
    let p ← decodeEntry p
    decodeEntries p n

def decode : Decoder ParameterTables := do
  let count ← decodeCompact
  if count ≤ Parameters.entryLimit then decodeEntries empty count else .fail .tooMany

/-- The parameters are the same in both classes. -/
def same (p q : ParameterTables) : Bool := p.numbers.same q.numbers && p.blobs.same q.blobs

/-- The parameters under the IDs of their keys. -/
def contents (p : ParameterTables) : Parameters :=
  ⟨p.numbers.sorted NumberKey.id, p.blobs.sorted BytesKey.id⟩

end ParameterTables

end LiveMedia.Message
