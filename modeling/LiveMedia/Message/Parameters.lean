import LiveMedia.Entries
import LiveMedia.Wire.Primitive

/-!
# Parameters

A message may carry parameters under numeric IDs. An even ID has a number as its value, an odd ID a
byte string. Some IDs have names; a named key and the same ID given as a number are one key. Each of
the two classes is kept here as a list in ascending order of IDs, so equal contents are equal values. The
tables that have the keys themselves, in both of their forms, are `ParameterTables`.
-/

namespace LiveMedia.Message

open LiveMedia.Wire

-- ── keys ────────────────────────────────────────────────────────────

/-- A key of the class of numbers. -/
inductive NumberKey where
  | maxRequestId
  | maxAuthTokenCacheSize
  | unknown (id : Nat)
deriving DecidableEq, Repr

def NumberKey.id : NumberKey → Nat
  | maxRequestId => 2
  | maxAuthTokenCacheSize => 4
  | unknown id => id

/-- A key of the class of byte strings. -/
inductive BytesKey where
  | path
  | authorizationToken
  | authority
  | implementation
  | unknown (id : Nat)
deriving DecidableEq, Repr

def BytesKey.id : BytesKey → Nat
  | path => 1
  | authorizationToken => 3
  | authority => 5
  | implementation => 7
  | unknown id => id

-- ── parameters ──────────────────────────────────────────────────────

/-- The parameters of a message, by class. -/
structure Parameters where
  numbers : Entries Nat
  blobs : Entries Bytes
deriving DecidableEq, Repr

namespace Parameters

/-- The most entries that are read. -/
def entryLimit : Nat := 64

def empty : Parameters := ⟨[], []⟩

/-- The number of entries. -/
def size (p : Parameters) : Nat := p.numbers.length + p.blobs.length

def isEmpty (p : Parameters) : Bool := p.numbers.isEmpty && p.blobs.isEmpty

def number? (p : Parameters) (key : NumberKey) : Option Nat := p.numbers.find? key.id

def bytes? (p : Parameters) (key : BytesKey) : Option Bytes := p.blobs.find? key.id

def setNumber (p : Parameters) (key : NumberKey) (value : Nat) : Parameters :=
  { p with numbers := p.numbers.insert key.id value }

def setBytes (p : Parameters) (key : BytesKey) (value : Bytes) : Parameters :=
  { p with blobs := p.blobs.insert key.id value }

/-- An entry of the class of numbers needs an even ID. -/
def encodeNumberEntry (entry : Nat × Nat) : Encoded :=
  if entry.1 % 2 ≠ 0 then .error (.invalidParameter entry.1)
  else do
    let id ← encodeWide entry.1
    let value ← encodeWide entry.2
    return id ++ value

/-- An entry of the class of byte strings needs an odd ID. -/
def encodeBytesEntry (entry : Nat × Bytes) : Encoded :=
  if entry.1 % 2 = 0 then .error (.invalidParameter entry.1)
  else do
    let id ← encodeWide entry.1
    let value ← encodeBytes entry.2
    return id ++ value

/-- Writes the entries in the order given: their number, the numbers, then the byte strings. -/
def encodeEntries (numbers : Entries Nat) (blobs : Entries Bytes) : Encoded := do
  let count ← encodeCompact (numbers.length + blobs.length)
  let numbers ← encodeAll encodeNumberEntry numbers
  let blobs ← encodeAll encodeBytesEntry blobs
  return count ++ (numbers ++ blobs)

/-- The wire form with ascending IDs in each class. -/
def encode (p : Parameters) : Encoded := encodeEntries p.numbers p.blobs

/-- Reads one entry and adds it; a repeated ID is refused before its value is read. -/
def decodeEntry (p : Parameters) : Decoder Parameters := do
  let id ← decodeWide
  if id % 2 = 0 then
    match p.numbers.find? id with
    | some _ => .fail (.duplicateParameter id)
    | none =>
      let value ← decodeWide
      pure { p with numbers := p.numbers.insert id value }
  else
    match p.blobs.find? id with
    | some _ => .fail (.duplicateParameter id)
    | none =>
      let value ← decodeBytes
      pure { p with blobs := p.blobs.insert id value }

/-- Reads `n` entries. -/
def decodeEntries (p : Parameters) : Nat → Decoder Parameters
  | 0 => pure p
  | n + 1 => do
    let p ← decodeEntry p
    decodeEntries p n

def decode : Decoder Parameters := do
  let count ← decodeCompact
  if count ≤ entryLimit then decodeEntries empty count else .fail .tooMany

def codec : Codec Parameters := ⟨encode, decode⟩

end Parameters

end LiveMedia.Message
