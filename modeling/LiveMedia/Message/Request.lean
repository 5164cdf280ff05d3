import LiveMedia.Wire.Primitive

/-!
# Request IDs

Both ends of a session number their requests: the client with even, the server with odd IDs. An ID is
a word of 64 bits in memory and of the wide class on the wire.
-/

namespace LiveMedia.Message

open LiveMedia.Wire

/-- The number of a request. -/
structure RequestId where
  val : Nat
deriving DecidableEq, Repr

namespace RequestId

/-- IDs are below this number. -/
def wordLimit : Nat := 1 <<< 64

/-- The next ID with the same parity, if there is one. -/
def successor? (id : RequestId) : Option RequestId :=
  if id.val + 2 < wordLimit then some ⟨id.val + 2⟩ else none

/-- Requests are ordered by their numbers. -/
def compare (a b : RequestId) : Ordering := Ord.compare a.val b.val

def encode (id : RequestId) : Encoded := encodeWide id.val

def decode : Decoder RequestId := do
  let n ← decodeWide
  pure ⟨n⟩

def codec : Codec RequestId := ⟨encode, decode⟩

end RequestId

/-- The ID as a counter, which the messages about request limits carry in the compact class. -/
def encodeCounter (id : RequestId) : Encoded := encodeCompact id.val

def decodeCounter : Decoder RequestId := do
  let n ← decodeCompact
  pure ⟨n⟩

end LiveMedia.Message
