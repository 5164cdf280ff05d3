import LiveMedia.Wire.Decoder

/-!
# Variable-length integers

An integer takes 1, 2, 4 or 8 bytes. The top two bits of the first byte give the length, the other
bits the value in network byte order. Two classes of integers share this form: the *wide* class goes
up to `2^62 - 1`, the *compact* class up to `2^53 - 1`.
-/

namespace LiveMedia.Wire

/-- The lowest `n` bytes of `x`, most significant first. -/
def bigEndian : Nat → Nat → Bytes
  | 0, _ => []
  | n + 1, x => UInt8.ofNat (x >>> (8 * n)) :: bigEndian n x

/-- The number that bytes spell, most significant first. -/
def ofBigEndian (bs : Bytes) : Nat :=
  bs.foldl (fun acc b => acc * 256 + b.toNat) 0

@[simp] theorem length_bigEndian (n x : Nat) : (bigEndian n x).length = n := by
  induction n with
  | zero => rfl
  | succ n ih => simp [bigEndian, ih]

/-- An integer of the variable-length form. Its constructors keep it at most `Varint.maximum`; a value
read from its stored text is taken as it stands. -/
structure Varint where
  val : Nat
deriving DecidableEq, Repr

namespace Varint

/-- The largest value of the wide class. -/
def maximum : Nat := (1 <<< 62) - 1

/-- The largest value of the compact class, which a double holds exactly. -/
def compactMaximum : Nat := (1 <<< 53) - 1

def ofNat? (n : Nat) : Option Varint :=
  if n ≤ maximum then some ⟨n⟩ else none

/-- The number of bytes on the wire. -/
def size (v : Varint) : Nat :=
  if v.val ≤ 0x3f then 1
  else if v.val ≤ 0x3fff then 2
  else if v.val ≤ 0x3fffffff then 4
  else 8

/-- The wire form of `size` bytes: the length class in the top two bits, the value below them. -/
def encode (v : Varint) : Bytes :=
  if v.val ≤ 0x3f then bigEndian 1 v.val
  else if v.val ≤ 0x3fff then bigEndian 2 (0x4000 + v.val)
  else if v.val ≤ 0x3fffffff then bigEndian 4 (0x80000000 + v.val)
  else bigEndian 8 (0xc000000000000000 + v.val % (1 <<< 62))

@[simp] theorem length_encode (v : Varint) : v.encode.length = v.size := by
  unfold encode size
  split
  · simp
  · split
    · simp
    · split <;> simp

/-- The number of bytes that a first byte announces. -/
def announced (first : UInt8) : Nat :=
  1 <<< (first.toNat / 64)

/-- Reads one integer; when bytes are missing nothing is consumed. -/
def decode : Decoder Varint
  | [] => (.error .short, [])
  | first :: rest =>
    ((Decoder.take (announced first)).andThen fun bs =>
      pure ⟨ofBigEndian bs % (1 <<< (8 * announced first - 2))⟩) (first :: rest)

end Varint

/-- Writes a number of the wide class. -/
def encodeWide (n : Nat) : Encoded :=
  if n ≤ Varint.maximum then .ok (Varint.encode ⟨n⟩) else .error .boundsExceeded

/-- Reads a number of the wide class. -/
def decodeWide : Decoder Nat := do
  let v ← Varint.decode
  pure v.val

/-- Writes a number of the compact class. -/
def encodeCompact (n : Nat) : Encoded :=
  if n ≤ Varint.compactMaximum then .ok (Varint.encode ⟨n⟩) else .error .boundsExceeded

/-- Reads a number of the compact class; a larger one is consumed and refused. -/
def decodeCompact : Decoder Nat := do
  let v ← Varint.decode
  if v.val ≤ Varint.compactMaximum then pure v.val else .fail .boundsExceeded

def wide : Codec Nat := ⟨encodeWide, decodeWide⟩

def compact : Codec Nat := ⟨encodeCompact, decodeCompact⟩

end LiveMedia.Wire
