import LiveMedia.Wire.Decoder

/-!
# Audio samples

A sample is the bit pattern of a single precision number; samples are moved and never computed, so
every pattern is kept. On the wire the samples of all channels are interleaved, each in four bytes, the
lowest first.
-/

namespace LiveMedia.Audio

open LiveMedia.Wire

/-- One sample of one channel. -/
structure Sample where
  bits : UInt32
deriving DecidableEq, Repr, Inhabited

/-- The samples of one channel in order. -/
abbrev Channel := Array Sample

namespace Sample

def silence : Sample := ⟨0⟩

/-- The four bytes of a sample, lowest first. -/
def encode (s : Sample) : Bytes :=
  [s.bits.toUInt8, (s.bits >>> 8).toUInt8, (s.bits >>> 16).toUInt8, (s.bits >>> 24).toUInt8]

/-- The sample of four bytes, lowest first. -/
def ofBytes (a b c d : UInt8) : Sample :=
  ⟨a.toUInt32 ||| (b.toUInt32 <<< 8) ||| (c.toUInt32 <<< 16) ||| (d.toUInt32 <<< 24)⟩

/-- Reads samples as long as there are four bytes. -/
def decodeAll : Bytes → List Sample
  | a :: b :: c :: d :: rest => ofBytes a b c d :: decodeAll rest
  | _ => []

end Sample

/-- The sample at a position; beyond the end of a channel there is silence. -/
def sampleAt (channel : Channel) (position : Nat) : Sample := channel[position]?.getD .silence

/-- The length of the longest channel. -/
def longest (channels : List Channel) : Nat :=
  channels.foldl (fun n channel => max n channel.size) 0

/-- Interleaves channels; short ones are filled up with silence. -/
def encodeSamples (channels : List Channel) : Bytes :=
  (List.range (longest channels)).flatMap fun position =>
    channels.flatMap fun channel => (sampleAt channel position).encode

/-- The samples of one channel out of `count` in a row of interleaved samples. -/
def deinterleave (samples : Array Sample) (count channel : Nat) : Channel :=
  (Array.range (samples.size / count)).map fun position =>
    sampleAt samples (position * count + channel)

/-- Splits interleaved samples into channels. The bytes have to make up whole rows. -/
def decodeSamples (bs : Bytes) (channels : Nat) : Except DecodeError (List Channel) :=
  if channels = 0 ∨ bs.length % (4 * channels) ≠ 0 then .error .invalidValue
  else
    let samples := (Sample.decodeAll bs).toArray
    .ok ((List.range channels).map (deinterleave samples channels))

-- ── payloads in pieces ──────────────────────────────────────────────

/-- The next byte of a payload, and what is left of the pieces. -/
def nextByte? : List Bytes → Option (UInt8 × List Bytes)
  | [] => none
  | [] :: pieces => nextByte? pieces
  | (b :: bs) :: pieces => some (b, bs :: pieces)

/-- The next sample, whose bytes may lie in several pieces. -/
def Sample.next? (pieces : List Bytes) : Option (Sample × List Bytes) := do
  let (a, pieces) ← nextByte? pieces
  let (b, pieces) ← nextByte? pieces
  let (c, pieces) ← nextByte? pieces
  let (d, pieces) ← nextByte? pieces
  return (ofBytes a b c d, pieces)

/-- Puts one sample more at the end of each channel. -/
def takeRow? : List Channel → List Bytes → Option (List Channel × List Bytes)
  | [], pieces => some ([], pieces)
  | channel :: channels, pieces => do
    let (sample, pieces) ← Sample.next? pieces
    let (channels, pieces) ← takeRow? channels pieces
    return (channel.push sample :: channels, pieces)

/-- Puts `n` samples more at the end of each channel, row by row. -/
def takeRows? : Nat → List Channel → List Bytes → Option (List Channel)
  | 0, channels, _ => some channels
  | n + 1, channels, pieces => do
    let (channels, pieces) ← takeRow? channels pieces
    takeRows? n channels pieces

/-- The largest number of channels. A list of channels takes three words for each, and nothing takes more
bytes than half of all words can count. -/
def mostChannels : Nat := ((1 <<< 63) - 1) / 24

/-- Splits interleaved samples that come in pieces, on a machine that counts in words. It stops, with no
answer, where the size of a row is no word or there are more channels than it can list. -/
def decodePieces? (pieces : List Bytes) (channels : Nat) :
    Option (Except DecodeError (List Channel)) :=
  let size := pieces.foldl (fun n piece => n + piece.length) 0
  if channels = 0 then some (.error .invalidValue)
  else if 1 <<< 64 ≤ 4 * channels then none
  else if size % (4 * channels) ≠ 0 then some (.error .invalidValue)
  else if mostChannels < channels then none
  else (takeRows? (size / (4 * channels)) (List.replicate channels #[]) pieces).map .ok

end LiveMedia.Audio
