import LiveMedia.Audio.Ring
import LiveMedia.Playback.MediaFrame

/-!
# Audio buffers

A buffer is a ring that gets its shape later, once the audio is known. Before that every call but the
one that gives the shape is refused; afterwards that one is.
-/

namespace LiveMedia.Audio

open LiveMedia.Time LiveMedia.Playback

/-- A ring, once it has its shape. -/
structure AudioBuffer where
  ring : Option Ring
deriving DecidableEq, Repr

/-- How full a buffer is. -/
structure Status where
  /-- Samples per channel that can be read. -/
  available : Nat
  /-- The part of the capacity in use, from 0 to 1. -/
  utilization : Float

namespace AudioBuffer

def empty : AudioBuffer := ⟨none⟩

/-- Gives the buffer its shape. -/
def setUp (b : AudioBuffer) (config : AudioConfig) : Except MediaError AudioBuffer :=
  match b.ring with
  | some _ => .error .alreadyInitialized
  | none => match Ring.ofConfig config with
    | .ok ring => .ok ⟨some ring⟩
    | .error fault => .error (.invalidConfig fault)

/-- The ring of a buffer that has one. -/
def ring? (b : AudioBuffer) : Except MediaError Ring :=
  match b.ring with
  | some ring => .ok ring
  | none => .error .notInitialized

def write (b : AudioBuffer) (timestamp : Timestamp) (data : List Channel) :
    Except MediaError AudioBuffer := do
  let ring ← b.ring?
  return ⟨some (ring.write timestamp data)⟩

/-- Writes a frame of interleaved samples. -/
def writeFrame (b : AudioBuffer) (f : MediaFrame) : Except MediaError AudioBuffer := do
  let ring ← b.ring?
  let channels ← (decodeSamples f.bytes ring.channels.length).mapError .decode
  return ⟨some (ring.write f.timestamp channels)⟩

/-- Fills the outputs and gives the number of samples put into each. -/
def read (b : AudioBuffer) (outputs : List Channel) :
    Except MediaError (Nat × List Channel × AudioBuffer) := do
  let ring ← b.ring?
  let (count, outputs, ring) := ring.read outputs
  return (count, outputs, ⟨some ring⟩)

/-- The number of samples per channel that wait to be read. -/
def size (b : AudioBuffer) : Nat := (b.ring.map Ring.available).getD 0

def isEmpty (b : AudioBuffer) : Bool := b.size == 0

def status (b : AudioBuffer) : Status :=
  match b.ring with
  | some ring =>
    ⟨ring.available, ring.available.toUInt64.toFloat / ring.capacity.toUInt64.toFloat⟩
  | none => ⟨0, 0⟩

def capacity (b : AudioBuffer) : Except MediaError Nat := do
  let ring ← b.ring?
  return ring.capacity

def isRefilling (b : AudioBuffer) : Except MediaError Bool := do
  let ring ← b.ring?
  return ring.refilling

end AudioBuffer

end LiveMedia.Audio
