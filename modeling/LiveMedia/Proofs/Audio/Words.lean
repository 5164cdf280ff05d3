import LiveMedia.Proofs.Audio.Timeline

/-!
# The audio ring in machine words

A machine that counts in words has no result for a sum or product that does not fit, for a difference
below zero, for a division by zero or for a place that storage or an output does not have: the program
stops there. This module is the ring as such a machine runs it. Every sum, product, difference,
remainder and place is checked where it is computed, and `none` says that the machine stopped.

The calls are those of `AudioBuffer.call`, with the loops written out position by position. Positions
and offsets are words of 64 bits; the position of a time is computed in 128 bits.
-/

namespace LiveMedia.Audio

open LiveMedia.Time LiveMedia.Playback

-- ── checked arithmetic ──────────────────────────────────────────────

namespace Checked

/-- A number of at most so many bits. -/
def fit (bits n : Nat) : Option Nat := if n < 2 ^ bits then some n else none

def add (bits a b : Nat) : Option Nat := fit bits (a + b)

def mul (bits a b : Nat) : Option Nat := fit bits (a * b)

def sub (a b : Nat) : Option Nat := if b ≤ a then some (a - b) else none

def mod (a b : Nat) : Option Nat := if b = 0 then none else some (a % b)

/-- Stores a sample at a place that there is. -/
def put (storage : Channel) (place : Nat) (sample : Sample) : Option Channel :=
  if place < storage.size then some (storage.setIfInBounds place sample) else none

/-- The first samples of an output, which has to have as many. -/
def front (output : Channel) (count : Nat) : Option Channel :=
  if count ≤ output.size then some (output.extract 0 count) else none

theorem fit_of_lt {bits n : Nat} (h : n < 2 ^ bits) : fit bits n = some n := if_pos h

theorem add_of_lt {bits a b : Nat} (h : a + b < 2 ^ bits) : add bits a b = some (a + b) :=
  fit_of_lt h

theorem mul_of_lt {bits a b : Nat} (h : a * b < 2 ^ bits) : mul bits a b = some (a * b) :=
  fit_of_lt h

theorem sub_of_le {a b : Nat} (h : b ≤ a) : sub a b = some (a - b) := if_pos h

theorem mod_of_pos {a b : Nat} (h : 0 < b) : mod a b = some (a % b) := if_neg (Nat.ne_of_gt h)

theorem put_of_lt {storage : Channel} {place : Nat} (h : place < storage.size) (sample : Sample) :
    put storage place sample = some (storage.setIfInBounds place sample) := if_pos h

theorem front_of_le {output : Channel} {count : Nat} (h : count ≤ output.size) :
    front output count = some (output.extract 0 count) := if_pos h

end Checked

-- ── the ring ────────────────────────────────────────────────────────

namespace Ring

/-- Stores the sample at an offset of the data of each channel in the cell of a position. -/
def fill? (capacity : Nat) (data : List Channel) (position offset : Nat) (channels : List Channel) :
    Option (List Channel) := do
  let cell ← Checked.mod position capacity
  channels.zipIdx.mapM fun (storage, c) =>
    Checked.put storage cell (sampleAt (data[c]?.getD #[]) offset)

/-- Stores `n` samples of each channel, one position after the other. -/
def fillFrom? (capacity : Nat) (data : List Channel) :
    Nat → Nat → Nat → List Channel → Option (List Channel)
  | 0, _, _, channels => some channels
  | n + 1, position, offset, channels => do
    let channels ← fill? capacity data position offset channels
    let position ← Checked.add 64 position 1
    let offset ← Checked.add 64 offset 1
    fillFrom? capacity data n position offset channels

/-- Makes room up to `stop`. How much was given up is counted, too. -/
def evict? (r : Ring) (stop : Nat) : Option Ring := do
  let ahead ← Checked.sub stop r.readPosition
  if r.capacity < ahead then
    let next ← Checked.sub stop r.capacity
    let _ ← Checked.sub next r.readPosition
    return { r with readPosition := next, refilling := false }
  else return r

/-- How many samples of a write lie before the read position. -/
def skip? (r : Ring) (start : Nat) : Option Nat :=
  if start < r.readPosition then Checked.sub r.readPosition start else some 0

/-- Stores silence up to the first position, if that lies behind the last write. -/
def silence? (r : Ring) (first : Nat) : Option (List Channel) :=
  let gap := max r.writePosition r.readPosition
  if r.writePosition < first then fillFrom? r.capacity [] (first - gap) gap 0 r.channels
  else some r.channels

/-- Stores silence and then the data. What lies before the read position is skipped. -/
def storeAll? (r : Ring) (data : List Channel) (start stop : Nat) : Option Ring := do
  let skipped ← r.skip? start
  let first := max start r.readPosition
  let channels ← r.silence? first
  let channels ← fillFrom? r.capacity data (stop - first) first skipped channels
  return { r with channels, writePosition := max r.writePosition stop }

/-- The position of a time. -/
def positionOf? (r : Ring) (timestamp : Timestamp) : Option Nat := do
  let scaled ← Checked.mul 128 timestamp.value 1000000
  let product ← Checked.mul 128 (scaled / 1000000) r.sampleRate
  let rounded ← Checked.add 128 product 500000
  return rounded / 1000000

/-- Writes so many samples at a position. -/
def writeAt? (r : Ring) (data : List Channel) (count start : Nat) : Option Ring :=
  let stop := min (start + count) wordMaximum
  if wordMaximum < start then some r
  else if stop ≤ r.readPosition then some r
  else do
    let r ← r.evict? stop
    r.storeAll? data start stop

def write? (r : Ring) (timestamp : Timestamp) (data : List Channel) : Option Ring :=
  let count := (data.head?.map Array.size).getD 0
  if count = 0 then some r
  else do
    let start ← r.positionOf? timestamp
    r.writeAt? data count start

/-- The sample that is read into a place of an output. -/
def load? (r : Ring) (storage : Channel) (place : Nat) : Option Sample := do
  let position ← Checked.add 64 r.readPosition place
  let cell ← Checked.mod position r.capacity
  storage[cell]?

/-- Fills the front of an output from the channel of a number, or with silence. -/
def deliver? (r : Ring) (count c : Nat) (output : Channel) : Option Channel := do
  let front ← Checked.front output count
  match r.channels[c]? with
  | some storage =>
    let samples ← (List.range count).mapM (r.load? storage)
    return samples.toArray ++ output.extract count
  | none => return front.map (fun _ => .silence) ++ output.extract count

def deliverAll? (r : Ring) (count : Nat) (outputs : List Channel) : Option (List Channel) :=
  outputs.zipIdx.mapM fun (output, c) => r.deliver? count c output

def read? (r : Ring) (outputs : List Channel) : Option (Nat × List Channel × Ring) :=
  if r.refilling then some (0, outputs, r)
  else do
    let waiting ← Checked.sub r.writePosition r.readPosition
    let count := min waiting ((outputs.map Array.size).min?.getD 0)
    let outputs ← r.deliverAll? count outputs
    let next ← Checked.add 64 r.readPosition count
    return (count, outputs, { r with readPosition := next })

end Ring

-- ── calls ───────────────────────────────────────────────────────────

namespace AudioBuffer

def call? (b : AudioBuffer) (c : Call) : Option (Answer × AudioBuffer) :=
  match b.ring? with
  | .error e => some (.refused e, b)
  | .ok r => match c with
    | .write timestamp data => do
      let r ← r.write? timestamp data
      return (.written, ⟨some r⟩)
    | .writeFrame f => match decodeSamples f.bytes r.channels.length with
      | .error e => some (.refused (.decode e), b)
      | .ok data => do
        let r ← r.write? f.timestamp data
        return (.written, ⟨some r⟩)
    | .read outputs => do
      let (count, outputs, r) ← r.read? outputs
      return (.delivered count outputs, ⟨some r⟩)

/-- What is seen of a list of calls, if the machine gets through them. -/
def observations? : AudioBuffer → List Call → Option (List Observation)
  | _, [] => some []
  | b, c :: calls => do
    let (answer, b) ← b.call? c
    let later ← b.observations? calls
    return ⟨answer, b.size, b.isRefilling⟩ :: later

end AudioBuffer

end LiveMedia.Audio
