import LiveMedia.Audio.Buffer
import Mathlib.Data.Rat.Floor

/-!
# Audio as an unbounded timeline

This is what an audio buffer is meant to be, without storage: a timeline that has a sample for every
channel and every index, two indices between which samples wait to be read, and whether playback still
waits for a full window. Writing puts samples on the timeline, reading goes along it.

`Call` lists what is done with a buffer that has its shape, and `observe` what a caller sees of a list
of calls: the answers with all delivered samples, and after each call how much waits to be read and
whether the buffer is refilling. Both the buffer and the timeline are observed in the same terms.
-/

namespace LiveMedia.Audio

open LiveMedia.Time LiveMedia.Playback

-- ── the timeline ────────────────────────────────────────────────────

/-- Samples on an unbounded timeline. -/
structure Timeline where
  sampleRate : Nat
  channelCount : Nat
  /-- How many samples wait at most. -/
  capacity : Nat
  /-- The sample of a channel at an index. -/
  sample : Nat → Nat → Sample
  readIndex : Nat
  writeIndex : Nat
  refilling : Bool
  read_le_write : readIndex ≤ writeIndex

/-- A shape that a buffer accepts: nothing is zero, and the window is no larger than a word. -/
structure AudioConfig.IsValid (config : AudioConfig) : Prop where
  rate_pos : 0 < config.sampleRate
  channels_pos : 0 < config.channelCount
  latency_pos : 0 < config.latency.nanos
  window_fits : ⌈(config.sampleRate * config.latency.nanos : ℚ) / 10 ^ 9⌉₊ < 2 ^ 64

namespace Timeline

/-- The timeline before anything is written. Its window is the latency, rounded up to samples. -/
def start (config : AudioConfig) : Timeline where
  sampleRate := config.sampleRate
  channelCount := config.channelCount
  capacity := ⌈(config.sampleRate * config.latency.nanos : ℚ) / 10 ^ 9⌉₊
  sample _ _ := .silence
  readIndex := 0
  writeIndex := 0
  refilling := true
  read_le_write := Nat.le_refl 0

/-- The index of a time: that many seconds, times the rate, rounded to the nearest index. -/
def indexOf (t : Timeline) (timestamp : Timestamp) : Nat :=
  (round ((timestamp.value : ℚ) / 10 ^ 6 * t.sampleRate)).toNat

/-- The index that reading goes on from when samples up to `stop` are written. -/
def readFrom (t : Timeline) (stop : Nat) : Nat :=
  if t.capacity < stop - t.readIndex then stop - t.capacity else t.readIndex

theorem readFrom_le (t : Timeline) (stop : Nat) : t.readFrom stop ≤ max t.writeIndex stop := by
  rw [readFrom]
  by_cases hfull : t.capacity < stop - t.readIndex
  · rw [if_pos hfull]
    exact Nat.le_trans (Nat.sub_le stop t.capacity) (Nat.le_max_right _ _)
  · rw [if_neg hfull]
    exact Nat.le_trans t.read_le_write (Nat.le_max_left _ _)

/-- Puts the samples of each channel at the indices from `first` to `stop`, as far as they can still be
    read, and silence before them as far back as something was written. -/
def put (t : Timeline) (data : List Channel) (first stop : Nat) : Timeline where
  sampleRate := t.sampleRate
  channelCount := t.channelCount
  capacity := t.capacity
  sample channel index :=
    if max first (t.readFrom stop) ≤ index ∧ index < stop then
      (data[channel]?.bind (·[index - first]?)).getD .silence
    else if max t.writeIndex (t.readFrom stop) ≤ index ∧ index < first then .silence
    else t.sample channel index
  readIndex := t.readFrom stop
  writeIndex := max t.writeIndex stop
  refilling := t.refilling && decide (stop - t.readIndex ≤ t.capacity)
  read_le_write := t.readFrom_le stop

/-- Writes one array per channel, the first of which tells how many samples there are. Indices are words
    of 64 bits. -/
def write (t : Timeline) (timestamp : Timestamp) (data : List Channel) : Timeline :=
  let count := (data.head?.map Array.size).getD 0
  let first := t.indexOf timestamp
  let stop := min (first + count) (2 ^ 64 - 1)
  if count = 0 ∨ 2 ^ 64 ≤ first ∨ stop ≤ t.readIndex then t else t.put data first stop

/-- How many samples a read takes. -/
def readable (t : Timeline) (outputs : List Channel) : Nat :=
  if t.refilling then 0
  else min (t.writeIndex - t.readIndex) ((outputs.map Array.size).min?.getD 0)

theorem readable_le (t : Timeline) (outputs : List Channel) :
    t.readIndex + t.readable outputs ≤ t.writeIndex := by
  have h := t.read_le_write
  rw [readable]
  split
  · exact h
  · have hmin := Nat.min_le_left (t.writeIndex - t.readIndex) ((outputs.map Array.size).min?.getD 0)
    omega

/-- An output after a read of `count` samples: these in front, silence if there is no such channel, and
    the rest as it was. -/
def deliver (t : Timeline) (count channel : Nat) (output : Channel) : Channel :=
  output.mapIdx fun k sample =>
    if k < count then
      if channel < t.channelCount then t.sample channel (t.readIndex + k) else .silence
    else sample

/-- Reading goes along the timeline and leaves it as it is. -/
def read (t : Timeline) (outputs : List Channel) : Nat × List Channel × Timeline :=
  (t.readable outputs, outputs.mapIdx (t.deliver (t.readable outputs)),
    { t with
      readIndex := t.readIndex + t.readable outputs
      read_le_write := t.readable_le outputs })

end Timeline

-- ── calls ───────────────────────────────────────────────────────────

/-- What is done with a buffer that has its shape. -/
inductive Call where
  | write (timestamp : Timestamp) (data : List Channel)
  | writeFrame (f : MediaFrame)
  | read (outputs : List Channel)

inductive Answer where
  | written
  | refused (e : MediaError)
  | delivered (count : Nat) (outputs : List Channel)

/-- What is seen of a call: its answer, and what the buffer then tells about itself. -/
structure Observation where
  answer : Answer
  size : Nat
  refilling : Except MediaError Bool

namespace AudioBuffer

/-- A call that is refused leaves the buffer as it is. -/
def call (b : AudioBuffer) : Call → Answer × AudioBuffer
  | .write timestamp data => match b.write timestamp data with
    | .ok b => (.written, b)
    | .error e => (.refused e, b)
  | .writeFrame f => match b.writeFrame f with
    | .ok b => (.written, b)
    | .error e => (.refused e, b)
  | .read outputs => match b.read outputs with
    | .ok (count, outputs, b) => (.delivered count outputs, b)
    | .error e => (.refused e, b)

def observe : AudioBuffer → List Call → List Observation
  | _, [] => []
  | b, c :: calls =>
    ⟨(b.call c).1, (b.call c).2.size, (b.call c).2.isRefilling⟩ :: (b.call c).2.observe calls

end AudioBuffer

namespace Timeline

/-- A frame is split into channels before it is written. -/
def call (t : Timeline) : Call → Answer × Timeline
  | .write timestamp data => (.written, t.write timestamp data)
  | .writeFrame f => match decodeSamples f.bytes t.channelCount with
    | .ok data => (.written, t.write f.timestamp data)
    | .error e => (.refused (.decode e), t)
  | .read outputs => (.delivered (t.read outputs).1 (t.read outputs).2.1, (t.read outputs).2.2)

def observe : Timeline → List Call → List Observation
  | _, [] => []
  | t, c :: calls =>
    ⟨(t.call c).1, (t.call c).2.writeIndex - (t.call c).2.readIndex, .ok (t.call c).2.refilling⟩ ::
      (t.call c).2.observe calls

end Timeline

end LiveMedia.Audio
