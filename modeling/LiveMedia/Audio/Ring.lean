import LiveMedia.Audio.Samples
import LiveMedia.Error.Media
import LiveMedia.Time.Scale

/-!
# The audio ring

A ring holds the latest samples of each channel. Samples are written at the position that their
timestamp gives and read as one continuous stream. Positions only grow; they wrap when they index the
storage. Reading gives nothing until the ring overflows for the first time, so that playback starts with
a full window. From then on the oldest samples give way to new ones, and gaps between writes are silence.
-/

namespace LiveMedia.Audio

open LiveMedia.Time

/-- The shape of an audio buffer. -/
structure AudioConfig where
  /-- Samples per second, per channel. -/
  sampleRate : Nat
  channelCount : Nat
  /-- How much is buffered before playback, and at most. -/
  latency : Span
deriving DecidableEq, Repr

/-- The shape that is used unless another is given. -/
def AudioConfig.standard : AudioConfig := ⟨48000, 2, .ofMillis 100⟩

structure Ring where
  sampleRate : Nat
  /-- The storage of each channel, of the size of the capacity. -/
  channels : List Channel
  capacity : Nat
  /-- The position behind the last sample that was written. -/
  writePosition : Nat
  /-- The position of the next sample to be read. -/
  readPosition : Nat
  /-- The ring has not overflowed yet. -/
  refilling : Bool
deriving DecidableEq, Repr

namespace Ring

/-- The largest word of 64 bits. -/
def wordMaximum : Nat := (1 <<< 64) - 1

/-- The samples of a window, rounded up. -/
def capacityOf (config : AudioConfig) : Nat :=
  (config.sampleRate * config.latency.nanos + (Span.perSecond - 1)) / Span.perSecond

/-- An empty ring of the given shape. The storage has a size of its own that is not checked here: a sample
takes four bytes, and a channel of more than half the address space, or storage for which there is no
memory, cannot be had. A ring of such a shape never comes to be, so nothing is written to it or read. -/
def ofConfig (config : AudioConfig) : Except ConfigFault Ring :=
  if config.sampleRate = 0 then .error .sampleRate
  else if config.channelCount = 0 then .error .channelCount
  else if config.latency.nanos = 0 then .error .latencyZero
  else if wordMaximum < capacityOf config then .error .latencyTooLarge
  else
    let capacity := capacityOf config
    .ok ⟨config.sampleRate,
      List.replicate config.channelCount (Array.replicate capacity .silence), capacity, 0, 0, true⟩

/-- The number of samples per channel that wait to be read. -/
def available (r : Ring) : Nat := r.writePosition - r.readPosition

/-- The position of a time, rounded to the nearest sample. -/
def positionOf (r : Ring) (timestamp : Timestamp) : Nat :=
  (timestamp.micros * r.sampleRate + 500000) / 1000000

/-- Stores the samples `f first`, `f (first + 1)`, … at their positions, `n` of them. -/
def store (capacity : Nat) (f : Nat → Sample) (first : Nat) : Nat → Channel → Channel
  | 0, storage => storage
  | n + 1, storage =>
    store capacity f (first + 1) n (storage.setIfInBounds (first % capacity) (f first))

/-- Makes room for samples up to `stop`. Samples that do not fit are given up, and that ends the
refilling. -/
def evict (r : Ring) (stop : Nat) : Ring :=
  if r.capacity < stop - r.readPosition then
    { r with readPosition := stop - r.capacity, refilling := false }
  else r

/-- Stores silence from the last write up to the position `first`, then the samples of each channel up
to `stop`. The first sample of `data` belongs at `origin`; a channel that is missing or too short is
silent. -/
def storeAll (r : Ring) (data : List Channel) (origin first stop : Nat) : Ring :=
  let gap := max r.writePosition r.readPosition
  let channels := r.channels.zipIdx.map fun (storage, i) =>
    let samples := data[i]?.getD #[]
    let storage := store r.capacity (fun _ => .silence) gap (first - gap) storage
    store r.capacity (fun position => sampleAt samples (position - origin)) first (stop - first)
      storage
  { r with channels, writePosition := max r.writePosition stop }

/-- Writes one array per channel; the first tells how many samples there are. Samples that were already
played are dropped, and a time beyond the positions is ignored. -/
def write (r : Ring) (timestamp : Timestamp) (data : List Channel) : Ring :=
  let count := (data.head?.map Array.size).getD 0
  let start := r.positionOf timestamp
  if count = 0 ∨ wordMaximum < start then r
  else
    let stop := min (start + count) wordMaximum
    if stop ≤ r.readPosition then r
    else
      let r := r.evict stop
      r.storeAll data start (max start r.readPosition) stop

/-- Puts `n` samples in front of the rest of an output. -/
def overwrite (f : Nat → Sample) (n : Nat) (output : Channel) : Channel :=
  (Array.range n).map f ++ output.extract n

/-- The samples that a read takes: as many as there are, and as the shortest output holds. -/
def readable (r : Ring) (outputs : List Channel) : Nat :=
  if r.refilling then 0 else min r.available ((outputs.map Array.size).min?.getD 0)

/-- Fills the front of each output and gives the number of samples put there. Outputs beyond the
channels get silence. -/
def read (r : Ring) (outputs : List Channel) : Nat × List Channel × Ring :=
  let count := r.readable outputs
  let outputs := outputs.zipIdx.map fun (output, i) =>
    match r.channels[i]? with
    | some storage =>
      overwrite (fun k => sampleAt storage ((r.readPosition + k) % r.capacity)) count output
    | none => overwrite (fun _ => .silence) count output
  (count, outputs, { r with readPosition := r.readPosition + count })

end Ring

end LiveMedia.Audio
