import LiveMedia.Audio.Buffer
import LiveMedia.Number.Nearest
import LiveMedia.Number.Single
import LiveMedia.Simulation.Line
import LiveMedia.Simulation.Report

/-!
# Audio runs

A tone is published in frames of equal length, each a group of its own, goes through the network into a
jitter buffer, and is pulled out of the buffer in chunks at a fixed interval. The report tells when
playback started, and in the end how many samples were played and how many chunks came short or were
silent.
-/

namespace LiveMedia.Simulation

open LiveMedia.Wire LiveMedia.Time LiveMedia.Audio LiveMedia.Playback LiveMedia.Number

/-- A tone to publish, the network it goes through and the buffer it is played from. -/
structure Tone where
  network : Network
  sampleRate : Nat
  channels : Nat
  /-- The frequency in cycles per second. -/
  frequency : Single
  /-- The length of each published frame. -/
  frame : Span
  /-- The length of all that is published. -/
  duration : Span
  /-- The size of the jitter buffer. -/
  buffer : Span
  /-- How much is pulled at a time. -/
  chunk : Span
deriving DecidableEq, Repr

namespace Tone

def standard : Tone :=
  ⟨.standard, 48000, 2, ⟨0x43dc0000⟩, .ofMillis 20, .ofSeconds 5, .ofMillis 100, .ofMillis 10⟩

def config (t : Tone) : AudioConfig := ⟨t.sampleRate, t.channels, t.buffer⟩

/-- The number of samples in a span, to the nearest, computed in double precision. -/
def samples (t : Tone) (d : Span) : Nat :=
  nearest (d.toFloat * t.sampleRate.toUInt64.toFloat)

-- ── publishing ──────────────────────────────────────────────────────

/-- The number of samples that are published before a tick. -/
def position (t : Tone) (tick : Nat) : Nat := tick * t.samples t.frame

/-- A full circle. -/
def circle : Float32 := .ofBits 0x40c90fdb

/-- The tone at a position. -/
def sample (t : Tone) (position : Nat) : Sample :=
  let turns := circle * t.frequency.toFloat32 * position.toUInt64.toFloat32
  ⟨((turns / t.sampleRate.toUInt64.toFloat32).sin * 0.5).toBits⟩

/-- The samples of one frame, the same in all channels. -/
def payload (t : Tone) (tick : Nat) : Bytes :=
  let tone := (Array.range (t.samples t.frame)).map fun i => t.sample (t.position tick + i)
  encodeSamples (List.replicate t.channels tone)

/-- The frame of a tick. Each can be decoded on its own. -/
def mediaFrame (t : Tone) (tick : Nat) : Except TimeError MediaFrame := do
  let timestamp ← Timescale.ofScale (t.position tick) t.sampleRate
  return .ofChunks timestamp true [t.payload tick]

/-- Frames are published until there are enough samples. -/
def feed (t : Tone) : Feed :=
  ⟨t.frame, fun tick => t.position tick < t.samples t.duration, t.mediaFrame⟩

/-- The number of frames that are published, if publishing comes to an end. -/
def frameCount? (t : Tone) : Option Nat :=
  let total := t.samples t.duration
  let each := t.samples t.frame
  if each = 0 then if total = 0 then some 0 else none
  else some ((total + (each - 1)) / each)

-- ── playing ─────────────────────────────────────────────────────────

/-- The number of samples that are pulled at a time. -/
def chunkSamples (t : Tone) : Nat := max (t.samples t.chunk) 1

/-- The span between two pulls. -/
def interval (t : Tone) : Span := t.chunk.max (.ofMillis 1)

/-- No pull is begun once this much time has passed at the one before it. -/
def deadline (t : Tone) : Span := t.duration + t.buffer + t.buffer + t.network.latency

/-- The number of pulls. -/
def pullCount (t : Tone) : Nat :=
  if t.deadline = .zero then 0
  else (t.deadline.nanos + (t.interval.nanos - 1)) / t.interval.nanos + 1

/-- The instant of a pull. -/
def pullInstant (t : Tone) (pull : Nat) : Span := ⟨pull * t.interval.nanos⟩

end Tone

/-- What came out of the buffer so far. -/
structure Pulled where
  /-- The number of pulls. -/
  pulls : Nat
  /-- The samples that were played. -/
  played : Nat
  /-- Chunks that were not filled. -/
  short : Nat
  /-- Chunks before playback started. -/
  silent : Nat
  refilling : Bool
deriving DecidableEq, Repr

namespace Pulled

/-- Playback before the first pull. -/
def start : Pulled := ⟨0, 0, 0, 0, true⟩

def startedEvent (available : Nat) : Event :=
  ⟨"playback started", [("available", toString available)]⟩

def doneEvent (p : Pulled) : Event :=
  ⟨"done", [("played", toString p.played), ("short", toString p.short),
    ("silent", toString p.silent)]⟩

/-- Counts a pull of `count` samples out of `chunk`. -/
def record (p : Pulled) (chunk count : Nat) (refilling : Bool) : Pulled :=
  { pulls := p.pulls + 1
    played := p.played + count
    short := if refilling = false ∧ count < chunk then p.short + 1 else p.short
    silent := if refilling then p.silent + 1 else p.silent
    refilling }

/-- Pulls a chunk out of the buffer. -/
def pull (p : Pulled) (chunk channels : Nat) (buffer : AudioBuffer) :
    Except MediaError (List Event × Pulled × AudioBuffer) := do
  let (count, _, buffer) ←
    buffer.read (List.replicate channels (Array.replicate chunk .silence))
  let refilling ← buffer.isRefilling
  let events := if p.refilling ∧ refilling = false then [startedEvent buffer.size] else []
  return (events, p.record chunk count refilling, buffer)

end Pulled

/-- The state of an audio run. -/
structure Stage where
  line : Line
  buffer : AudioBuffer
  pulled : Pulled

namespace Stage

/-- Pulls a chunk if one is due. A buffer that cannot be read ends playback without one. -/
def pull (t : Tone) (now : Span) (s : Stage) : List Event × Stage :=
  if s.pulled.pulls < t.pullCount ∧ t.pullInstant s.pulled.pulls ≤ now then
    match s.pulled.pull t.chunkSamples t.channels s.buffer with
    | .ok (events, pulled, buffer) => (events, { s with pulled, buffer })
    | .error _ => ([], { s with pulled := { s.pulled with pulls := t.pullCount } })
  else ([], s)

/-- Puts frames into the buffer. -/
def store (buffer : AudioBuffer) (frames : List OrderedFrame) : Except Fault AudioBuffer :=
  (frames.foldlM (fun (b : AudioBuffer) f => b.writeFrame f.frame) buffer).mapError .media

/-- Lets the line go on and puts what is played into the buffer. -/
def listen (t : Tone) (delay : Nat → Span) (now : Span) (s : Stage) : Except Fault Stage := do
  if s.line.isDone then return s
  let (frames, line) := s.line.act t.feed delay now
  let buffer ← store s.buffer frames
  return { s with line := ← line, buffer }

/-- Instants at which something is due later. -/
def upcoming (t : Tone) (now : Span) (s : Stage) : List Span :=
  (if s.line.isDone then [] else s.line.upcoming t.feed now) ++
    (if s.pulled.pulls < t.pullCount then [t.pullInstant s.pulled.pulls] else [])

def isDone (t : Tone) (s : Stage) : Bool := s.line.isDone && t.pullCount ≤ s.pulled.pulls

end Stage

namespace Tone

/-- Goes on from an instant until all is published and played, through at most `fuel` instants. -/
def runFrom (t : Tone) (delay : Nat → Span) : Nat → Span → Stage → Report
  | 0, _, _ => .refused .endless
  | fuel + 1, now, s =>
    let (events, s) := s.pull t now
    match s.listen t delay now with
    | .error fault => ⟨events, some fault⟩
    | .ok s =>
      if s.isDone t then ⟨events ++ [s.pulled.doneEvent], none⟩
      else match earliest (s.upcoming t now) with
        | some next =>
          let rest := runFrom t delay fuel next s
          { rest with events := events ++ rest.events }
        | none => ⟨events, some .endless⟩

/-- The report of a run. At each instant a frame is published, a delivery begins or a chunk is
pulled. -/
def run (t : Tone) (draw : Draw) : Report :=
  match AudioBuffer.empty.setUp t.config with
  | .error e => .refused (.media e)
  | .ok buffer =>
    if t.frame = .zero then .refused .noFrameDuration
    else match t.frameCount? with
      | none => .refused .endless
      | some count =>
        t.runFrom (t.network.delay draw) (2 * count + t.pullCount + 2) .zero
          ⟨.start "audio" t.network.latency, buffer, .start⟩

end Tone

end LiveMedia.Simulation
