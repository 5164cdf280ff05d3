import LiveMedia.Simulation.Line
import LiveMedia.Simulation.Report

/-!
# Video runs

A video is published as groups of equally many frames, one frame every period, and is watched through
the network. The report tells each frame with its delay against a perfect network, and in the end how
many frames were played and which groups were skipped.
-/

namespace LiveMedia.Simulation

open LiveMedia.Wire LiveMedia.Time LiveMedia.Playback

/-- A video to publish, and the network it goes through. -/
structure Video where
  network : Network
  groups : Nat
  /-- The number of frames in each group. -/
  frames : Nat
  /-- Frames in a second. -/
  rate : Nat
  /-- The size of each payload. -/
  size : Nat
deriving DecidableEq, Repr

/-- A frame that was played at an instant. -/
structure Played where
  frame : OrderedFrame
  instant : Span
deriving DecidableEq, Repr

/-- How late the frame was, compared to a perfect network. -/
def Played.delay (p : Played) : Span := p.instant - p.frame.frame.timestamp.toSpan

namespace Video

def standard : Video := ⟨.standard, 10, 30, 30, 1200⟩

/-- Counts are below this number. -/
def countLimit : Nat := 1 <<< 32

/-- The span of one frame, rounded down. -/
def period (v : Video) : Span := ⟨Span.perSecond / v.rate⟩

/-- The number of frames in all groups. -/
def total (v : Video) : Nat := v.groups * v.frames

/-- The video has frames at all. -/
def isAccepted (v : Video) : Bool := 0 < v.rate && 0 < v.frames

/-- The frames can be counted and timed. -/
def isPublishable (v : Video) : Bool := 0 < v.period.nanos && v.total < countLimit

/-- The frame of a number, with a payload of zeros. Each group begins with a keyframe. -/
def frame (v : Video) (index : Nat) : Except TimeError MediaFrame := do
  let timestamp ← Timescale.ofSpan ⟨v.period.nanos * index⟩
  return .ofChunks timestamp (index % v.frames == 0) [List.replicate v.size 0]

def feed (v : Video) : Feed :=
  ⟨v.period, fun index => index < v.total, v.frame⟩

-- ── running ─────────────────────────────────────────────────────────

/-- Goes on from an instant until the line is done, through at most `fuel` instants. Gives the frames
that were played, and the fault if there was one. -/
def runFrom (feed : Feed) (delay : Nat → Span) :
    Nat → Span → Line → List Played × Option Fault
  | 0, _, _ => ([], some .endless)
  | fuel + 1, now, l => match l.act feed delay now with
    | (frames, .error e) => (frames.map (⟨·, now⟩), some e)
    | (frames, .ok l) =>
      let played := frames.map (⟨·, now⟩)
      if l.isDone then (played, none)
      else match earliest (l.upcoming feed now) with
        | some next =>
          let (more, fault) := runFrom feed delay fuel next l
          (played ++ more, fault)
        | none => (played, some .endless)

/-- The frames that are played in a run. At each instant a frame is published or a delivery begins. -/
def play (v : Video) (draw : Draw) : List Played × Option Fault :=
  runFrom v.feed (v.network.delay draw) (v.total + v.groups + 1) .zero
    (.start "video" v.network.latency)

-- ── the report ──────────────────────────────────────────────────────

def frameEvent (p : Played) : Event :=
  ⟨"frame", [("group", toString p.frame.group), ("timestamp", p.frame.frame.timestamp.text),
    ("keyframe", toString p.frame.frame.keyframe), ("delay", p.delay.text)]⟩

/-- The groups of which no frame was played. -/
def skipped (v : Video) (played : List Played) : List Nat :=
  (List.range v.groups).filter fun group => !played.any fun p => p.frame.group == group

/-- The largest delay of any frame. -/
def largestDelay (played : List Played) : Span :=
  played.foldl (fun d p => d.max p.delay) .zero

def doneEvent (v : Video) (played : List Played) : Event :=
  ⟨"done", [("published", toString v.groups), ("frames", toString played.length),
    ("skipped", listText (v.skipped played)), ("max_delay", (largestDelay played).text)]⟩

/-- The report of a run. -/
def run (v : Video) (draw : Draw) : Report :=
  if v.isAccepted = false then .refused .noFrames
  else if v.isPublishable = false then .refused .outOfRange
  else match v.play draw with
    | (played, none) => ⟨played.map frameEvent ++ [v.doneEvent played], none⟩
    | (played, some fault) => ⟨played.map frameEvent, some fault⟩

end Video

end LiveMedia.Simulation
