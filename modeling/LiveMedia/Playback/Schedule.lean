import LiveMedia.Entries
import LiveMedia.Error.Media
import LiveMedia.Playback.MediaFrame
import LiveMedia.Stream.Attempt

/-!
# The order of playback

The groups of a track are read side by side and merged into one stream of frames. Frames come from the
oldest group first. The oldest group is given up once its next frame lies more than the latency budget
behind the newest frame of any group. The newest group is never given up.

A schedule is driven by events: a group was found, a frame of it was read, it is done, the track is
done. `Schedule.next` takes the next frame out.
-/

namespace LiveMedia.Playback

open LiveMedia.Time

/-- A frame with the sequence number of its group. -/
structure OrderedFrame where
  group : Nat
  frame : MediaFrame
deriving DecidableEq, Repr

/-- What the readers of a track report. -/
inductive Event where
  /-- A group was found, and the reader of that number reads it. -/
  | group (sequence reader : Nat)
  | frame (sequence : Nat) (f : MediaFrame)
  /-- The group was closed or aborted. -/
  | groupDone (sequence : Nat)
  | trackDone (result : Except MediaError Unit)

/-- The frames of one group that were read and not played. -/
structure Lane where
  /-- The reader that fills the lane. -/
  reader : Nat
  buffered : List MediaFrame
  /-- The timestamp of the last frame that was played. -/
  last : Option Timestamp
  /-- Nothing more will be buffered. -/
  done : Bool
deriving DecidableEq, Repr

/-- The state of playback. -/
structure Schedule where
  latency : Span
  /-- A lane for each group, oldest first. -/
  lanes : Entries Lane
  /-- The latest timestamp that was read in any group. -/
  newest : Option Timestamp
  /-- Groups below this number were played or given up. -/
  floor : Nat
  /-- How the track ended. -/
  ended : Option (Except MediaError Unit)

namespace Schedule

def start (latency : Span) : Schedule := ⟨latency, [], none, 0, none⟩

-- ── events ──────────────────────────────────────────────────────────

def apply (s : Schedule) : Event → Schedule
  | .group sequence reader =>
    if sequence < s.floor then s
    else { s with lanes := s.lanes.insert sequence ⟨reader, [], none, false⟩ }
  | .frame sequence f =>
    match s.lanes.find? sequence with
    | none => s
    | some _ =>
      { s with
        newest := some (match s.newest with
          | some newest => newest.latest f.timestamp
          | none => f.timestamp)
        lanes := s.lanes.modify sequence fun lane =>
          { lane with buffered := lane.buffered ++ [f] } }
  | .groupDone sequence =>
    { s with lanes := s.lanes.modify sequence fun lane => { lane with done := true } }
  | .trackDone result => { s with ended := some result }

def applyAll (s : Schedule) (events : List Event) : Schedule := events.foldl apply s

-- ── the next frame ──────────────────────────────────────────────────

/-- The time that the oldest lane is measured by: its next frame, else the last one it played, else the
first frame that waits in a newer lane. -/
def reference (oldest : Lane) (newer : Entries Lane) : Option Timestamp :=
  match oldest.buffered, oldest.last with
  | f :: _, _ => some f.timestamp
  | [], some last => some last
  | [], none => newer.findSome? fun entry => entry.2.buffered.head?.map (·.timestamp)

/-- The oldest lane is more than the budget behind, and there is a newer one. -/
def isStale (latency : Span) (newest : Option Timestamp) (oldest : Lane) (newer : Entries Lane) :
    Bool :=
  match newest, newer with
  | some newest, _ :: _ => match reference oldest newer with
    | some reference => latency < (newest.saturatingSub reference).toSpan
    | none => false
  | _, _ => false

/-- Sequence numbers stop at the largest word. -/
def sequenceAfter (sequence : Nat) : Nat := min (sequence + 1) ((1 <<< 64) - 1)

/-- Goes over the lanes, oldest first, until one has a frame or has to be waited for. Gives the frame,
the new floor and the lanes that are left. -/
def advance (latency : Span) (newest : Option Timestamp) (floor : Nat) :
    Entries Lane → Option OrderedFrame × Nat × Entries Lane
  | [] => (none, floor, [])
  | (sequence, oldest) :: newer =>
    if isStale latency newest oldest newer then
      advance latency newest (max floor (sequenceAfter sequence)) newer
    else match oldest.buffered with
      | f :: rest =>
        (some ⟨sequence, f⟩, max floor sequence,
          (sequence, { oldest with buffered := rest, last := some f.timestamp }) :: newer)
      | [] =>
        if oldest.done then advance latency newest floor newer
        else (none, floor, (sequence, oldest) :: newer)

/-- Takes out the next frame, if there is one to play. -/
def next (s : Schedule) : Option OrderedFrame × Schedule :=
  let (frame, floor, lanes) := advance s.latency s.newest s.floor s.lanes
  (frame, { s with floor, lanes })

/-- Applies what was reported and takes out the next frame. Behind the last frame comes the end of the
track; before it there is something to wait for. -/
def read (s : Schedule) (events : List Event) :
    Attempt MediaError (Option OrderedFrame) × Schedule :=
  match (s.applyAll events).next with
  | (some frame, s) => (.ok (some frame), s)
  | (none, s) => match s.lanes, s.ended with
    | [], some (.ok ()) => (.ok none, s)
    | [], some (.error e) => (.failure e, s)
    | _, _ => (.pending, s)

end Schedule

end LiveMedia.Playback
