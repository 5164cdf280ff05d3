import LiveMedia.Live.Store

/-!
# Who still holds what

A reader that finds nothing new waits only as long as somebody could still write. Whoever takes part
holds writers and cursors. A group that anybody holds in turn holds writers of its frames, and a track
that anybody holds holds cursors of the groups it keeps; a broadcast does the same for its tracks.
What is written by nobody any more is dropped.
-/

namespace LiveMedia.Live

open LiveMedia.Wire

/-- One thing that somebody holds. -/
inductive Holding where
  | frameWriter (id : FrameId)
  | groupWriter (id : GroupId)
  | groupCursor (id : GroupId)
  | trackWriter (id : TrackId)
  | trackCursor (id : TrackId)
  | broadcast (id : BroadcastId)
deriving DecidableEq, Repr

/-- Everything that is held. -/
abbrev Holdings := List Holding

/-- Somebody can write to the track. -/
def Holdings.writesTrack (held : Holdings) (id : TrackId) : Bool := held.contains (.trackWriter id)

/-- Somebody can write to the group. -/
def Holdings.writesGroup (held : Holdings) (id : GroupId) : Bool := held.contains (.groupWriter id)

namespace Store

variable (s : Store) (held : Holdings)

/-- Somebody holds the track, directly or through a broadcast. -/
def trackIsHeld (id : TrackId) : Bool :=
  held.any fun
    | .trackWriter t => t == id
    | .trackCursor t => t == id
    | .broadcast b => (s.broadcast b).tracks.any fun entry => entry.2.track == id
    | _ => false

/-- Somebody holds the group, directly or through a track that keeps it. -/
def groupIsHeld (id : GroupId) : Bool :=
  held.contains (.groupWriter id) || held.contains (.groupCursor id) ||
    (List.range s.tracks.size).any fun t =>
      (s.track t).retained.any (fun entry => entry.group == id) && s.trackIsHeld held t

/-- Somebody can write to the frame, directly or through a group that has it. -/
def frameIsWritten (id : FrameId) : Bool :=
  held.contains (.frameWriter id) ||
    (List.range s.groups.size).any fun g =>
      (s.group g).frames.any (fun w => w.frame == id) && s.groupIsHeld held g

end Store

/-- A wait is over, with an error, when nobody can end it. -/
@[macro_inline] def orDropped {α : Type} (attempt : Attempt TransportError α) (isWritten : Bool) :
    Attempt TransportError α :=
  match attempt with
  | .ok a => .ok a
  | .error (.failed e) => .failure e
  | .error .pending => if isWritten then .pending else .failure .dropped

namespace Store

variable (s : Store) (held : Holdings)

-- ── reading frames ──────────────────────────────────────────────────

def readChunk (c : FrameCursor) : Attempt TransportError (Option Bytes) × FrameCursor :=
  match orDropped ((s.frame c.frame).nextChunk c.position) (s.frameIsWritten held c.frame) with
  | .ok (some chunk) => (.ok (some chunk), { c with position := c.position + 1 })
  | attempt => (attempt, c)

/-- All that is left of a frame, once it is complete; before that nothing is consumed. -/
def readAll (c : FrameCursor) : Attempt TransportError Bytes × FrameCursor :=
  match orDropped ((s.frame c.frame).remainder c.position) (s.frameIsWritten held c.frame) with
  | .ok bs => (.ok bs, { c with position := (s.frame c.frame).chunks.length })
  | attempt => (attempt, c)

def frameOutcome (c : FrameCursor) : Attempt TransportError Unit :=
  orDropped (s.frame c.frame).outcome (s.frameIsWritten held c.frame)

-- ── reading groups ──────────────────────────────────────────────────

/-- A reader of the next frame, or `none` at the end of the group. -/
def nextFrame (c : GroupCursor) : Attempt TransportError (Option FrameCursor) × GroupCursor :=
  match c.active with
  | some frame => (.ok (some frame), { c with active := none })
  | none =>
    match orDropped ((s.group c.group).nextFrame c.position) (held.writesGroup c.group) with
    | .ok (some w) => (.ok (some w.cursor), { c with position := c.position + 1 })
    | .ok none => (.ok none, c)
    | .error h => (.error h, c)

/-- The next whole frame, or `none` at the end of the group. A frame that is not complete yet stays
active, so the call can be made again. -/
def readFrame (c : GroupCursor) : Attempt TransportError (Option Bytes) × GroupCursor :=
  match s.nextFrame held c with
  | (.ok (some frame), c) =>
    match s.readAll held frame with
    | (.ok bs, _) => (.ok (some bs), c)
    | (.error h, frame) => (.error h, { c with active := some frame })
  | (.ok none, c) => (.ok none, c)
  | (.error h, c) => (.error h, c)

def groupOutcome (c : GroupCursor) : Attempt TransportError Unit :=
  orDropped (s.group c.group).outcome (held.writesGroup c.group)

-- ── reading tracks ──────────────────────────────────────────────────

/-- A reader of the next group, or `none` when the track was closed and all groups were given out. -/
def nextGroup (c : TrackCursor) : Attempt TransportError (Option GroupCursor) × TrackCursor :=
  let (attempt, seen) := (s.track c.track).nextGroup c.seen
  match orDropped attempt (held.writesTrack c.track) with
  | .ok entry => (.ok (entry.map GroupEntry.cursor), { c with seen })
  | .error h => (.error h, c)

def trackOutcome (c : TrackCursor) : Attempt TransportError Unit :=
  orDropped (s.track c.track).outcome (held.writesTrack c.track)

end Store

end LiveMedia.Live
