import LiveMedia.Live.Frame

/-!
# Groups

A group is a sequence of frames under a sequence number. It refers to its frames by identity: a frame
may be written by several hands, and may belong to several groups. To abort a group means to abort all
frames in it, whatever their state, and then the group; the frames are in the hands of `Live.Store`.
-/

namespace LiveMedia.Live

/-- Identifies a frame in its store. -/
abbrev FrameId := Nat

/-- Identifies a group in its store. -/
abbrev GroupId := Nat

/-- A hand that writes a frame, and the size it holds the frame to. -/
structure FrameWriter where
  frame : FrameId
  size : Nat
deriving DecidableEq, Repr

/-- The frames of a group so far, in order. -/
structure Group where
  frames : List FrameWriter
  ending : Option Ending
deriving DecidableEq, Repr

namespace Group

def fresh : Group := ⟨[], none⟩

/-- Appends a frame unless the group has ended. -/
def append (w : FrameWriter) (g : Group) : Except TransportError Group :=
  match g.ending with
  | some ending => .error ending.refusal
  | none => .ok { g with frames := g.frames ++ [w] }

def close (g : Group) : Except TransportError Group :=
  match g.ending with
  | some ending => .error ending.refusal
  | none => .ok { g with ending := some .complete }

/-- Ends the group itself with an error. -/
def abort (e : TransportError) (g : Group) : Group := { g with ending := some (.aborted e) }

/-- The frame at a reader's position, or `none` behind the last frame of a complete group. -/
def nextFrame (position : Nat) (g : Group) : Attempt TransportError (Option FrameWriter) :=
  match g.ending with
  | some (.aborted e) => .failure e
  | some .complete => .ok g.frames[position]?
  | none => match g.frames[position]? with
    | some w => .ok (some w)
    | none => .pending

/-- How the group ended, once it has. -/
def outcome (g : Group) : Attempt TransportError Unit :=
  match g.ending with
  | some ending => ending.verdict
  | none => .pending

end Group

end LiveMedia.Live
