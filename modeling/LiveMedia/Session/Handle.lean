import LiveMedia.Playback.Player
import LiveMedia.Playback.Publisher
import LiveMedia.Transfer.Receiving

/-!
# Sessions

A session is a store of live objects together with everything that its participants have in their
hands. Each handle has a name. What the handles hold decides who can still write, and so whether a
reader waits or is told that its publisher went away.
-/

namespace LiveMedia.Session

open LiveMedia.Live LiveMedia.Playback LiveMedia.Stream LiveMedia.Transfer

-- ── handles ─────────────────────────────────────────────────────────

/-- Something that a participant has in hand. -/
inductive Handle where
  | frameWriter (w : FrameWriter)
  | frameCursor (c : FrameCursor)
  | groupWriter (w : GroupWriter)
  | groupCursor (c : GroupCursor)
  | trackWriter (w : TrackWriter)
  | trackCursor (c : TrackCursor)
  | broadcastWriter (b : BroadcastId)
  | broadcastReader (b : BroadcastId)
  | publisher (p : Publisher)
  | groupReader (r : GroupReader)
  /-- A player and its number, by which closers find it. -/
  | player (number : Nat) (p : Player)
  | closer (number : Nat)
  | sending (s : Sending) (sink : Sink)
  | receiving (track : TrackWriter) (s : Receiving) (reader : Reader)

/-- What a handle holds of the store. -/
def Handle.holdings : Handle → Holdings
  | frameWriter w => [.frameWriter w.frame]
  | frameCursor _ => []
  | groupWriter w => [.groupWriter w.group]
  | groupCursor c => [.groupCursor c.group]
  | trackWriter w => [.trackWriter w.track]
  | trackCursor c => [.trackCursor c.track]
  | broadcastWriter b => [.broadcast b]
  | broadcastReader b => [.broadcast b]
  | publisher p =>
    .trackWriter p.track.track :: (p.current.toList.map fun g => .groupWriter g.group)
  | groupReader r => [.groupCursor r.cursor.group]
  | player _ p => p.holdings
  | closer _ => []
  | sending s _ => [.groupCursor s.cursor.group]
  | receiving track s _ => .trackWriter track.track :: s.holdings

-- ── the session ─────────────────────────────────────────────────────

end LiveMedia.Session

namespace LiveMedia

/-- The live objects and all handles on them. -/
structure Session where
  store : Live.Store
  handles : List (String × Session.Handle)
  /-- The number of players so far. -/
  players : Nat

end LiveMedia

namespace LiveMedia.Session

open LiveMedia.Live

def start : Session := ⟨.empty, [], 0⟩

def find? (s : Session) (name : String) : Option Handle :=
  (s.handles.find? fun entry => entry.1 == name).map Prod.snd

/-- Lets go of the handle of a name. -/
def drop (s : Session) (name : String) : Session :=
  { s with handles := s.handles.filter fun entry => entry.1 != name }

/-- Frees a name, if there is one, for a handle to come. -/
def vacate (s : Session) (name : Option String) : Session :=
  match name with
  | some name => s.drop name
  | none => s

/-- Keeps a handle under a name, in place of the one that had it. -/
def keep (s : Session) (name : String) (h : Handle) : Session :=
  { s with handles := (s.drop name).handles ++ [(name, h)] }

/-- Keeps a handle, or lets go of it at once when there is no name for it. -/
def keepAs (s : Session) (name : Option String) (h : Handle) : Session :=
  match name with
  | some name => s.keep name h
  | none => s

/-- Changes the handle of a name and leaves it in its place. -/
def update (s : Session) (name : String) (h : Handle) : Session :=
  { s with handles := s.handles.map fun entry => if entry.1 == name then (name, h) else entry }

/-- Everything that is held in a session. -/
def holdings (s : Session) : Holdings := s.handles.flatMap fun entry => entry.2.holdings

/-- Runs the tasks of all players until each of them waits. -/
def settle (s : Session) : Session :=
  s.handles.foldl (fun s entry =>
    match s.find? entry.1 with
    | some (.player number p) => s.update entry.1 (.player number (p.settle s.store s.holdings))
    | _ => s) s

/-- Stops the player of a number, wherever it is. -/
def stopPlayer (s : Session) (number : Nat) : Session :=
  { s with handles := s.handles.map fun entry =>
    match entry.2 with
    | .player n p => if n = number then (entry.1, .player n p.stop) else entry
    | _ => entry }

end LiveMedia.Session
