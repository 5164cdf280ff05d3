import LiveMedia.Live.Track

/-!
# The store of live objects

The store holds every frame, group, track and broadcast by identity. Publishers act through writers,
which name the object they write; readers through cursors, which name the object they read and keep a
position in it. An operation that fails leaves the store as it was.
-/

namespace LiveMedia.Live

open LiveMedia.Wire

/-- Identifies a broadcast in its store. -/
abbrev BroadcastId := Nat

/-- A hand that writes a group. -/
structure GroupWriter where
  group : GroupId
  sequence : Nat
deriving DecidableEq, Repr

/-- A hand that writes a track. -/
structure TrackWriter where
  track : TrackId
  info : TrackInfo
deriving DecidableEq, Repr

/-- A position in a frame, counted in chunks. -/
structure FrameCursor where
  frame : FrameId
  size : Nat
  position : Nat
deriving DecidableEq, Repr

/-- A position in a group. A frame that was begun but not read to its end is kept, so that a call
that was given up can be made again. -/
structure GroupCursor where
  group : GroupId
  sequence : Nat
  position : Nat
  active : Option FrameCursor
deriving DecidableEq, Repr

/-- A position in a track: the sequence numbers that were given out. -/
structure TrackCursor where
  track : TrackId
  info : TrackInfo
  seen : List Nat
deriving DecidableEq, Repr

/-- The tracks of a broadcast by name. -/
structure Broadcast where
  tracks : List (String × TrackCursor)
deriving DecidableEq, Repr

/-- All live objects, each under its identity. -/
structure Store where
  frames : Array Frame
  groups : Array Group
  tracks : Array Track
  broadcasts : Array Broadcast

namespace Store

def empty : Store := ⟨#[], #[], #[], #[]⟩

def frame (s : Store) (id : FrameId) : Frame := s.frames[id]?.getD .fresh

def group (s : Store) (id : GroupId) : Group := s.groups[id]?.getD .fresh

def track (s : Store) (id : TrackId) : Track := s.tracks[id]?.getD .fresh

def broadcast (s : Store) (id : BroadcastId) : Broadcast := s.broadcasts[id]?.getD ⟨[]⟩

def setFrame (s : Store) (id : FrameId) (f : Frame) : Store :=
  { s with frames := s.frames.setIfInBounds id f }

def setGroup (s : Store) (id : GroupId) (g : Group) : Store :=
  { s with groups := s.groups.setIfInBounds id g }

def setTrack (s : Store) (id : TrackId) (t : Track) : Store :=
  { s with tracks := s.tracks.setIfInBounds id t }

def setBroadcast (s : Store) (id : BroadcastId) (b : Broadcast) : Store :=
  { s with broadcasts := s.broadcasts.setIfInBounds id b }

-- ── writing frames ──────────────────────────────────────────────────

/-- A new frame of the given size, in no group. -/
def newFrame (s : Store) (size : Nat) : FrameWriter × Store :=
  (⟨s.frames.size, size⟩, { s with frames := s.frames.push .fresh })

/-- Writes a chunk; `none` when the bytes of the frame cannot be counted any more. -/
def writeChunk? (s : Store) (w : FrameWriter) (chunk : Bytes) :
    Option (Except TransportError Store) :=
  ((s.frame w.frame).write? w.size chunk).map fun result => result.map (s.setFrame w.frame)

def writeChunk (s : Store) (w : FrameWriter) (chunk : Bytes) : Except TransportError Store :=
  ((s.frame w.frame).write w.size chunk).map (s.setFrame w.frame)

def closeFrame (s : Store) (w : FrameWriter) : Except TransportError Store :=
  ((s.frame w.frame).close w.size).map (s.setFrame w.frame)

def abortFrame (s : Store) (e : TransportError) (w : FrameWriter) : Store :=
  s.setFrame w.frame ((s.frame w.frame).abort e)

-- ── writing groups ──────────────────────────────────────────────────

/-- A new group, on no track. -/
def newGroup (s : Store) (sequence : Nat) : GroupWriter × Store :=
  (⟨s.groups.size, sequence⟩, { s with groups := s.groups.push .fresh })

def appendFrame (s : Store) (g : GroupWriter) (w : FrameWriter) : Except TransportError Store :=
  ((s.group g.group).append w).map (s.setGroup g.group)

/-- A new frame at the end of a group. -/
def createFrame (s : Store) (g : GroupWriter) (size : Nat) :
    Except TransportError (FrameWriter × Store) := do
  let (w, next) := s.newFrame size
  return (w, ← next.appendFrame g w)

/-- Writes chunks to a frame, one after the other. -/
def writeChunks (s : Store) (w : FrameWriter) : List Bytes → Except TransportError Store
  | [] => .ok s
  | chunk :: chunks => do
    let s ← s.writeChunk w chunk
    s.writeChunks w chunks

/-- A whole frame at the end of a group, of the size of its chunks together. They are meant to be few
enough for their bytes to be counted. -/
def writeFrame (s : Store) (g : GroupWriter) (chunks : List Bytes) :
    Except TransportError Store := do
  let (w, s) ← s.createFrame g chunks.flatten.length
  let s ← s.writeChunks w chunks
  s.closeFrame w

def closeGroup (s : Store) (g : GroupWriter) : Except TransportError Store :=
  (s.group g.group).close.map (s.setGroup g.group)

/-- Aborts every frame of a group, and then the group. -/
def abortGroup (s : Store) (e : TransportError) (g : GroupWriter) : Store :=
  let s := (s.group g.group).frames.foldl (fun s w => s.abortFrame e w) s
  s.setGroup g.group ((s.group g.group).abort e)

-- ── writing tracks ──────────────────────────────────────────────────

/-- A new track, in no broadcast. -/
def newTrack (s : Store) (info : TrackInfo) : TrackWriter × Store :=
  (⟨s.tracks.size, info⟩, { s with tracks := s.tracks.push .fresh })

/-- A new group on a track, under the given sequence number. -/
def createGroup (s : Store) (t : TrackWriter) (sequence : Nat) :
    Except TransportError (GroupWriter × Store) := do
  let (g, next) := s.newGroup sequence
  let track ← (s.track t.track).insert ⟨g.group, sequence⟩
  return (g, next.setTrack t.track track)

/-- A new group on a track, under the next sequence number; `none` when there is no next number. -/
def appendGroup? (s : Store) (t : TrackWriter) :
    Option (Except TransportError (GroupWriter × Store)) :=
  (s.track t.track).nextSequence?.map (s.createGroup t)

def closeTrack (s : Store) (t : TrackWriter) : Except TransportError Store :=
  (s.track t.track).close.map (s.setTrack t.track)

def abortTrack (s : Store) (e : TransportError) (t : TrackWriter) : Store :=
  s.setTrack t.track ((s.track t.track).abort e)

-- ── cursors ─────────────────────────────────────────────────────────

end Store

/-- A reader at the start of the frame. -/
def FrameWriter.cursor (w : FrameWriter) : FrameCursor := ⟨w.frame, w.size, 0⟩

/-- A reader at the start of the group. -/
def GroupWriter.cursor (g : GroupWriter) : GroupCursor := ⟨g.group, g.sequence, 0, none⟩

/-- A reader at the start of the group. -/
def GroupEntry.cursor (e : GroupEntry) : GroupCursor := ⟨e.group, e.sequence, 0, none⟩

/-- A reader that has seen nothing of the track. -/
def TrackWriter.cursor (t : TrackWriter) : TrackCursor := ⟨t.track, t.info, []⟩

-- ── broadcasts ──────────────────────────────────────────────────────

namespace Broadcast

def find? (b : Broadcast) (name : String) : Option TrackCursor :=
  (b.tracks.find? fun entry => entry.1 == name).map Prod.snd

/-- Publishes a track under its name, in place of another of that name. -/
def insert (b : Broadcast) (cursor : TrackCursor) : Broadcast :=
  ⟨(b.tracks.filter fun entry => entry.1 != cursor.info.name) ++ [(cursor.info.name, cursor)]⟩

def erase (b : Broadcast) (name : String) : Broadcast :=
  ⟨b.tracks.filter fun entry => entry.1 != name⟩

end Broadcast

namespace Store

def newBroadcast (s : Store) : BroadcastId × Store :=
  (s.broadcasts.size, { s with broadcasts := s.broadcasts.push ⟨[]⟩ })

/-- Publishes a track; true if it took the place of another. -/
def insertTrack (s : Store) (b : BroadcastId) (cursor : TrackCursor) : Bool × Store :=
  (((s.broadcast b).find? cursor.info.name).isSome,
    s.setBroadcast b ((s.broadcast b).insert cursor))

/-- A new track, published at once. -/
def createTrack (s : Store) (b : BroadcastId) (info : TrackInfo) : TrackWriter × Store :=
  let (t, s) := s.newTrack info
  (t, (s.insertTrack b t.cursor).2)

/-- Takes a track out of a broadcast. -/
def removeTrack (s : Store) (b : BroadcastId) (name : String) : Option TrackCursor × Store :=
  ((s.broadcast b).find? name, s.setBroadcast b ((s.broadcast b).erase name))

/-- A reader of the named track, with the priority that was asked for. A name that is not published
gives a reader of a track that was aborted as not found. -/
def subscribe (s : Store) (b : BroadcastId) (info : TrackInfo) : TrackCursor × Store :=
  match (s.broadcast b).find? info.name with
  | some cursor => ({ cursor with info := { cursor.info with priority := info.priority } }, s)
  | none =>
    let (t, s) := s.newTrack info
    (t.cursor, s.abortTrack .notFound t)

end Store

end LiveMedia.Live
