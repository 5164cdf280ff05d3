import LiveMedia.Session.Handle

/-!
# Steps and their answers

What participants of a session can do, and what they are told.
-/

namespace LiveMedia.Session

open LiveMedia.Wire LiveMedia.Time LiveMedia.Message LiveMedia.Live LiveMedia.Playback
open LiveMedia.Stream

/-- One thing that a participant does. Handles are given by name; a name for a new handle may be left
out, and then the handle is let go. -/
inductive Step where
  -- any handle
  | clone (of : String) (name : Option String)
  | drop (on : String)
  | info (on : String)
  | cursor (of : String) (name : Option String)
  | sameTrack (on other : String)
  | close (on : String)
  | abort (on : String) (e : TransportError)
  | outcome (on : String)
  -- broadcasts
  | newBroadcast (name : Option String)
  | createTrack (on : String) (info : TrackInfo) (name : Option String)
  | insertTrack (on track : String)
  | removeTrack (on trackName : String) (name : Option String)
  | subscribe (on : String) (info : TrackInfo) (name : Option String)
  -- tracks
  | newTrack (info : TrackInfo) (name reader : Option String)
  | createGroup (on : String) (sequence : Nat) (name : Option String)
  | appendGroup (on : String) (name : Option String)
  | nextGroup (on : String) (name : Option String)
  -- groups
  | newGroup (sequence : Nat) (name reader : Option String)
  | createFrame (on : String) (size : Nat) (name : Option String)
  /-- Appends a frame, with another size than its writer has if one is stated. -/
  | appendFrame (on frame : String) (stated : Option Nat)
  | writeFrame (on : String) (payload : Bytes)
  | readFrame (on : String)
  | nextFrame (on : String) (name : Option String)
  -- frames
  | newFrame (size : Nat) (name reader : Option String)
  | writeChunk (on : String) (chunk : Bytes)
  | readChunk (on : String)
  | readChunks (on : String)
  | readAll (on : String)
  -- streams
  | sendGroup (group : String) (header : GroupHeader) (sink : Sink) (name : Option String)
  | receiveGroup (track : String) (source : Source) (name : Option String)
  /-- Goes on with a stream, first changing the sink's limit or adding to the source. -/
  | poll (on : String) (allow : Option (Option Nat)) (more : Source)
  -- media
  | publisher (track : String) (name : Option String)
  | write (on : String) (timestamp : Nat) (keyframe : Bool) (chunks : List Bytes)
  | groupReader (group : String) (name : Option String)
  | player (track : String) (latency : Span) (name : Option String)
  | setLatency (on : String) (latency : Span)
  | closer (on : String) (name : Option String)
  /-- Reads from a player; if the read has to wait, the player is closed and the read goes on. -/
  | readThenClose (on : String)

/-- What a participant is told. -/
inductive Answer where
  | done
  | flag (b : Bool)
  | pending
  | failed (e : TransportError)
  | mediaFailed (e : MediaError)
  /-- A number leaves its machine word: the sequence number after the last, or a count of bytes. The
      session ends. -/
  | exhausted
  | unknownHandle (name : String)
  /-- The step is not one for this kind of handle. -/
  | wrongKind
  | track (info : Option TrackInfo)
  | player (info : TrackInfo) (latency : Span)
  | sequence (n : Option Nat)
  | size (n : Option Nat)
  | bytes (bs : Option Bytes)
  | frame (f : Option MediaFrame)
  | orderedFrame (f : Option OrderedFrame)
  | latency (d : Span)
  | header (h : GroupHeader)
  /-- The chunks that could be read, and the answer behind them. -/
  | chunks (data : Bytes) (last : Answer)
  /-- The answer after a wait that was cut short. -/
  | waited (last : Answer)
  /-- The answer of a stream that is still under way or has stopped, with the sink of a sender. -/
  | stream (answer : Answer) (stopped : Bool) (sink : Option Sink)

namespace Answer

/-- The answer for an attempt of the transport. -/
def ofAttempt {α : Type} (value : α → Answer) : Attempt TransportError α → Answer
  | .ok a => value a
  | .error (.failed e) => failed e
  | .error .pending => pending

/-- The answer for an attempt at reading media. -/
def ofMediaAttempt {α : Type} (value : α → Answer) : Attempt MediaError α → Answer
  | .ok a => value a
  | .error (.failed e) => mediaFailed e
  | .error .pending => pending

end Answer

end LiveMedia.Session
