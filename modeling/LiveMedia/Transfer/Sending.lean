import LiveMedia.Live.Holding
import LiveMedia.Message.Group
import LiveMedia.Stream.Sink

/-!
# Sending a group

A group stream is a header and then one object for each frame: an ID delta, an extension block if the
header announces one, a size and the payload. An object of size zero has a status in place of a payload.
Without the end flag a last object of size zero and status 3 says that the group is complete.

A sender moves in steps. It first writes what is left unsent, then its phase says what comes next. A
sender that fails leaves the stream unfinished, so the peer cannot take it for a complete group, unless
all was written and only the end of the stream is refused.

When a stream has to wait before it can be ended, nothing changes until then. Such a sender takes its
last step later.
-/

namespace LiveMedia.Transfer

open LiveMedia.Wire LiveMedia.Message LiveMedia.Live LiveMedia.Stream

/-- What a step of a sender or receiver leads to. -/
inductive Turn (σ α : Type) where
  | go (next : σ)
  | wait (next : σ)
  | stop (result : Except TransportError α)

/-- The status of an empty frame. -/
def statusNormal : Nat := 0

/-- The status that ends a group. -/
def statusEndOfGroup : Nat := 3

/-- What stands before the size of every object: no gap in the IDs, and no extensions. -/
def objectOpening (header : GroupHeader) : Bytes :=
  Varint.encode ⟨0⟩ ++ if header.flags.hasExtensions then Varint.encode ⟨0⟩ else []

/-- What stands behind the last frame. -/
def groupEnding (header : GroupHeader) : Bytes :=
  if header.flags.hasEnd then []
  else objectOpening header ++ (Varint.encode ⟨0⟩ ++ Varint.encode ⟨statusEndOfGroup⟩)

/-- What a sender does once all is sent. -/
inductive SendPhase where
  | header
  | nextFrame
  | size (frame : FrameCursor)
  | payload (frame : FrameCursor) (left : Nat)
  | finish
deriving DecidableEq, Repr

/-- A group on its way to a sink. -/
structure Sending where
  header : GroupHeader
  cursor : GroupCursor
  /-- Bytes to be written before the phase goes on. -/
  unsent : Bytes
  phase : SendPhase
deriving DecidableEq, Repr

namespace Sending

/-- A sender that has written nothing. -/
def start (header : GroupHeader) (cursor : GroupCursor) : Sending := ⟨header, cursor, [], .header⟩

/-- One step: write what is unsent, or find out what to write next. -/
def step (store : Store) (held : Holdings) (s : Sending) (sink : Sink) :
    Turn Sending Unit × Sink :=
  if s.unsent ≠ [] then
    match sink.write s.unsent with
    | (.complete, sink) => (.go { s with unsent := [] }, sink)
    | (.blocked rest, sink) => (.wait { s with unsent := rest }, sink)
    | (.failed e, sink) => (.stop (.error e), sink)
  else match s.phase with
    | .header => match s.header.encode with
      | .ok bs => (.go { s with unsent := bs, phase := .nextFrame }, sink)
      | .error e => (.stop (.error (.encode e)), sink)
    | .nextFrame => match store.nextFrame held s.cursor with
      | (.ok (some frame), cursor) =>
        (.go { s with cursor, unsent := objectOpening s.header, phase := .size frame }, sink)
      | (.ok none, cursor) =>
        (.go { s with cursor, unsent := groupEnding s.header, phase := .finish }, sink)
      | (.error .pending, cursor) => (.wait { s with cursor }, sink)
      | (.error (.failed e), _) => (.stop (.error e), sink)
    | .size frame => match encodeCompact frame.size with
      | .ok bs =>
        if frame.size = 0 then
          (.go { s with unsent := bs ++ Varint.encode ⟨statusNormal⟩, phase := .nextFrame }, sink)
        else (.go { s with unsent := bs, phase := .payload frame frame.size }, sink)
      | .error e => (.stop (.error (.encode e)), sink)
    | .payload frame left => match store.readChunk held frame with
      | (.ok (some chunk), frame) =>
        if chunk.length ≤ left then
          (.go { s with unsent := chunk, phase := .payload frame (left - chunk.length) }, sink)
        else (.stop (.error .wrongSize), sink)
      | (.ok none, _) =>
        if left = 0 then (.go { s with phase := .nextFrame }, sink)
        else (.stop (.error .wrongSize), sink)
      | (.error .pending, _) => (.wait s, sink)
      | (.error (.failed e), _) => (.stop (.error e), sink)
    | .finish =>
      let (result, sink) := sink.finish
      (.stop result, sink)

/-- Steps until the sender has to wait or stops, at most `fuel` of them. -/
def run (store : Store) (held : Holdings) : Nat → Sending → Sink → Turn Sending Unit × Sink
  | 0, s, sink => (.wait s, sink)
  | fuel + 1, s, sink => match s.step store held sink with
    | (.go next, sink) => run store held fuel next sink
    | (.wait next, sink) => (.wait next, sink)
    | (.stop result, sink) => (.stop result, sink)

/-- The number of steps that a frame takes at most: two for each chunk and for what is around them. -/
def frameSteps (store : Store) (id : FrameId) : Nat := 2 * ((store.frame id).chunks.length + 3)

/-- More steps than the sender can take before it has to wait. -/
def steps (store : Store) (s : Sending) : Nat :=
  let begun := match s.phase with
    | .size frame => frameSteps store frame.frame
    | .payload frame _ => frameSteps store frame.frame
    | _ => 0
  let active := match s.cursor.active with
    | some frame => frameSteps store frame.frame
    | none => 0
  let rest := ((store.group s.cursor.group).frames.drop s.cursor.position).map
    fun w => frameSteps store w.frame
  begun + active + rest.foldl (· + ·) 0 + 8

/-- Goes on until the sender has to wait or stops. -/
def poll (store : Store) (held : Holdings) (s : Sending) (sink : Sink) :
    Turn Sending Unit × Sink :=
  run store held (s.steps store) s sink

end Sending

end LiveMedia.Transfer
