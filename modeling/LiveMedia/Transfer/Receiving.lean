import LiveMedia.Stream.Reader
import LiveMedia.Transfer.Sending

/-!
# Receiving a group

A receiver reads the header of a group stream, creates the group on its track and fills it with a frame
for each object. Whatever goes wrong behind the header aborts that group and no other, and the header
is still the answer. Without the end flag a stream that ends before the last object is taken for one
whose publisher went away.
-/

namespace LiveMedia.Transfer

open LiveMedia.Wire LiveMedia.Message LiveMedia.Live LiveMedia.Stream

/-- What a receiver reads next. -/
inductive ReceivePhase where
  | object
  | extensionLength
  | extension (left : Nat)
  | size
  | status
  | payload (frame : FrameWriter) (left : Nat)
  /-- Nothing may follow the last object. -/
  | final
deriving DecidableEq, Repr

/-- A group on its way from a source. -/
inductive Receiving where
  | opening
  | body (header : GroupHeader) (group : GroupWriter) (phase : ReceivePhase)
deriving DecidableEq, Repr

namespace Receiving

/-- Where a step leads, with the store and the reader behind it. -/
abbrev Outcome := Turn Receiving GroupHeader × Store × Reader

/-- The group is complete. -/
def complete (store : Store) (header : GroupHeader) (group : GroupWriter) (reader : Reader) :
    Outcome :=
  match store.closeGroup group with
  | .ok store => (.stop (.ok header), store, reader)
  | .error e => (.stop (.error e), store, reader)

/-- The group is aborted. -/
def giveUp (store : Store) (header : GroupHeader) (group : GroupWriter) (reader : Reader)
    (e : TransportError) : Outcome :=
  (.stop (.ok header), store.abortGroup e group, reader)

/-- Goes on after a read, waits, or gives the group up. -/
def proceed {α : Type} (store : Store) (header : GroupHeader) (group : GroupWriter)
    (phase : ReceivePhase) (answer : Attempt TransportError α × Reader)
    (next : α → Reader → Outcome) : Outcome :=
  match answer with
  | (.ok a, reader) => next a reader
  | (.error .pending, reader) => (.wait (.body header group phase), store, reader)
  | (.error (.failed e), reader) => giveUp store header group reader e

/-- Gives up a frame and its group. -/
def giveUpFrame (store : Store) (header : GroupHeader) (group : GroupWriter) (frame : FrameWriter)
    (reader : Reader) (e : TransportError) : Outcome :=
  giveUp (store.abortFrame e frame) header group reader e

/-- One step inside a group. -/
def stepBody (store : Store) (header : GroupHeader) (group : GroupWriter) (reader : Reader)
    (phase : ReceivePhase) : Outcome :=
  let go (store : Store) (phase : ReceivePhase) (reader : Reader) : Outcome :=
    (.go (.body header group phase), store, reader)
  match phase with
  | .object =>
    proceed store header group phase (reader.decodeMaybe decodeCompact) fun delta reader =>
      match delta with
      | some _ =>
        go store (if header.flags.hasExtensions then .extensionLength else .size) reader
      | none =>
        if header.flags.hasEnd then complete store header group reader
        else giveUp store header group reader .dropped
  | .extensionLength =>
    proceed store header group phase (reader.decode decodeCompact) fun n reader =>
      go store (.extension n) reader
  | .extension left =>
    match reader.skip left with
    | (.ok (), _, reader) => go store .size reader
    | (.error .pending, left, reader) =>
      (.wait (.body header group (.extension left)), store, reader)
    | (.error (.failed e), _, reader) => giveUp store header group reader e
  | .size =>
    proceed store header group phase (reader.decode decodeCompact) fun size reader =>
      if size = 0 then go store .status reader
      else match store.createFrame group size with
        | .ok (frame, store) => go store (.payload frame size) reader
        | .error e => giveUp store header group reader e
  | .status =>
    proceed store header group phase (reader.decode decodeCompact) fun status reader =>
      if status = statusNormal then
        match store.writeFrame group [] with
        | .ok store => go store .object reader
        | .error e => giveUp store header group reader e
      else if status = statusEndOfGroup ∧ header.flags.hasEnd = false then go store .final reader
      else giveUp store header group reader .unsupported
  | .payload frame left =>
    if left = 0 then
      match store.closeFrame frame with
      | .ok store => go store .object reader
      | .error e => giveUpFrame store header group frame reader e
    else match reader.read left with
      | (.ok (some chunk), reader) => match store.writeChunk frame chunk with
        | .ok store => go store (.payload frame (left - chunk.length)) reader
        | .error e => giveUpFrame store header group frame reader e
      | (.ok none, reader) => giveUpFrame store header group frame reader .wrongSize
      | (.error .pending, reader) => (.wait (.body header group phase), store, reader)
      | (.error (.failed e), reader) => giveUpFrame store header group frame reader e
  | .final =>
    proceed store header group phase reader.closed fun _ reader =>
      complete store header group reader

/-- One step: read the next item of the stream and act on it. -/
def step (track : TrackWriter) (store : Store) (reader : Reader) : Receiving → Outcome
  | .opening => match reader.decode GroupHeader.decode with
    | (.ok header, reader) => match store.createGroup track header.groupId with
      | .ok (group, store) => (.go (.body header group .object), store, reader)
      | .error e => (.stop (.error e), store, reader)
    | (.error .pending, reader) => (.wait .opening, store, reader)
    | (.error (.failed e), reader) => (.stop (.error e), store, reader)
  | .body header group phase => stepBody store header group reader phase

/-- Steps until the receiver has to wait or stops, at most `fuel` of them. -/
def run (track : TrackWriter) : Nat → Store → Reader → Receiving → Outcome
  | 0, store, reader, s => (.wait s, store, reader)
  | fuel + 1, store, reader, s => match s.step track store reader with
    | (.go next, store, reader) => run track fuel store reader next
    | (.wait next, store, reader) => (.wait next, store, reader)
    | (.stop result, store, reader) => (.stop result, store, reader)

/-- Goes on until the receiver has to wait or stops. Of two steps in a row at least one consumes a
byte, so twice the number of bytes is enough of them. -/
def poll (track : TrackWriter) (store : Store) (reader : Reader) (s : Receiving) : Outcome :=
  run track (2 * (reader.buffer.length + reader.source.volume) + 4) store reader s

/-- What a receiver holds, its track apart. -/
def holdings : Receiving → Holdings
  | .opening => []
  | .body _ group (.payload frame _) => [.groupWriter group.group, .frameWriter frame.frame]
  | .body _ group _ => [.groupWriter group.group]

end Receiving

end LiveMedia.Transfer
