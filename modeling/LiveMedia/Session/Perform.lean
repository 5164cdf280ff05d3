import LiveMedia.Session.Step

/-!
# Performing steps

Each step looks up its handles, acts on the store through them and keeps what comes out. Tasks of
players run before every step, until all of them wait.
-/

namespace LiveMedia.Session

open LiveMedia.Wire LiveMedia.Time LiveMedia.Message LiveMedia.Live LiveMedia.Playback
open LiveMedia.Stream LiveMedia.Transfer

/-- Acts on the handle of a name. -/
def withHandle (s : Session) (name : String) (act : Handle → Answer × Session) : Answer × Session :=
  match s.find? name with
  | some h => act h
  | none => (.unknownHandle name, s)

/-- The session after an operation on the store that succeeds or changes nothing. -/
def commit (s : Session) : Except TransportError Store → Answer × Session
  | .ok store => (.done, { s with store })
  | .error e => (.failed e, s)

/-- The session after an operation that also makes a handle. -/
def commitWith {α : Type} (s : Session) (name : Option String) (answer : α → Answer)
    (handle : α → Handle) : Except TransportError (α × Store) → Answer × Session
  | .ok (a, store) => (answer a, { s with store }.keepAs name (handle a))
  | .error e => (.failed e, s)

/-- The session after a read that may give a new handle. The cursor that was read stays in place. -/
def receiveWith {α : Type} (s : Session) (on : String) (cursor : Handle) (name : Option String)
    (answer : Option α → Answer) (handle : α → Handle) (attempt : Attempt TransportError (Option α)) :
    Answer × Session :=
  let s := s.update on cursor
  match attempt with
  | .ok (some a) => (answer (some a), s.keepAs name (handle a))
  | attempt => (Answer.ofAttempt answer attempt, s)

-- ── any handle ──────────────────────────────────────────────────────

/-- Handles that can be copied. -/
def isCopyable : Handle → Bool
  | .frameWriter _ | .frameCursor _ | .groupWriter _ | .groupCursor _ | .trackWriter _
  | .trackCursor _ | .broadcastWriter _ | .broadcastReader _ | .closer _ => true
  | _ => false

/-- A cursor or a writer is copied under a new name. -/
def performClone (s : Session) (h : Handle) (name : Option String) : Answer × Session :=
  if isCopyable h then (.done, s.keepAs name h) else (.wrongKind, s)

/-- What a handle says about the object behind it. -/
def describe : Handle → Answer
  | .frameWriter w => .size (some w.size)
  | .frameCursor c => .size (some c.size)
  | .groupWriter w => .sequence (some w.sequence)
  | .groupCursor c => .sequence (some c.sequence)
  | .groupReader r => .sequence (some r.cursor.sequence)
  | .trackWriter w => .track (some w.info)
  | .trackCursor c => .track (some c.info)
  | .publisher p => .track (some p.track.info)
  | .player _ p => .player p.info p.schedule.latency
  | _ => .wrongKind

/-- A new reader of what the handle writes. -/
def performCursor (s : Session) (h : Handle) (name : Option String) : Answer × Session :=
  match h with
  | .frameWriter w => (.done, s.keepAs name (.frameCursor w.cursor))
  | .groupWriter w => (.done, s.keepAs name (.groupCursor w.cursor))
  | .trackWriter w => (.done, s.keepAs name (.trackCursor w.cursor))
  | .publisher p => (.done, s.keepAs name (.trackCursor p.track.cursor))
  | .broadcastWriter b => (.done, s.keepAs name (.broadcastReader b))
  | _ => (.wrongKind, s)

/-- Two writers, or two readers, of one track. -/
def sameTrack : Handle → Handle → Answer
  | .trackWriter a, .trackWriter b => .flag (a.track == b.track)
  | .trackCursor a, .trackCursor b => .flag (a.track == b.track)
  | _, _ => .wrongKind

def performClose (s : Session) (on : String) (h : Handle) : Answer × Session :=
  match h with
  | .frameWriter w => s.commit (s.store.closeFrame w)
  | .groupWriter w => s.commit (s.store.closeGroup w)
  | .trackWriter w => s.commit (s.store.closeTrack w)
  | .publisher p =>
    let (result, p, store) := p.close s.store
    let s := { s with store }.update on (.publisher p)
    match result with
    | .ok () => (.done, s)
    | .error e => (.mediaFailed e, s)
  | .player n p => (.done, s.update on (.player n p.close))
  | .closer n => (.done, s.stopPlayer n)
  | _ => (.wrongKind, s)

def performAbort (s : Session) (h : Handle) (e : TransportError) : Answer × Session :=
  match h with
  | .frameWriter w => (.done, { s with store := s.store.abortFrame e w })
  | .groupWriter w => (.done, { s with store := s.store.abortGroup e w })
  | .trackWriter w => (.done, { s with store := s.store.abortTrack e w })
  | .publisher p => (.done, { s with store := s.store.abortTrack e p.track })
  | _ => (.wrongKind, s)

/-- How the object behind a handle has ended. -/
def outcome (s : Session) : Handle → Answer
  | .frameCursor c => .ofAttempt (fun _ => .done) (s.store.frameOutcome s.holdings c)
  | .groupCursor c => .ofAttempt (fun _ => .done) (s.store.groupOutcome s.holdings c)
  | .groupReader r => .ofAttempt (fun _ => .done) (s.store.groupOutcome s.holdings r.cursor)
  | .trackCursor c => .ofAttempt (fun _ => .done) (s.store.trackOutcome s.holdings c)
  | _ => .wrongKind

-- ── broadcasts and tracks ───────────────────────────────────────────

def performInsertTrack (s : Session) : Handle → Handle → Answer × Session
  | .broadcastWriter b, .trackCursor c =>
    let (replaced, store) := s.store.insertTrack b c
    (.flag replaced, { s with store })
  | _, _ => (.wrongKind, s)

def performRemoveTrack (s : Session) (h : Handle) (trackName : String) (name : Option String) :
    Answer × Session :=
  match h with
  | .broadcastWriter b => match s.store.removeTrack b trackName with
    | (some c, store) => (.track (some c.info), { s with store }.keepAs name (.trackCursor c))
    | (none, store) => (.track none, { s with store })
  | _ => (.wrongKind, s)

def performSubscribe (s : Session) (h : Handle) (info : TrackInfo) (name : Option String) :
    Answer × Session :=
  match h with
  | .broadcastReader b =>
    let (c, store) := s.store.subscribe b info
    (.track (some c.info), { s with store }.keepAs name (.trackCursor c))
  | _ => (.wrongKind, s)

def performCreateTrack (s : Session) (h : Handle) (info : TrackInfo) (name : Option String) :
    Answer × Session :=
  match h with
  | .broadcastWriter b =>
    let (w, store) := s.store.createTrack b info
    (.done, { s with store }.keepAs name (.trackWriter w))
  | _ => (.wrongKind, s)

/-- The writer of the track that a handle writes. -/
def trackOf? : Handle → Option TrackWriter
  | .trackWriter w => some w
  | .publisher p => some p.track
  | _ => none

def keepGroup (s : Session) (name : Option String) :
    Except TransportError (GroupWriter × Store) → Answer × Session :=
  s.commitWith name (fun g => .sequence (some g.sequence)) .groupWriter

def performCreateGroup (s : Session) (h : Handle) (sequence : Nat) (name : Option String) :
    Answer × Session :=
  match trackOf? h with
  | some w => s.keepGroup name (s.store.createGroup w sequence)
  | none => (.wrongKind, s)

def performAppendGroup (s : Session) (h : Handle) (name : Option String) : Answer × Session :=
  match trackOf? h with
  | some w => match s.store.appendGroup? w with
    | some result => s.keepGroup name result
    | none => (.exhausted, s)
  | none => (.wrongKind, s)

def performNextGroup (s : Session) (on : String) (h : Handle) (name : Option String) :
    Answer × Session :=
  match h with
  | .trackCursor c =>
    let (attempt, c) := s.store.nextGroup s.holdings c
    s.receiveWith on (.trackCursor c) name (fun g => .sequence (g.map GroupCursor.sequence))
      .groupCursor attempt
  | _ => (.wrongKind, s)

-- ── groups and frames ───────────────────────────────────────────────

def performCreateFrame (s : Session) (h : Handle) (size : Nat) (name : Option String) :
    Answer × Session :=
  match h with
  | .groupWriter g =>
    s.commitWith name (fun w => .size (some w.size)) .frameWriter (s.store.createFrame g size)
  | _ => (.wrongKind, s)

def performAppendFrame (s : Session) (stated : Option Nat) : Handle → Handle → Answer × Session
  | .groupWriter g, .frameWriter w =>
    s.commit (s.store.appendFrame g { w with size := stated.getD w.size })
  | _, _ => (.wrongKind, s)

/-- A group of one frame at the end of a track, or one frame at the end of a group. -/
def performWriteFrame (s : Session) (h : Handle) (payload : Bytes) : Answer × Session :=
  match h with
  | .groupWriter g => s.commit (s.store.writeFrame g [payload])
  | .trackWriter w => match s.store.appendGroup? w with
    | none => (.exhausted, s)
    | some result => s.commit do
      let (g, store) ← result
      let store ← store.writeFrame g [payload]
      store.closeGroup g
  | _ => (.wrongKind, s)

def performReadFrame (s : Session) (on : String) (h : Handle) : Answer × Session :=
  match h with
  | .groupCursor c =>
    let (attempt, c) := s.store.readFrame s.holdings c
    (.ofAttempt .bytes attempt, s.update on (.groupCursor c))
  | .groupReader r =>
    let (attempt, r) := r.readFrame s.store s.holdings
    (.ofMediaAttempt .frame attempt, s.update on (.groupReader r))
  | .player n p =>
    let (attempt, p) := p.readFrame
    (.ofMediaAttempt .orderedFrame attempt, s.update on (.player n p))
  | _ => (.wrongKind, s)

def performNextFrame (s : Session) (on : String) (h : Handle) (name : Option String) :
    Answer × Session :=
  match h with
  | .groupCursor c =>
    let (attempt, c) := s.store.nextFrame s.holdings c
    s.receiveWith on (.groupCursor c) name (fun f => .size (f.map FrameCursor.size)) .frameCursor
      attempt
  | _ => (.wrongKind, s)

/-- Reads chunks until there is none, at most `fuel` of them. -/
def takeChunks (store : Store) (held : Holdings) :
    Nat → FrameCursor → Bytes × Attempt TransportError (Option Bytes) × FrameCursor
  | 0, c => ([], .pending, c)
  | fuel + 1, c => match store.readChunk held c with
    | (.ok (some chunk), c) =>
      let (data, last, c) := takeChunks store held fuel c
      (chunk ++ data, last, c)
    | (attempt, c) => ([], attempt, c)

/-- Reading what is there of a frame: one chunk, all chunks so far, or the whole rest. -/
def performReadChunk (s : Session) (on : String) : Handle → Answer × Session
  | .frameCursor c =>
    let (attempt, c) := s.store.readChunk s.holdings c
    (.ofAttempt .bytes attempt, s.update on (.frameCursor c))
  | _ => (.wrongKind, s)

def performReadChunks (s : Session) (on : String) : Handle → Answer × Session
  | .frameCursor c =>
    let fuel := (s.store.frame c.frame).chunks.length + 1
    let (data, last, c) := takeChunks s.store s.holdings fuel c
    (.chunks data (.ofAttempt .bytes last), s.update on (.frameCursor c))
  | _ => (.wrongKind, s)

def performReadAll (s : Session) (on : String) : Handle → Answer × Session
  | .frameCursor c =>
    let (attempt, c) := s.store.readAll s.holdings c
    (.ofAttempt (fun bs => .bytes (some bs)) attempt, s.update on (.frameCursor c))
  | _ => (.wrongKind, s)

-- ── streams ─────────────────────────────────────────────────────────

/-- Goes on with a sender; it is kept under the name while it has to wait. -/
def continueSending (s : Session) (name : Option String) (sending : Sending) (sink : Sink) :
    Answer × Session :=
  let held := (Handle.sending sending sink).holdings ++ s.holdings
  match sending.poll s.store held sink with
  | (.stop result, sink) =>
    let answer := match result with
      | .ok () => .done
      | .error e => .failed e
    (.stream answer true (some sink), s)
  | (.go next, sink) | (.wait next, sink) =>
    (.stream .pending false (some sink), s.keepAs name (.sending next sink))

/-- Goes on with a receiver; it is kept under the name while it has to wait. -/
def continueReceiving (s : Session) (name : Option String) (track : TrackWriter)
    (receiving : Receiving) (reader : Reader) : Answer × Session :=
  match receiving.poll track s.store reader with
  | (.stop result, store, _) =>
    let answer := match result with
      | .ok header => .header header
      | .error e => .failed e
    (.stream answer true none, { s with store })
  | (.go next, store, reader) | (.wait next, store, reader) =>
    (.stream .pending false none,
      { s with store }.keepAs name (.receiving track next reader))

/-- Goes on with a transfer that was waiting. -/
def performPoll (s : Session) (on : String) (allow : Option (Option Nat)) (more : Source) :
    Handle → Answer × Session
  | .sending sending sink =>
    let sink := match allow with
      | some limit => sink.allow limit
      | none => sink
    (s.drop on).continueSending (some on) sending sink
  | .receiving track receiving reader =>
    (s.drop on).continueReceiving (some on) track receiving (reader.feed more)
  | _ => (.wrongKind, s)

-- ── media ───────────────────────────────────────────────────────────

/-- Writes a media frame through a publisher, or straight into a group. -/
def performWrite (s : Session) (on : String) (h : Handle) (timestamp : Nat) (keyframe : Bool)
    (chunks : List Bytes) : Answer × Session :=
  match Timescale.ofTicks timestamp with
  | .error _ => (.mediaFailed .timestampOverflow, s)
  | .ok timestamp =>
    let f := MediaFrame.ofChunks timestamp keyframe chunks
    match h with
    | .publisher p => match p.writeCounted? s.store f with
      | none => (.exhausted, s)
      | some (result, p, store) =>
        let s := { s with store }.update on (.publisher p)
        match result with
        | .ok () => (.done, s)
        | .error e => (.mediaFailed e, s)
    | .groupWriter g =>
      if f.isCountable then match Publisher.writeTo s.store g f with
        | .ok store => (.done, { s with store })
        | .error e => (.mediaFailed e, s)
      else (.exhausted, s)
    | _ => (.wrongKind, s)

def performReadThenClose (s : Session) (on : String) : Handle → Answer × Session
  | .player n p =>
    let (attempt, p) := p.readFrame
    if attempt.isPending then
      let (attempt, p) := p.stop.readFrame
      (.waited (.ofMediaAttempt .orderedFrame attempt), s.update on (.player n p))
    else (.ofMediaAttempt .orderedFrame attempt, s.update on (.player n p))
  | _ => (.wrongKind, s)

-- ── all steps ───────────────────────────────────────────────────────

/-- Performs one step on a session whose tasks all wait. The name of a new sender or receiver is vacated
before it first runs, so what had the name is gone even if the task ends at once. -/
def perform (s : Session) : Step → Answer × Session
  | .clone of name => s.withHandle of fun h => s.performClone h name
  | .drop on => s.withHandle on fun _ => (.done, s.drop on)
  | .info on => s.withHandle on fun h => (describe h, s)
  | .cursor of name => s.withHandle of fun h => s.performCursor h name
  | .sameTrack on other => s.withHandle on fun a => s.withHandle other fun b => (sameTrack a b, s)
  | .close on => s.withHandle on (s.performClose on)
  | .abort on e => s.withHandle on fun h => s.performAbort h e
  | .outcome on => s.withHandle on fun h => (s.outcome h, s)
  | .newBroadcast name =>
    let (b, store) := s.store.newBroadcast
    (.done, { s with store }.keepAs name (.broadcastWriter b))
  | .createTrack on info name => s.withHandle on fun h => s.performCreateTrack h info name
  | .insertTrack on track =>
    s.withHandle on fun a => s.withHandle track fun b => s.performInsertTrack a b
  | .removeTrack on trackName name =>
    s.withHandle on fun h => s.performRemoveTrack h trackName name
  | .subscribe on info name => s.withHandle on fun h => s.performSubscribe h info name
  | .newTrack info name reader =>
    let (w, store) := s.store.newTrack info
    (.done, ({ s with store }.keepAs name (.trackWriter w)).keepAs reader (.trackCursor w.cursor))
  | .createGroup on sequence name => s.withHandle on fun h => s.performCreateGroup h sequence name
  | .appendGroup on name => s.withHandle on fun h => s.performAppendGroup h name
  | .nextGroup on name => s.withHandle on fun h => s.performNextGroup on h name
  | .newGroup sequence name reader =>
    let (w, store) := s.store.newGroup sequence
    (.done, ({ s with store }.keepAs name (.groupWriter w)).keepAs reader (.groupCursor w.cursor))
  | .createFrame on size name => s.withHandle on fun h => s.performCreateFrame h size name
  | .appendFrame on frame stated =>
    s.withHandle on fun a => s.withHandle frame fun b => s.performAppendFrame stated a b
  | .writeFrame on payload => s.withHandle on fun h => s.performWriteFrame h payload
  | .readFrame on => s.withHandle on (s.performReadFrame on)
  | .nextFrame on name => s.withHandle on fun h => s.performNextFrame on h name
  | .newFrame size name reader =>
    let (w, store) := s.store.newFrame size
    (.done, ({ s with store }.keepAs name (.frameWriter w)).keepAs reader (.frameCursor w.cursor))
  | .writeChunk on chunk => s.withHandle on fun
    | .frameWriter w => match s.store.writeChunk? w chunk with
      | none => (.exhausted, s)
      | some result => s.commit result
    | _ => (.wrongKind, s)
  | .readChunk on => s.withHandle on (s.performReadChunk on)
  | .readChunks on => s.withHandle on (s.performReadChunks on)
  | .readAll on => s.withHandle on (s.performReadAll on)
  | .sendGroup group header sink name => s.withHandle group fun
    | .groupCursor c =>
      ((s.drop group).vacate name).continueSending name (.start header c) sink
    | _ => (.wrongKind, s)
  | .receiveGroup track source name => s.withHandle track fun
    | .trackWriter w => (s.vacate name).continueReceiving name w .opening (.ofSource source)
    | _ => (.wrongKind, s)
  | .poll on allow more => s.withHandle on (s.performPoll on allow more)
  | .publisher track name => s.withHandle track fun
    | .trackWriter w => (.done, (s.drop track).keepAs name (.publisher (.start w)))
    | _ => (.wrongKind, s)
  | .write on timestamp keyframe chunks =>
    s.withHandle on fun h => s.performWrite on h timestamp keyframe chunks
  | .groupReader group name => s.withHandle group fun
    | .groupCursor c => (.done, (s.drop group).keepAs name (.groupReader (.start c)))
    | _ => (.wrongKind, s)
  | .player track latency name => s.withHandle track fun
    | .trackCursor c =>
      (.done, { s.drop track with players := s.players + 1 }.keepAs name
        (.player s.players (.start c latency)))
    | _ => (.wrongKind, s)
  | .setLatency on latency => s.withHandle on fun
    | .player n p => (.latency latency, s.update on (.player n (p.setLatency latency)))
    | _ => (.wrongKind, s)
  | .closer on name => s.withHandle on fun
    | .player n _ => (.done, s.keepAs name (.closer n))
    | _ => (.wrongKind, s)
  | .readThenClose on => s.withHandle on (s.performReadThenClose on)

/-- Lets all tasks run and performs a step. -/
def act (s : Session) (step : Step) : Answer × Session := s.settle.perform step

/-- Performs steps in turn and gives their answers. Nothing is done after a number has left its machine
word. -/
def run (s : Session) : List Step → List Answer × Session
  | [] => ([], s)
  | step :: steps =>
    match s.act step with
    | (.exhausted, s) => ([.exhausted], s)
    | (answer, s) =>
      let (answers, s) := s.run steps
      (answer :: answers, s)

end LiveMedia.Session
