import LiveMedia.Request.Allocation
import LiveMedia.Stream.Reader
import LiveMedia.Stream.Sink

/-!
# The control channel

Messages are encoded at once and queued; a drain writes the queue to a stream. Requests take their
numbers from the allocation and wait in the channel while there is none. A raised limit wakes all that
wait, and each tries again when it is polled. When the queue has lost its receiving end, waiting is
over: such a request is cancelled.
-/

namespace LiveMedia.Request

open LiveMedia.Wire LiveMedia.Message LiveMedia.Stream

/-- The outbound half of a control stream. -/
structure Channel where
  allocation : Allocation
  /-- Encoded messages, oldest first. -/
  queue : List Bytes
  /-- The queue still has its receiving end. -/
  isOpen : Bool
  /-- The requests that wait, by name; the flag says that the limit was raised since. -/
  waiting : List (String × Bool)
deriving DecidableEq, Repr

namespace Channel

def start (client : Bool) (limit : RequestId) : Channel :=
  ⟨Allocation.start client limit, [], true, []⟩

-- ── the queue ───────────────────────────────────────────────────────

/-- Queues an encoded message. -/
def push (c : Channel) (bs : Bytes) : Except TransportError Channel :=
  if c.isOpen then .ok { c with queue := c.queue ++ [bs] } else .error .closed

def send (c : Channel) (m : ControlMessage) : Except TransportError Channel :=
  match m.encode with
  | .ok bs => c.push bs
  | .error e => .error (.encode e)

/-- Takes everything that is queued. -/
def takeAll (c : Channel) : List Bytes × Channel := (c.queue, { c with queue := [] })

/-- The queue loses its receiving end and what is in it. -/
def hangUp (c : Channel) : Channel := { c with queue := [], isOpen := false }

-- ── requests ────────────────────────────────────────────────────────

/-- A request that found no number: it waits as long as the queue is open. -/
def wait (c : Channel) : Attempt TransportError RequestId × Channel :=
  (if c.isOpen then .pending else .failure .cancel, c)

/-- Tries to take the next number. The first request that finds none below a limit tells the peer; if
that fails, so does the request, and no other tells it again. -/
def request (c : Channel) : Attempt TransportError RequestId × Channel :=
  match c.allocation.take? with
  | some (id, allocation) => (.ok id, { c with allocation })
  | none =>
    if c.allocation.blocked then c.wait
    else
      let c := { c with allocation := { c.allocation with blocked := true } }
      match c.send (.requestsBlocked ⟨c.allocation.limit⟩) with
      | .ok c => c.wait
      | .error e => (.failure e, c)

/-- Forgets a waiting request. -/
def forget (c : Channel) (name : String) : Channel :=
  { c with waiting := c.waiting.filter fun w => w.1 != name }

/-- Keeps a request under the name, in place of the one that waited there. -/
def keep (c : Channel) (name : String) : Channel :=
  { c with waiting := (c.forget name).waiting ++ [(name, false)] }

/-- Makes a request; one that has to wait is kept under the name. One that is answered at once leaves
the request that waits there alone. -/
def begin (c : Channel) (name : String) : Attempt TransportError RequestId × Channel :=
  let (attempt, c) := c.request
  (attempt, if attempt.isPending then c.keep name else c)

/-- Polls a waiting request again, if there is one of the name. Once answered it waits no more. A request
that was woken tries again; if the queue is closed by then, it may as well find that first and be
cancelled, and is then one that is forgotten. -/
def poll? (c : Channel) (name : String) : Option (Attempt TransportError RequestId × Channel) :=
  (c.waiting.find? fun w => w.1 == name).map fun w =>
    if w.2 then (c.forget name).begin name
    else
      let (attempt, c) := c.wait
      (attempt, if attempt.isPending then c else c.forget name)

/-- A limit granted by the peer; a higher one wakes all waiting requests. -/
def grant (c : Channel) (limit : RequestId) : Channel :=
  match c.allocation.raise limit with
  | (true, allocation) => { c with allocation, waiting := c.waiting.map fun w => (w.1, true) }
  | (false, _) => c

-- ── the peer's messages ─────────────────────────────────────────────

/-- Applies what a message says about this end. -/
def apply (c : Channel) : ControlMessage → Channel
  | .maxRequestId m => c.grant m.requestId
  | _ => c

/-- Reads envelopes until one holds a known message. -/
def receiveWithin (c : Channel) :
    Nat → Reader → Attempt TransportError (Option ControlMessage) × Channel × Reader
  | 0, r => (.pending, c, r)
  | fuel + 1, r => match r.decodeMaybe Envelope.decode with
    | (.ok none, r) => (.ok none, c, r)
    | (.ok (some e), r) => match e.parse with
      | .ok m => (.ok (some m), c.apply m, r)
      | .error _ => c.receiveWithin fuel r
    | (.error h, r) => (.error h, c, r)

/-- The next known message, or `none` at the end of the stream; others are passed over. Every envelope
takes bytes, so there are fewer of them than bytes. -/
def receive (c : Channel) (r : Reader) :
    Attempt TransportError (Option ControlMessage) × Channel × Reader :=
  c.receiveWithin (r.buffer.length + r.source.volume + 1) r

-- ── draining ────────────────────────────────────────────────────────

/-- Writes messages to a stream; comes with what was not written. -/
def writeAll (sink : Sink) : List Bytes → WriteResult × List Bytes × Sink
  | [] => (.complete, [], sink)
  | m :: rest => match sink.write m with
    | (.complete, sink) => writeAll sink rest
    | (.blocked left, sink) => (.blocked left, left :: rest, sink)
    | (.failed e, sink) => (.failed e, rest, sink)

/-- Writes the queue to a stream. The drain ends, and finishes the stream, when nobody can queue any
more; it fails with the stream. Either way the queue then loses its receiving end. -/
def drain (c : Channel) (isHeld : Bool) (sink : Sink) :
    Attempt TransportError Unit × Channel × Sink :=
  match writeAll sink c.queue with
  | (.complete, _, sink) =>
    if isHeld then (.pending, { c with queue := [] }, sink)
    else
      let (result, sink) := sink.finish
      (.ofExcept result, c.hangUp, sink)
  | (.blocked _, left, sink) => (.pending, { c with queue := left }, sink)
  | (.failed e, _, sink) => (.failure e, c.hangUp, sink)

end Channel

end LiveMedia.Request
