import LiveMedia.Time.Span
import LiveMedia.Transfer.Receiving

/-!
# Deliveries

A delivery carries one group from its source to the track behind the network: a sender writes the group
stream into a pipe and a receiver reads it out on the other side. The pipe ends with the sender, whether
the sender was done or gave up; a sender whose receiver is gone meets a broken pipe.
-/

namespace LiveMedia.Simulation

open LiveMedia.Wire LiveMedia.Time LiveMedia.Message LiveMedia.Live LiveMedia.Stream
open LiveMedia.Transfer

structure Delivery where
  /-- The instant from which the group is under way. -/
  due : Span
  /-- The sender, until it stops. -/
  sender : Option Sending
  /-- The receiver, until it stops. -/
  receiver : Option Receiving
  /-- The receiver's end of the pipe. -/
  reader : Reader
deriving DecidableEq, Repr

namespace Delivery

/-- The header of a group stream, for a track of the given priority. -/
def header (sequence : Nat) (priority : UInt8) : GroupHeader :=
  ⟨⟨false, false, false, false⟩, 0, sequence, 0, priority⟩

/-- A delivery that has not begun. -/
def start (due : Span) (group : GroupCursor) (destination : TrackWriter) : Delivery :=
  ⟨due, some (.start (header group.sequence destination.info.priority) group), some .opening,
    .ofSource []⟩

def isDone (d : Delivery) : Bool := d.sender.isNone && d.receiver.isNone

/-- What the sender writes into; nothing can be written once the receiver is gone. -/
def sink (d : Delivery) : Sink :=
  match d.receiver with
  | some _ => .unlimited
  | none => { Sink.unlimited with failAfter := some 0 }

/-- Bytes as they arrive at the other end of the pipe. -/
def arrivals (written : Bytes) (last : Arrival) : Source :=
  if written = [] then [last] else [.data written, last]

/-- Lets the sender go on and puts what it writes into the pipe. -/
def send (store : Store) (held : Holdings) (d : Delivery) : Delivery :=
  match d.sender with
  | none => d
  | some s => match s.poll store held d.sink with
    | (.stop _, sink) =>
      { d with sender := none, reader := d.reader.feed (arrivals sink.written .finish) }
    | (.wait next, sink) | (.go next, sink) =>
      { d with sender := some next, reader := d.reader.feed (arrivals sink.written .wait) }

/-- Lets the receiver go on with what is in the pipe. -/
def receive (destination : TrackWriter) (store : Store) (d : Delivery) : Delivery × Store :=
  match d.receiver with
  | none => (d, store)
  | some r => match r.poll destination store d.reader with
    | (.stop _, store, reader) => ({ d with receiver := none, reader }, store)
    | (.wait next, store, reader) | (.go next, store, reader) =>
      ({ d with receiver := some next, reader }, store)

/-- Lets both ends go on, the sender first. -/
def poll (destination : TrackWriter) (store : Store) (held : Holdings) (d : Delivery) :
    Delivery × Store :=
  (d.send store held).receive destination store

/-- What a delivery holds, the track it delivers to apart. -/
def holdings (d : Delivery) : Holdings :=
  (d.sender.toList.map fun s => .groupCursor s.cursor.group) ++
    (d.receiver.toList.flatMap Receiving.holdings)

end Delivery

end LiveMedia.Simulation
