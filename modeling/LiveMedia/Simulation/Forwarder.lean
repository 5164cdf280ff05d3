import LiveMedia.Live.Holding
import LiveMedia.Simulation.Delivery

/-!
# Forwarding a track

A forwarder follows a source track and starts a delivery for every group of it. Deliveries are
independent of each other. Once the source has ended and all groups are delivered, the track behind the
network is closed.
-/

namespace LiveMedia.Simulation

open LiveMedia.Time LiveMedia.Live

structure Forwarder where
  /-- The reader of the source, until the source ends. -/
  source : Option TrackCursor
  destination : TrackWriter
  /-- The groups under way, in the order in which they were found. -/
  deliveries : List Delivery
  /-- The destination was closed. -/
  closed : Bool
deriving DecidableEq, Repr

namespace Forwarder

def start (source : TrackCursor) (destination : TrackWriter) : Forwarder :=
  ⟨some source, destination, [], false⟩

-- ── finding groups ──────────────────────────────────────────────────

/-- Starts a delivery for each new group of the source, at most `fuel` of them. -/
def acceptFrom (store : Store) (held : Holdings) (due : Nat → Span) :
    Nat → TrackCursor → Forwarder → Except TransportError Forwarder
  | 0, cursor, f => .ok { f with source := some cursor }
  | fuel + 1, cursor, f => match store.nextGroup held cursor with
    | (.ok (some group), cursor) =>
      acceptFrom store held due fuel cursor { f with
        deliveries := f.deliveries ++ [.start (due group.sequence) group f.destination] }
    | (.ok none, _) => .ok { f with source := none }
    | (.error .pending, cursor) => .ok { f with source := some cursor }
    | (.error (.failed e), _) => .error e

/-- Starts a delivery for each new group of the source. A track keeps as many groups as its window
holds, so it has no more new ones. -/
def accept (store : Store) (held : Holdings) (due : Nat → Span) (f : Forwarder) :
    Except TransportError Forwarder :=
  match f.source with
  | some cursor =>
    f.acceptFrom store held due ((store.track cursor.track).retained.length + 2) cursor
  | none => .ok f

-- ── delivering ──────────────────────────────────────────────────────

/-- What a forwarder holds. Each delivery holds the destination for itself. -/
def holdings (f : Forwarder) : Holdings :=
  (f.source.toList.map fun cursor => .trackCursor cursor.track) ++
    (if f.closed then [] else [.trackWriter f.destination.track]) ++
    f.deliveries.flatMap Delivery.holdings

/-- Lets the delivery at a place of the list go on. `others` is what everybody else holds. -/
def deliver (store : Store) (others : Holdings) (place : Nat) (f : Forwarder) :
    Forwarder × Store :=
  match f.deliveries[place]? with
  | none => (f, store)
  | some d =>
    let (d, store) := d.poll f.destination store (f.holdings ++ others)
    ({ f with deliveries := f.deliveries.set place d }, store)

/-- Lets every delivery go on whose time has come, in the order of the list. -/
def deliverDue (store : Store) (others : Holdings) (now : Span) (f : Forwarder) :
    Forwarder × Store :=
  (List.range f.deliveries.length).foldl (fun (f, store) place =>
    if (f.deliveries[place]?.any fun d => d.due ≤ now) then f.deliver store others place
    else (f, store)) (f, store)

/-- Lets go of the deliveries that are done. -/
def dropDone (f : Forwarder) : Forwarder :=
  { f with deliveries := f.deliveries.filter fun d => !d.isDone }

/-- Closes the destination once there is nothing left to deliver. -/
def finish (store : Store) (f : Forwarder) : Except TransportError (Forwarder × Store) :=
  if f.closed = false ∧ f.source = none ∧ f.deliveries = [] then do
    let store ← store.closeTrack f.destination
    return ({ f with closed := true }, store)
  else .ok (f, store)

/-- The instants at which waiting deliveries begin. -/
def dues (f : Forwarder) : List Span := f.deliveries.map Delivery.due

end Forwarder

end LiveMedia.Simulation
