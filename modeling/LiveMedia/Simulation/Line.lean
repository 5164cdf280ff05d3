import LiveMedia.Playback.Player
import LiveMedia.Playback.Publisher
import LiveMedia.Simulation.Fault
import LiveMedia.Simulation.Forwarder
import LiveMedia.Simulation.Network

/-!
# A track from its publisher to its player

A line is a publisher that is fed frames at a fixed period, a forwarder behind it, and a player at the
end of the network. Time moves from one instant to the next at which something is due. All that can
happen at an instant happens before time moves on, in the order in which media flows: the publisher
writes, groups are found and delivered, and the player gives out what it has.
-/

namespace LiveMedia.Simulation

open LiveMedia.Time LiveMedia.Live LiveMedia.Playback

/-- What a publisher is fed: a frame at each tick until all is published. -/
structure Feed where
  /-- The span between two ticks; the first is at the start. -/
  period : Span
  /-- There is something left to publish at a tick. -/
  goesOn : Nat → Bool
  frame : Nat → Except TimeError MediaFrame

/-- The instant of a tick. -/
def Feed.instant (feed : Feed) (tick : Nat) : Span := ⟨tick * feed.period.nanos⟩

structure Line where
  store : Store
  /-- The publisher, until it has published all and closed its track. -/
  publisher : Option Publisher
  /-- The number of frames that were published. -/
  ticks : Nat
  forwarder : Forwarder
  player : Player
  /-- The player has come to the end. -/
  ended : Bool

namespace Line

/-- A line on which nothing has happened. Both of its tracks have the given name. -/
def start (name : String) (latency : Span) : Line :=
  let (source, store) := Store.empty.newTrack ⟨name, 0⟩
  let (destination, store) := store.newTrack ⟨name, 0⟩
  ⟨store, some (.start source), 0, .start source.cursor destination,
    .start destination.cursor latency, false⟩

-- ── what is held ────────────────────────────────────────────────────

def publisherHoldings (l : Line) : Holdings :=
  l.publisher.toList.flatMap fun p =>
    .trackWriter p.track.track :: p.current.toList.map fun g => .groupWriter g.group

/-- Everything that is held, the forwarder's share apart. -/
def otherHoldings (l : Line) : Holdings := l.publisherHoldings ++ l.player.holdings

def holdings (l : Line) : Holdings := l.otherHoldings ++ l.forwarder.holdings

-- ── the publisher ───────────────────────────────────────────────────

/-- Closes the track once the feed has nothing more. -/
def endPublishing (feed : Feed) (l : Line) : Except Fault Line :=
  match l.publisher, feed.goesOn l.ticks with
  | some p, false => match p.close l.store with
    | (.ok (), _, store) => .ok { l with store, publisher := none }
    | (.error e, _, _) => .error (.media e)
  | _, _ => .ok l

/-- Publishes the next frame of the feed. -/
def publishNext (feed : Feed) (l : Line) : Except Fault Line :=
  match l.publisher, feed.goesOn l.ticks with
  | some p, true => match feed.frame l.ticks with
    | .ok f => match p.write? l.store f with
      | some (.ok (), p, store) => .ok { l with store, publisher := some p, ticks := l.ticks + 1 }
      | some (.error e, _, _) => .error (.media e)
      | none => .error .outOfRange
    | .error e => .error (.time e)
  | _, _ => .ok l

/-- Publishes the frame that is due, and closes the track behind the last one. -/
def publish (feed : Feed) (now : Span) (l : Line) : Except Fault Line := do
  let l ← if feed.instant l.ticks ≤ now then l.publishNext feed else .ok l
  l.endPublishing feed

-- ── the network ─────────────────────────────────────────────────────

/-- Takes groups over into the network, delivers what is due and closes the end of the line when all is
done. -/
def forward (delay : Nat → Span) (now : Span) (l : Line) : Except Fault Line := do
  let f ← (l.forwarder.accept l.store l.holdings fun n => now + delay n).mapError .transport
  let (f, store) := f.deliverDue l.store l.otherHoldings now
  let (f, store) ← (f.dropDone.finish store).mapError .transport
  return { l with store, forwarder := f }

-- ── the player ──────────────────────────────────────────────────────

/-- Reads frames until the player has to wait or is at the end, at most `fuel` of them. -/
def playFrom : Nat → Line → List OrderedFrame × Except Fault Line
  | 0, l => ([], .ok l)
  | fuel + 1, l => match l.player.readFrame with
    | (.ok (some f), player) =>
      let (frames, l) := playFrom fuel { l with player }
      (f :: frames, l)
    | (.ok none, player) => ([], .ok { l with player, ended := true })
    | (.error .pending, player) => ([], .ok { l with player })
    | (.error (.failed e), _) => ([], .error (.media e))

/-- The number of frames that a player has not given out. -/
def backlog (p : Player) : Nat :=
  p.events.length + (p.schedule.lanes.flatMap fun entry => entry.2.buffered).length

/-- Lets the tasks of the player run and reads what it has. -/
def play (l : Line) : List OrderedFrame × Except Fault Line :=
  if l.ended then ([], .ok l)
  else
    let player := l.player.settle l.store l.holdings
    playFrom (backlog player + 1) { l with player }

-- ── time ────────────────────────────────────────────────────────────

/-- All that happens at an instant, with the frames that are played. -/
def act (feed : Feed) (delay : Nat → Span) (now : Span) (l : Line) :
    List OrderedFrame × Except Fault Line :=
  match l.publish feed now >>= forward delay now with
  | .ok l => l.play
  | .error e => ([], .error e)

/-- The instants at which something is due later. -/
def upcoming (feed : Feed) (now : Span) (l : Line) : List Span :=
  ((l.publisher.toList.map fun _ => feed.instant l.ticks) ++ l.forwarder.dues).filter (now < ·)

/-- The publisher is done, the network is empty and the player is at the end. -/
def isDone (l : Line) : Bool := l.publisher.isNone && l.forwarder.closed && l.ended

end Line

/-- The first of some instants. -/
def earliest (instants : List Span) : Option Span :=
  (instants.map Span.nanos).min?.map fun n => ⟨n⟩

end LiveMedia.Simulation
