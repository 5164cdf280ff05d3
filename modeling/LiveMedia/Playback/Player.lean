import LiveMedia.Playback.GroupReader
import LiveMedia.Playback.Schedule

/-!
# Players

A player follows a track. One task finds its groups, and each group is read by a task of its own; what
they find goes to the schedule as events. Tasks run until they have to wait. The task of a group ends
early when the schedule has no lane for it any more, and all tasks end when the player is closed.
-/

namespace LiveMedia.Playback

open LiveMedia.Time LiveMedia.Live

/-- The task that reads one group. -/
structure GroupTask where
  /-- Tells the tasks of a player apart. -/
  number : Nat
  reader : GroupReader
deriving DecidableEq, Repr

structure Player where
  info : TrackInfo
  schedule : Schedule
  /-- What was found and not yet applied to the schedule. -/
  events : List Event
  /-- The task that follows the track, while it runs. -/
  follower : Option TrackCursor
  tasks : List GroupTask
  /-- The number of tasks so far. -/
  started : Nat
  closed : Bool

namespace Player

/-- The budget of a player that is not told another. -/
def standardLatency : Span := .ofMillis 500

def start (track : TrackCursor) (latency : Span) : Player :=
  ⟨track.info, .start latency, [], some track, [], 0, false⟩

-- ── tasks ───────────────────────────────────────────────────────────

/-- Finds new groups until the track has none, at most `fuel` of them. -/
def follow (store : Store) (held : Holdings) : Nat → TrackCursor → Player → Player
  | 0, cursor, p => { p with follower := some cursor }
  | fuel + 1, cursor, p => match store.nextGroup held cursor with
    | (.ok (some group), cursor) =>
      follow store held fuel cursor { p with
        events := p.events ++ [.group group.sequence p.started]
        tasks := p.tasks ++ [⟨p.started, .start group⟩]
        started := p.started + 1 }
    | (.ok none, _) =>
      { p with events := p.events ++ [.trackDone (.ok ())], follower := none }
    | (.error (.failed e), _) =>
      { p with events := p.events ++ [.trackDone (.error (.transport e))], follower := none }
    | (.error .pending, cursor) => { p with follower := some cursor }

/-- Reads frames of a group until there is none, at most `fuel` of them. Gives what was found, and the
reader unless the group is done. -/
def readGroup (store : Store) (held : Holdings) (sequence : Nat) :
    Nat → GroupReader → List Event × Option GroupReader
  | 0, r => ([], some r)
  | fuel + 1, r => match r.readFrame store held with
    | (.ok (some f), r) =>
      let (events, rest) := readGroup store held sequence fuel r
      (.frame sequence f :: events, rest)
    | (.ok none, _) => ([.groupDone sequence], none)
    | (.error (.failed _), _) => ([.groupDone sequence], none)
    | (.error .pending, r) => ([], some r)

/-- Runs one task until it waits or ends. -/
def runTask (store : Store) (held : Holdings) (p : Player) (task : GroupTask) : Player :=
  let cursor := task.reader.cursor
  let fuel := (store.group cursor.group).frames.length + 2
  match readGroup store held cursor.sequence fuel task.reader with
  | (events, some reader) =>
    { p with events := p.events ++ events, tasks := p.tasks ++ [{ task with reader }] }
  | (events, none) => { p with events := p.events ++ events }

/-- Runs all tasks until each of them waits or has ended. A track keeps as many groups as its window
holds, so it has no more new ones. -/
def settle (store : Store) (held : Holdings) (p : Player) : Player :=
  if p.closed then { p with follower := none, tasks := [] }
  else
    let p := match p.follower with
      | some cursor => follow store held ((store.track cursor.track).retained.length + 2) cursor p
      | none => p
    p.tasks.foldl (runTask store held) { p with tasks := [] }

/-- The task's group still has the lane that it was found for. -/
def feedsLane (lanes : Entries Lane) (task : GroupTask) : Bool :=
  match lanes.find? task.reader.cursor.sequence with
  | some lane => lane.reader == task.number
  | none => false

-- ── playing ─────────────────────────────────────────────────────────

/-- The next frame, or `none` when the track has ended or the player was closed. -/
def readFrame (p : Player) : Attempt MediaError (Option OrderedFrame) × Player :=
  if p.closed then (.ok none, p)
  else
    let (attempt, schedule) := p.schedule.read p.events
    (attempt, { p with
      schedule
      events := []
      tasks := p.tasks.filter (feedsLane schedule.lanes) })

/-- Ends playback; what is buffered is lost. -/
def close (p : Player) : Player :=
  { p with closed := true, schedule := { p.schedule with lanes := [] } }

/-- Ends playback from elsewhere; pending and later reads give the end. -/
def stop (p : Player) : Player := { p with closed := true }

def setLatency (p : Player) (latency : Span) : Player :=
  { p with schedule := { p.schedule with latency } }

/-- What the tasks of a player hold. -/
def holdings (p : Player) : Holdings :=
  (match p.follower with
    | some cursor => [.trackCursor cursor.track]
    | none => []) ++
  p.tasks.map fun task => .groupCursor task.reader.cursor.group

end Player

end LiveMedia.Playback
