import LiveMedia.Proofs.Playback.History
import LiveMedia.Proofs.Playback.Pass

/-!
# Runs of a player

A run is any list of moves: a task reports an event, the player is asked for a frame, its budget is set.
`played` lists the frames that a run plays and `gaveUp` the groups that it gives up.

Events wait in a queue until the player is asked for a frame. `Player.upToDate` is the schedule with the
queue already applied, and it moves by single steps: a report applies its event
(`upToDate_report`), a read takes one frame out (`upToDate_read`). Invariants of a run are stated of
`upToDate`, so they never mention the queue.
-/

namespace LiveMedia.Playback

open LiveMedia.Time LiveMedia.Live

/-- What happens to a player. -/
inductive Move where
  /-- A task reports an event. -/
  | report (e : Event)
  /-- The player is asked for a frame: a first call, a later try of a pending one, or a new one. -/
  | read
  | setLatency (latency : Span)

/-- The events that a move reports. -/
def Move.reports : Move → List Event
  | .report e => [e]
  | _ => []

/-- The history of a run. -/
def reports (moves : List Move) : List Event := moves.flatMap Move.reports

namespace Player

-- ── runs ────────────────────────────────────────────────────────────

/-- The player after a move. -/
def after (p : Player) : Move → Player
  | .report e => { p with events := p.events ++ [e] }
  | .read => p.readFrame.2
  | .setLatency latency => p.setLatency latency

/-- The player after a run. -/
def run (p : Player) (moves : List Move) : Player := moves.foldl after p

/-- The schedule once everything reported so far is applied. -/
def upToDate (p : Player) : Schedule := p.schedule.applyAll p.events

/-- The frame that a move plays, if it plays one. -/
def plays (p : Player) : Move → List OrderedFrame
  | .read => match p.readFrame.1 with
    | .ok (some f) => [f]
    | _ => []
  | _ => []

/-- The groups that a move gives up as stale. -/
def givesUp (p : Player) : Move → List Nat
  | .read =>
    if p.closed then []
    else Schedule.givenUp p.upToDate.latency p.upToDate.newest p.upToDate.lanes
  | _ => []

/-- The frames that a run plays, in order. -/
def played : Player → List Move → List OrderedFrame
  | _, [] => []
  | p, m :: moves => p.plays m ++ (p.after m).played moves

/-- The groups that a run gives up as stale. -/
def gaveUp : Player → List Move → List Nat
  | _, [] => []
  | p, m :: moves => p.givesUp m ++ (p.after m).gaveUp moves

end Player

-- ── cutting runs ────────────────────────────────────────────────────

@[simp] theorem reports_nil : reports [] = [] := rfl

@[simp] theorem reports_cons (m : Move) (moves : List Move) :
    reports (m :: moves) = m.reports ++ reports moves := rfl

@[simp] theorem reports_append (a b : List Move) : reports (a ++ b) = reports a ++ reports b :=
  List.flatMap_append

namespace Player

variable (p : Player)

@[simp] theorem run_nil : p.run [] = p := rfl

@[simp] theorem run_cons (m : Move) (moves : List Move) :
    p.run (m :: moves) = (p.after m).run moves := rfl

theorem played_append (a b : List Move) : p.played (a ++ b) = p.played a ++ (p.run a).played b := by
  induction a generalizing p with
  | nil => rfl
  | cons m a ih =>
      show p.plays m ++ (p.after m).played (a ++ b) = _
      rw [ih, ← List.append_assoc]
      rfl

-- ── single steps ────────────────────────────────────────────────────

@[simp] theorem closed_after (m : Move) : (p.after m).closed = p.closed := by
  cases m with
  | report => rfl
  | setLatency => rfl
  | read =>
      show p.readFrame.2.closed = p.closed
      rw [readFrame]
      split
      · rfl
      · rfl

theorem upToDate_report (e : Event) : (p.after (.report e)).upToDate = p.upToDate.apply e := by
  show p.schedule.applyAll (p.events ++ [e]) = _
  exact List.foldl_append

/-- Events do not look at the budget. -/
theorem applyAll_latency (events : List Event) (s : Schedule) (latency : Span) :
    Schedule.applyAll { s with latency } events = { s.applyAll events with latency } := by
  induction events generalizing s with
  | nil => rfl
  | cons e rest ih =>
      have hstep : Schedule.apply { s with latency } e = { s.apply e with latency } := by
        cases e with
        | group sequence reader =>
            simp only [Schedule.apply]
            split <;> rfl
        | frame sequence f =>
            simp only [Schedule.apply]
            cases s.lanes.find? sequence <;> rfl
        | groupDone => rfl
        | trackDone => rfl
      show Schedule.applyAll (Schedule.apply { s with latency } e) rest = _
      rw [hstep]
      exact ih (s.apply e)

theorem upToDate_setLatency (latency : Span) :
    (p.after (.setLatency latency)).upToDate = { p.upToDate with latency } :=
  applyAll_latency p.events p.schedule latency

/-- What a read of an open player is made of: its answer and the schedule that it leaves. -/
theorem readFrame_open (h : p.closed = false) :
    p.readFrame.1 = (p.schedule.read p.events).1 ∧
      p.readFrame.2.upToDate = (p.schedule.read p.events).2 := by
  rw [readFrame, h]
  exact ⟨rfl, rfl⟩

theorem upToDate_read (h : p.closed = false) :
    (p.after .read).upToDate = p.upToDate.next.2 := by
  show p.readFrame.2.upToDate = _
  rw [(p.readFrame_open h).2]
  rw [Schedule.read, upToDate]
  split
  · next frame s hs => rw [hs]
  · next s hs =>
    rw [hs]
    split <;> rfl

theorem plays_read (h : p.closed = false) : p.plays .read = p.upToDate.next.1.toList := by
  rw [plays, (p.readFrame_open h).1]
  rw [Schedule.read, upToDate]
  cases hs : ((p.schedule.applyAll p.events).next) with
  | mk out s =>
      cases out with
      | some f => rfl
      | none =>
          simp only [Option.toList_none]
          cases s.lanes with
          | cons => rfl
          | nil =>
              cases s.ended with
              | none => rfl
              | some result => cases result <;> rfl

theorem givesUp_read (h : p.closed = false) : p.givesUp .read =
    Schedule.givenUp p.upToDate.latency p.upToDate.newest p.upToDate.lanes := by
  rw [givesUp, h]
  rfl

/-- A read of an open player is one pass over the lanes. -/
theorem pass_read (h : p.closed = false) :
    Schedule.Pass p.upToDate.latency p.upToDate.newest p.upToDate.floor p.upToDate.lanes
      (p.givesUp .read) p.upToDate.next.1 (p.after .read).upToDate.floor
      (p.after .read).upToDate.lanes := by
  rw [p.givesUp_read h, p.upToDate_read h]
  exact Schedule.pass_advance _ _ _ _

/-- The answer that tells how a track ended. -/
def ending : Except MediaError Unit → Attempt MediaError (Option OrderedFrame)
  | .ok () => .ok none
  | .error e => .failure e

/-- A read that plays nothing and leaves no lane answers how the track ended, once that is known. -/
theorem readFrame_ended {result : Except MediaError Unit} (h : p.closed = false)
    (hnone : p.upToDate.next.1 = none) (hlanes : (p.after .read).upToDate.lanes = [])
    (hended : p.upToDate.ended = some result) : p.readFrame.1 = ending result := by
  rw [upToDate_read p h] at hlanes
  have hkeep : p.upToDate.next.2.ended = some result := hended
  rw [(p.readFrame_open h).1]
  rw [upToDate] at hnone hlanes hkeep
  rw [Schedule.read]
  cases hs : (p.schedule.applyAll p.events).next with
  | mk out s =>
      rw [hs] at hnone hlanes hkeep
      simp only at hnone hlanes hkeep
      subst hnone
      simp only [hlanes, hkeep]
      cases result <;> rfl

@[simp] theorem plays_report (e : Event) : p.plays (.report e) = [] := rfl

@[simp] theorem plays_setLatency (latency : Span) : p.plays (.setLatency latency) = [] := rfl

end Player

end LiveMedia.Playback
