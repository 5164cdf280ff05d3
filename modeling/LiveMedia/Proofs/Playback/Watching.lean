import LiveMedia.Proofs.Playback.Ledger

/-!
# Watching a track that counts its groups

A player watches a track whose groups are numbered from zero on. When its tasks run they find all groups that
there are, as long as these are no more at once than the track keeps, and report all that is in them; nothing
fails. As long as the track goes on, a read gives the next frame or has to wait (`AttendsOpen.readFrame`). When
the track has ended and its groups are complete, everything was reported in one go, and a read gives the next
frame until all were played, and then the end (`AttendsEnded.readFrame`).

A task is only kept while its group has the lane that it was found for. Nothing is lost here
(`Whole.complete`), so every task that still reads is kept (`Attends.feedsLane`).
-/

namespace LiveMedia.Playback

open LiveMedia.Wire LiveMedia.Time LiveMedia.Live

-- ── lanes ───────────────────────────────────────────────────────────

/-- Every lane is fed by the reader of its number. -/
def Manned (lanes : Entries Lane) : Prop := ∀ e ∈ lanes, e.2.reader = e.1

/-- The number of frames that wait in some lanes. -/
def waiting (lanes : Entries Lane) : Nat := (lanes.flatMap fun e => e.2.buffered).length

section Lanes

variable {s : Schedule} {lanes left : Entries Lane} {latency : Span} {newest : Option Timestamp}
  {floor floor' : Nat} {lost : List Nat} {out : Option OrderedFrame}

theorem Manned.modify (h : Manned lanes) (hascending : Entries.Ascending lanes) (g : Nat)
    {change : Lane → Lane} (hchange : ∀ lane, (change lane).reader = lane.reader) :
    Manned (lanes.modify g change) := by
  intro e he
  rcases (Entries.mem_modify_iff hascending e).mp he with ⟨-, hold⟩ | ⟨lane, hlane, rfl⟩
  · exact h e hold
  · exact (hchange lane).trans (h (g, lane) hlane)

theorem Manned.apply {e : Event} (h : Manned s.lanes) (hascending : Entries.Ascending s.lanes)
    (he : ∀ g reader, e = .group g reader → reader = g) : Manned (s.apply e).lanes := by
  cases e with
  | group g reader =>
      simp only [Schedule.apply]
      split
      · exact h
      · intro entry hentry
        rcases Entries.mem_insert hentry with rfl | hold
        · exact he g reader rfl
        · exact h entry hold
  | frame g f =>
      simp only [Schedule.apply]
      split
      · exact h
      · exact h.modify hascending g fun _ => rfl
  | groupDone g => exact h.modify hascending g fun _ => rfl
  | trackDone result => exact h

theorem Manned.pass (hp : Schedule.Pass latency newest floor lanes lost out floor' left)
    (h : Manned lanes) : Manned left := by
  induction hp with
  | empty => exact h
  | skip _ _ ih => exact ih fun e he => h e (List.mem_cons_of_mem _ he)
  | finish _ _ _ _ ih => exact ih fun e he => h e (List.mem_cons_of_mem _ he)
  | wait => exact h
  | @play _ g oldest newer f rest _ _ =>
      intro e he
      rcases List.mem_cons.mp he with rfl | he
      · exact h (g, oldest) List.mem_cons_self
      · exact h e (List.mem_cons_of_mem _ he)

theorem waiting_cons (e : Nat × Lane) (lanes : Entries Lane) :
    waiting (e :: lanes) = e.2.buffered.length + waiting lanes := by
  rw [waiting, List.flatMap_cons, List.length_append]
  rfl

theorem waiting_insert_le (g reader : Nat) (lanes : Entries Lane) :
    waiting (lanes.insert g ⟨reader, [], none, false⟩) ≤ waiting lanes := by
  induction lanes with
  | nil => exact Nat.le_refl _
  | cons entry rest ih =>
      rw [Entries.insert]
      split
      · rw [waiting_cons]
        exact Nat.le_of_eq (Nat.zero_add _)
      · split
        · rw [waiting_cons, waiting_cons]
          exact Nat.add_le_add_right (Nat.zero_le _) _
        · rw [waiting_cons, waiting_cons]
          exact Nat.add_le_add_left ih _

theorem waiting_modify_le (g : Nat) {change : Lane → Lane} (lanes : Entries Lane)
    (hchange : ∀ lane, (change lane).buffered.length ≤ lane.buffered.length + 1) :
    waiting (lanes.modify g change) ≤ waiting lanes + 1 := by
  induction lanes with
  | nil => exact Nat.zero_le _
  | cons entry rest ih =>
      obtain ⟨other, lane⟩ := entry
      have hlane := hchange lane
      rw [Entries.modify]
      split
      · rw [waiting_cons, waiting_cons]
        dsimp only
        omega
      · rw [waiting_cons, waiting_cons]
        omega

/-- An event brings at most one frame. -/
theorem waiting_apply_le (s : Schedule) (e : Event) : waiting (s.apply e).lanes ≤ waiting s.lanes + 1 := by
  cases e with
  | group g reader =>
      simp only [Schedule.apply]
      split
      · exact Nat.le_succ _
      · exact Nat.le_succ_of_le (waiting_insert_le g reader s.lanes)
  | frame g f =>
      simp only [Schedule.apply]
      split
      · exact Nat.le_succ _
      · exact waiting_modify_le g s.lanes fun lane => Nat.le_of_eq List.length_append
  | groupDone g => exact waiting_modify_le g s.lanes fun lane => Nat.le_succ _
  | trackDone result => exact Nat.le_succ _

theorem waiting_applyAll_le (s : Schedule) (events : List Event) :
    waiting (s.applyAll events).lanes ≤ waiting s.lanes + events.length := by
  induction events generalizing s with
  | nil => exact Nat.le_refl _
  | cons e rest ih =>
      have hfirst := waiting_apply_le s e
      have hrest := ih (s.apply e)
      rw [List.length_cons]
      show waiting ((s.apply e).applyAll rest).lanes ≤ _
      omega

/-- What a pass plays waits no more. -/
theorem waiting_pass_le (hp : Schedule.Pass latency newest floor lanes lost out floor' left) :
    waiting left + out.toList.length ≤ waiting lanes := by
  induction hp with
  | empty => exact Nat.le_refl _
  | skip _ _ ih =>
      rw [waiting_cons]
      omega
  | finish _ _ _ _ ih =>
      rw [waiting_cons]
      omega
  | wait => exact Nat.le_refl _
  | @play _ g oldest newer f rest _ hbuffered =>
      simp only [waiting_cons, hbuffered, List.length_cons, Lane.play, Option.toList_some,
        List.length_nil]
      omega

end Lanes

-- ── a player at work ────────────────────────────────────────────────

/-- A player that has lost nothing, and what was reported to it so far. -/
structure Attends (s : Store) (made : List GroupEntry) (runs : List (List MediaFrame)) (budget : Span)
    (p : Player) (events : List Event) (played : List OrderedFrame) : Prop where
  intact : p.Intact events played
  latency : p.upToDate.latency = budget
  manned : Manned p.upToDate.lanes
  ledger : Ledger s made runs p.tasks events p.started

/-- The track goes on, and the player looks for more groups. -/
structure AttendsOpen (t : TrackId) (s : Store) (made : List GroupEntry) (runs : List (List MediaFrame))
    (budget : Span) (p : Player) (events : List Event) (played : List OrderedFrame) : Prop where
  attends : Attends s made runs budget p events played
  follower : ∃ c, p.follower = some c ∧ c.track = t ∧ c.Knows s p.started
  goesOn : trackResults events = []

/-- The track has ended, and everything was reported. -/
structure AttendsEnded (s : Store) (made : List GroupEntry) (runs : List (List MediaFrame)) (budget : Span)
    (p : Player) (events : List Event) (played : List OrderedFrame) : Prop where
  attends : Attends s made runs budget p events played
  tasks : p.tasks = []
  started : p.started = made.length
  ended : trackResults events = [.ok ()]

/-- The tasks of a player have reported more, and it has not been asked since. -/
structure Heard (p : Player) (new : List Event) (p' : Player) : Prop where
  events : p'.events = p.events ++ new
  schedule : p'.schedule = p.schedule
  closed : p'.closed = p.closed

/-- What there is when the task of a track has looked for groups and found all that there are. -/
structure Finds (t : TrackId) (s : Store) (made : List GroupEntry) (runs : List (List MediaFrame))
    (events new : List Event) (p p' : Player) : Prop where
  heard : Heard p new p'
  ledger : Ledger s made runs p'.tasks (events ++ new) p'.started
  started : p'.started = made.length
  goesOn : (s.track t).ending = none →
    trackResults new = [] ∧ ∃ c, p'.follower = some c ∧ c.track = t ∧ c.Knows s made.length
  ended : (s.track t).ending = some .complete → trackResults new = [.ok ()]

variable {s s' : Store} {held : Holdings} {made : List GroupEntry} {runs : List (List MediaFrame)}
  {budget : Span} {p p' : Player} {events new : List Event} {played : List OrderedFrame} {t : TrackId}

/-- Reports lose nothing, and they keep every lane with its reader. -/
theorem Whole.applyAll {sched : Schedule} (h : Whole events played sched) (hmanned : Manned sched.lanes)
    (hr : Reported (events ++ new)) (ha : (announced (events ++ new)).Pairwise (· < ·))
    (hreader : ∀ g reader, .group g reader ∈ new → reader = g) :
    Whole (events ++ new) played (sched.applyAll new) ∧ Manned (sched.applyAll new).lanes := by
  induction new generalizing events sched with
  | nil =>
      rw [List.append_nil]
      exact ⟨h, hmanned⟩
  | cons e rest ih =>
      rw [List.append_cons] at hr ha ⊢
      have ha' : (announced (events ++ [e])).Pairwise (· < ·) := by
        rw [announced_append] at ha
        exact (List.pairwise_append.mp ha).1
      have hnow := h.apply hr.of_append ha'
      refine ih hnow (hmanned.apply h.kept.ascending fun g reader heq => ?_) hr ha
        fun g reader hmem => hreader g reader (List.mem_cons_of_mem _ hmem)
      exact hreader g reader (heq ▸ List.mem_cons_self)

namespace Player

/-- A read moves neither the task of the track nor what was found, and it takes in all that was reported. -/
theorem readFrame_keeps (p : Player) (h : p.closed = false) :
    p.readFrame.2.started = p.started ∧ p.readFrame.2.follower = p.follower ∧ p.readFrame.2.events = [] := by
  rw [readFrame, h]
  exact ⟨rfl, rfl, rfl⟩

/-- What a read answers as long as the end of the track was not told. -/
theorem readFrame_of_open (p : Player) (h : p.closed = false) (hended : p.upToDate.ended = none) :
    (∃ f, p.plays .read = [f] ∧ p.readFrame.1 = .ok (some f)) ∨
      p.plays .read = [] ∧ p.readFrame.1 = .error .pending := by
  have hkeep : p.upToDate.next.2.ended = none := hended
  rw [plays_read p h, (p.readFrame_open h).1, Schedule.read]
  rw [upToDate] at hkeep ⊢
  cases hs : (p.schedule.applyAll p.events).next with
  | mk out sched =>
      rw [hs] at hkeep
      dsimp only at hkeep ⊢
      cases out with
      | some f => exact .inl ⟨f, rfl, rfl⟩
      | none =>
          refine .inr ⟨rfl, ?_⟩
          simp only [hkeep]
          cases sched.lanes <;> rfl

theorem readFrame_of_plays (p : Player) {f : OrderedFrame} (h : p.plays .read = [f]) :
    p.readFrame.1 = .ok (some f) := by
  rw [plays] at h
  split at h
  next heq => exact heq.trans (congrArg (fun f => Except.ok (some f)) (List.cons.inj h).1)
  next => cases h

/-- Every frame that is played is one less that waits. -/
theorem backlog_read (p : Player) (h : p.closed = false) :
    p.readFrame.2.events.length + waiting p.readFrame.2.schedule.lanes + (p.plays .read).length ≤
      p.events.length + waiting p.schedule.lanes := by
  have hevents := (p.readFrame_keeps h).2.2
  have hnow : p.readFrame.2.upToDate.lanes = p.readFrame.2.schedule.lanes := by
    rw [upToDate, hevents]
    rfl
  have hpass : waiting p.readFrame.2.upToDate.lanes + p.upToDate.next.1.toList.length ≤
      waiting p.upToDate.lanes := waiting_pass_le (p.pass_read h)
  have hevent : waiting p.upToDate.lanes ≤ waiting p.schedule.lanes + p.events.length :=
    waiting_applyAll_le p.schedule p.events
  rw [hevents, plays_read p h, ← hnow, List.length_nil]
  omega

end Player

namespace Attends

/-- What the tasks report next is taken down. -/
theorem heard (h : Attends s made runs budget p events played) (hprog : Programme s made runs)
    (hheard : Heard p new p') (hledger : Ledger s made runs p'.tasks (events ++ new) p'.started) :
    Attends s made runs budget p' (events ++ new) played := by
  obtain ⟨⟨hopen, hwhole⟩, hlatency, hmanned, -⟩ := h
  have hnow : p'.upToDate = p.upToDate.applyAll new := by
    rw [Player.upToDate, hheard.schedule, hheard.events]
    exact List.foldl_append
  obtain ⟨hwhole', hmanned'⟩ := hwhole.applyAll hmanned (hledger.reported hprog) hledger.pairwise
    fun g reader hmem => hledger.reader_eq hprog (List.mem_append_right _ hmem)
  refine ⟨⟨hheard.closed.trans hopen, hnow ▸ hwhole'⟩, ?_, hnow ▸ hmanned', hledger⟩
  have hsame := congrArg Schedule.latency (Player.applyAll_latency new p.upToDate p.upToDate.latency)
  rw [hnow]
  exact hsame.trans hlatency

/-- **Every task that reads is kept**: nothing is lost, so a group that is not done has the lane that it was
    found for. -/
theorem feedsLane (h : Attends s made runs budget p events played) (hprog : Programme s made runs)
    {lanes : Entries Lane} (hmanned : Manned lanes) (hascending : Entries.Ascending lanes)
    (hcomplete : ∀ g ∈ announced events, g ∉ lanes.map Prod.fst → g ∈ finished events)
    {task : GroupTask} (htask : task ∈ p.tasks) : Player.feedsLane lanes task = true := by
  obtain ⟨e, run, before, he, -, hreads, hsaid⟩ := h.ledger.reads hprog htask
  have hsequence : task.reader.cursor.sequence = task.number :=
    hreads.follows.sequence_eq.trans (hprog.sequence_eq he)
  have hlane : task.number ∈ lanes.map Prod.fst := by
    refine Decidable.byContradiction fun hnot => ?_
    have hdone := hcomplete task.number ?_ hnot
    · have hmem : Event.groupDone task.number ∈ about task.number events :=
        mem_about.mpr ⟨mem_finished.mp hdone, beq_self_eq_true _⟩
      rw [hsaid] at hmem
      simp at hmem
    · rw [h.ledger.announced_eq, List.mem_range]
      exact h.ledger.number_lt task htask
  obtain ⟨⟨_, lane⟩, hmem, rfl⟩ := List.mem_map.mp hlane
  rw [Player.feedsLane, hsequence, Entries.find?_of_mem hascending hmem]
  exact beq_iff_eq.mpr (hmanned _ hmem)

theorem read (h : Attends s made runs budget p events played) (hprog : Programme s made runs)
    (hbudget : ∀ run ∈ runs, ∀ f ∈ run, f.timestamp.value * 1000 ≤ budget.nanos) :
    Attends s made runs budget p.readFrame.2 events (played ++ p.plays .read) ∧
      p.readFrame.2.tasks = p.tasks := by
  have hopen := h.intact.1
  have hreported := h.ledger.reported hprog
  have hcovers : Covers p.upToDate.latency events := h.latency.symm ▸ h.ledger.covers hprog hbudget
  have hafter := h.intact.after_read hreported h.ledger.pairwise hcovers
  have hmanned : Manned p.readFrame.2.upToDate.lanes := h.manned.pass (p.pass_read hopen)
  have htasks : p.readFrame.2.tasks = p.tasks.filter (Player.feedsLane p.readFrame.2.upToDate.lanes) := by
    rw [Player.readFrame, hopen]
    rfl
  have hkept : p.readFrame.2.tasks = p.tasks := by
    rw [htasks, List.filter_eq_self]
    exact fun task htask => h.feedsLane hprog hmanned hafter.2.kept.ascending
      (fun g hg hnot => (hafter.2.complete.settled g hg hnot).2) htask
  have hlatency : p.readFrame.2.upToDate.latency = p.upToDate.latency :=
    List.mem_singleton.mp (p.latency_after hopen .read)
  refine ⟨⟨hafter, hlatency.trans h.latency, hmanned, ?_⟩, hkept⟩
  rw [hkept, (p.readFrame_keeps hopen).1]
  exact h.ledger

end Attends

-- ── groups are found ────────────────────────────────────────────────

/-- **The task of a track finds all groups**, if the track keeps those that are new. -/
theorem Ledger.follow (limit : Nat) {c : TrackCursor} (h : Ledger s made runs p.tasks events p.started)
    (hknows : c.Knows s p.started) (hcounts : (s.track c.track).Counts made)
    (halive : ∀ err, (s.track c.track).ending ≠ some (.aborted err))
    (hwritten : (s.track c.track).ending = none → .trackWriter c.track ∈ held)
    (hwindow : made.length ≤ p.started + Track.window) (hlimit : made.length < p.started + limit) :
    ∃ new, Finds c.track s made runs events new p (Player.follow s held limit c p) := by
  induction limit generalizing p c events with
  | zero => exact absurd hlimit (Nat.not_lt_of_le h.found_le)
  | succ limit ih =>
      rw [Player.follow]
      rcases Nat.lt_or_eq_of_le h.found_le with hlt | hall
      · have he : made[p.started]? = some made[p.started] := List.getElem?_eq_getElem hlt
        obtain ⟨c', hnext, htrack, hknows'⟩ := hknows.nextGroup_next hcounts halive he hwindow held
        rw [hnext]
        dsimp only
        rw [show made[p.started].cursor.sequence = p.started from hcounts.sequence_eq he]
        rw [← htrack] at hcounts halive hwritten
        let next : Player := { p with
          events := p.events ++ [.group p.started p.started]
          tasks := p.tasks ++ [⟨p.started, .start made[p.started].cursor⟩]
          started := p.started + 1 }
        have hwindow' : made.length ≤ next.started + Track.window := by
          show made.length ≤ p.started + 1 + Track.window
          omega
        have hlimit' : made.length < next.started + limit := by
          show made.length < p.started + 1 + limit
          omega
        obtain ⟨new, hfinds⟩ := @ih next _ c' (h.find he) hknows' hcounts halive hwritten hwindow' hlimit'
        refine ⟨.group p.started p.started :: new, ?_⟩
        rw [htrack] at hfinds
        have hevents := hfinds.heard.events.trans (List.append_assoc _ _ _)
        exact ⟨⟨hevents, hfinds.heard.schedule, hfinds.heard.closed⟩,
          List.append_cons events _ new ▸ hfinds.ledger, hfinds.started, hfinds.goesOn, hfinds.ended⟩
      · have hcaught := hknows.caughtUp hcounts (Nat.le_of_eq hall.symm)
        have hsame : Ledger s made runs p.tasks (events ++ []) p.started := (List.append_nil events).symm ▸ h
        cases hending : (s.track c.track).ending with
        | none =>
            rw [hcaught.nextGroup_open hending (hwritten hending)]
            refine ⟨[], ⟨(List.append_nil _).symm, rfl, rfl⟩, hsame, hall, fun _ => ⟨rfl, c, rfl, rfl, ?_⟩, ?_⟩
            · exact hall ▸ hknows
            · exact fun hended => nomatch hending.symm.trans hended
        | some ending =>
            cases ending with
            | complete =>
                obtain ⟨c', hnext⟩ : ∃ c', s.nextGroup held c = (.ok none, c') :=
                  hcaught.nextGroup_closed hending
                rw [hnext]
                exact ⟨[.trackDone (.ok ())], ⟨rfl, rfl, rfl⟩, h.trackDone _, hall,
                  (fun hopen => nomatch hending.symm.trans hopen), fun _ => rfl⟩
            | aborted err => exact absurd hending (halive err)

/-- **Tasks that run keep the ledger**, and they end when the groups are complete. -/
theorem Ledger.runTasks (rest : List GroupTask) {found : Nat}
    (h : Ledger s made runs (p.tasks ++ rest) events found) (hprog : Programme s made runs)
    (htended : Tended s held made) :
    ∃ new tasks, rest.foldl (Player.runTask s held) p = { p with events := p.events ++ new, tasks } ∧
      Ledger s made runs tasks (events ++ new) found ∧ trackResults new = [] ∧
      ((∀ e ∈ made, ∃ payloads, s.Complete e.group payloads) → tasks = p.tasks) := by
  induction rest generalizing p events with
  | nil =>
      refine ⟨[], p.tasks, ?_, ?_, rfl, fun _ => rfl⟩
      · rw [List.append_nil]
        rfl
      · rw [List.append_nil] at h ⊢
        exact h
  | cons task rest ih =>
      obtain ⟨new, left, hrun, hledger, hresults, hends⟩ := h.runTask hprog htended
      obtain ⟨more, tasks, hruns, hledger', hresults', hends'⟩ :=
        ih (p := { p with events := p.events ++ new, tasks := p.tasks ++ left }) hledger
      refine ⟨new ++ more, tasks, ?_, List.append_assoc events new more ▸ hledger', ?_, fun hall => ?_⟩
      · rw [List.foldl_cons, hrun, hruns, List.append_assoc]
      · rw [trackResults_append, hresults, hresults']
        rfl
      · rw [hends' hall, hends hall]
        exact List.append_nil p.tasks

namespace AttendsOpen

theorem start (track : TrackCursor) (hseen : track.seen = []) (s : Store) (budget : Span) :
    AttendsOpen track.track s [] [] budget (.start track budget) [] [] where
  attends := ⟨⟨rfl, Whole.start budget⟩, rfl, fun _ he => absurd he List.not_mem_nil, Ledger.start s [] []⟩
  follower := ⟨track, rfl, rfl, TrackCursor.Knows.start hseen⟩
  goesOn := rfl

/-- More has come, and the player was not asked. -/
theorem later {more : List GroupEntry} {runs' : List (List MediaFrame)}
    (h : AttendsOpen t s made runs budget p events played) (hgrows : s.Grows s')
    (hprog' : Programme s' (made ++ more) runs') (hcounts : (s.track t).Counts made)
    (hcounts' : (s'.track t).Counts (made ++ more)) (hlength : made.length = runs.length)
    (hlonger : ∀ (n : Nat) run, runs[n]? = some run → ∃ run', runs'[n]? = some run' ∧ run <+: run') :
    AttendsOpen t s' (made ++ more) runs' budget p events played where
  attends := { h.attends with ledger := h.attends.ledger.later hgrows hprog' hlength hlonger }
  follower := by
    obtain ⟨c, hc, rfl, hknows⟩ := h.follower
    exact ⟨c, hc, rfl, hknows.later hcounts hcounts' h.attends.ledger.found_le⟩
  goesOn := h.goesOn

/-- **The tasks run until they have to wait**, and report all that there is. -/
theorem settle (h : AttendsOpen t s made runs budget p events played) (hprog : Programme s made runs)
    (htended : Tended s held made) (hcounts : (s.track t).Counts made)
    (halive : ∀ err, (s.track t).ending ≠ some (.aborted err))
    (hwritten : (s.track t).ending = none → .trackWriter t ∈ held)
    (hwindow : made.length ≤ p.started + Track.window) :
    ∃ events', (p.settle s held).started = made.length ∧
      ((s.track t).ending = none →
        AttendsOpen t s made runs budget (p.settle s held) events' played) ∧
      ((s.track t).ending ≠ none → (∀ e ∈ made, ∃ payloads, s.Complete e.group payloads) →
        AttendsEnded s made runs budget (p.settle s held) events' played) := by
  obtain ⟨c, hc, rfl, hknows⟩ := h.follower
  have hretained : made.length ≤ p.started + (s.track c.track).retained.length := by
    rw [hcounts.retained, Track.latest, List.length_drop]
    omega
  obtain ⟨new, hfinds⟩ := h.attends.ledger.follow ((s.track c.track).retained.length + 2) hknows hcounts
    halive hwritten hwindow (by omega)
  let found := Player.follow s held ((s.track c.track).retained.length + 2) c p
  obtain ⟨more, tasks, hruns, hledger, hresults, hends⟩ :=
    Ledger.runTasks (p := { found with tasks := [] }) found.tasks hfinds.ledger hprog htended
  have hsettle : p.settle s held =
      { found with events := found.events ++ more, tasks } := by
    rw [Player.settle, h.attends.intact.1, hc]
    exact hruns
  have hheard : Heard p (new ++ more) (p.settle s held) := by
    rw [hsettle]
    refine ⟨?_, hfinds.heard.schedule, hfinds.heard.closed⟩
    exact (congrArg (· ++ more) hfinds.heard.events).trans (List.append_assoc _ _ _)
  have hattends : Attends s made runs budget (p.settle s held) (events ++ (new ++ more)) played := by
    refine h.attends.heard hprog hheard ?_
    rw [hsettle, ← List.append_assoc]
    exact hledger
  have hboth : trackResults (events ++ (new ++ more)) = trackResults new := by
    rw [trackResults_append, trackResults_append, hresults, h.goesOn, List.append_nil]
    rfl
  refine ⟨events ++ (new ++ more), ?_, fun hopen => ?_, fun hended hall => ?_⟩
  · rw [hsettle]
    exact hfinds.started
  · obtain ⟨hnone, c', hc', htrack, hknows'⟩ := hfinds.goesOn hopen
    refine ⟨hattends, ⟨c', ?_, htrack, ?_⟩, hboth.trans hnone⟩
    · rw [hsettle]
      exact hc'
    · rw [hsettle]
      exact hfinds.started.symm ▸ hknows'
  · have hclosed : (s.track c.track).ending = some .complete := by
      cases hending : (s.track c.track).ending with
      | none => exact absurd hending hended
      | some ending =>
          cases ending with
          | complete => rfl
          | aborted err => exact absurd hending (halive err)
    refine ⟨hattends, ?_, ?_, hboth.trans (hfinds.ended hclosed)⟩
    · rw [hsettle]
      exact hends hall
    · rw [hsettle]
      exact hfinds.started

/-- **As long as the track goes on**, a read gives the next frame or has to wait. -/
theorem readFrame (h : AttendsOpen t s made runs budget p events played) (hprog : Programme s made runs)
    (hbudget : ∀ run ∈ runs, ∀ f ∈ run, f.timestamp.value * 1000 ≤ budget.nanos) :
    (∃ f, p.readFrame.1 = .ok (some f) ∧
        AttendsOpen t s made runs budget p.readFrame.2 events (played ++ [f])) ∨
      p.readFrame.1 = .error .pending ∧ AttendsOpen t s made runs budget p.readFrame.2 events played := by
  have hopen := h.attends.intact.1
  obtain ⟨hattends, -⟩ := h.attends.read hprog hbudget
  obtain ⟨hstarted, hfollower, -⟩ := p.readFrame_keeps hopen
  have hwatches : AttendsOpen t s made runs budget p.readFrame.2 events (played ++ p.plays .read) := by
    refine ⟨hattends, ?_, h.goesOn⟩
    rw [hfollower, hstarted]
    exact h.follower
  have hended : p.upToDate.ended = none := by
    rw [h.attends.intact.2.ended, h.goesOn]
    rfl
  rcases p.readFrame_of_open hopen hended with ⟨f, hplays, hanswer⟩ | ⟨hplays, hanswer⟩
  · exact .inl ⟨f, hanswer, hplays ▸ hwatches⟩
  · refine .inr ⟨hanswer, ?_⟩
    rwa [hplays, List.append_nil] at hwatches

end AttendsOpen

namespace AttendsEnded

/-- What was reported of a group is its run and that it is done. -/
theorem reported (h : AttendsEnded s made runs budget p events played) (hprog : Programme s made runs)
    {n : Nat} (hn : n < made.length) : ∃ run, runs[n]? = some run ∧ framesOf n events = run.map MediaFrame.joined ∧
      n ∈ finished events := by
  obtain ⟨e, run, he, hrun, hforetold, -⟩ := hprog.entry hn
  refine ⟨run, hrun, ?_⟩
  cases h.attends.ledger.accounted n e run (h.started.symm ▸ hn) he hrun with
  | reading hmem _ _ => exact absurd hmem (h.tasks ▸ List.not_mem_nil)
  | @ended before _ hover hsaid =>
      obtain rfl := hover.eq_run hforetold
      constructor
      · rw [← framesOf_about, hsaid]
        show framesOf n ((before.map MediaFrame.joined).map (.frame n) ++ [.groupDone n]) = _
        rw [framesOf_append, framesOf_map_frame]
        exact List.append_nil _
      · have hdone : Event.groupDone n ∈ about n events := by
          rw [hsaid]
          exact List.mem_cons_of_mem _ (List.mem_append_right _ List.mem_cons_self)
        exact mem_finished.mpr (mem_about.mp hdone).1

/-- All frames are the frames of all runs. -/
theorem inOrder_eq (h : AttendsEnded s made runs budget p events played) (hprog : Programme s made runs) :
    inOrder events = (List.range runs.length).flatMap fun n =>
      ((runs[n]?.getD []).map MediaFrame.joined).map (OrderedFrame.mk n) := by
  rw [inOrder, h.attends.ledger.announced_eq, h.started, hprog.foretold.length_eq]
  refine List.flatMap_congr fun n hn => ?_
  obtain ⟨run, hrun, hframes, -⟩ :=
    h.reported hprog (hprog.foretold.length_eq.symm ▸ List.mem_range.mp hn)
  rw [hrun, hframes]
  rfl

/-- **When everything was reported**, a read gives the next frame, of which fewer are left then, or all were
    played and this is the end. -/
theorem readFrame (h : AttendsEnded s made runs budget p events played) (hprog : Programme s made runs)
    (hbudget : ∀ run ∈ runs, ∀ f ∈ run, f.timestamp.value * 1000 ≤ budget.nanos) :
    (∃ f, p.readFrame.1 = .ok (some f) ∧ AttendsEnded s made runs budget p.readFrame.2 events (played ++ [f]) ∧
        p.readFrame.2.events.length + waiting p.readFrame.2.schedule.lanes <
          p.events.length + waiting p.schedule.lanes) ∨
      p.readFrame.1 = .ok none ∧ played = inOrder events := by
  have hopen := h.attends.intact.1
  have hcovers : Covers p.upToDate.latency events :=
    h.attends.latency.symm ▸ h.attends.ledger.covers hprog hbudget
  have hdone : ∀ g ∈ announced events, g ∈ finished events := by
    intro g hg
    rw [h.attends.ledger.announced_eq, h.started, List.mem_range] at hg
    obtain ⟨_, _, _, hfinished⟩ := h.reported hprog hg
    exact hfinished
  have hend : (trackResults events).getLast? = some (.ok ()) := by
    rw [h.ended]
    rfl
  rcases h.attends.intact.read_finished (h.attends.ledger.reported hprog) h.attends.ledger.pairwise hcovers
    hend hdone with ⟨f, hplays⟩ | ⟨-, hplayed, hanswer⟩
  · obtain ⟨hattends, htasks⟩ := h.attends.read hprog hbudget
    have hbacklog := p.backlog_read hopen
    rw [hplays] at hattends hbacklog
    refine .inl ⟨f, p.readFrame_of_plays hplays, ⟨hattends, htasks.trans h.tasks, ?_, h.ended⟩, hbacklog⟩
    exact (p.readFrame_keeps hopen).1.trans h.started
  · exact .inr ⟨hanswer, hplayed⟩

end AttendsEnded

end LiveMedia.Playback
