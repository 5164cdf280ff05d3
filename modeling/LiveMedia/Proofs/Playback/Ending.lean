import LiveMedia.Proofs.Playback.WithinBudget

/-!
# The end of playback

A player gives the end of its track only when nothing is left: every group that was announced was
discarded because it came too late, given up as stale, or is done with all its frames played. From then
on every read gives the same end. A player that was closed gives the end at once, and plays nothing more.

`Settled` is the invariant: a group without a lane went one of these three ways. Reports keep it because
the only group that gets no lane is the one that is discarded (`Settled.apply`); a pass keeps it because
it drops a lane only when it gives it up or when it is drained and done (`Settled.pass`). A read gives
the end only when no lane is left (`read_of_ending`), and that is where the invariant is read off.

What is promised of the task that follows the track is `Followed`: it announces groups and then, at most
once and last, reports how the track ended.
-/

namespace LiveMedia.Playback

open LiveMedia.Time LiveMedia.Live

-- ── what the follower reports ───────────────────────────────────────

/-- The event comes from the task that follows the track. -/
def Event.isOfTrack : Event → Bool
  | .group _ _ => true
  | .trackDone _ => true
  | _ => false

/-- The events of the task that follows the track. -/
def ofTrack (events : List Event) : List Event := events.filter Event.isOfTrack

/-- Events that one follower of a track gives one after the other. Between two tries the store may change
    in any way. -/
inductive Follows : TrackCursor → List Event → Prop where
  | stop (cursor : TrackCursor) : Follows cursor []
  | wait {cursor cursor' : TrackCursor} {events : List Event} (store : Store) (held : Holdings)
      (h : store.nextGroup held cursor = (.pending, cursor')) (rest : Follows cursor' events) :
      Follows cursor events
  | found {cursor cursor' : TrackCursor} {group : GroupCursor} {events : List Event} (store : Store)
      (held : Holdings) (reader : Nat) (h : store.nextGroup held cursor = (.ok (some group), cursor'))
      (rest : Follows cursor' events) : Follows cursor (.group group.sequence reader :: events)
  | ended {cursor cursor' : TrackCursor} (store : Store) (held : Holdings)
      (h : store.nextGroup held cursor = (.ok none, cursor')) : Follows cursor [.trackDone (.ok ())]
  | failed {cursor cursor' : TrackCursor} {e : TransportError} (store : Store) (held : Holdings)
      (h : store.nextGroup held cursor = (.failure e, cursor')) :
      Follows cursor [.trackDone (.error (.transport e))]

/-- What the task that follows the track promises about a history, which may break off anywhere. -/
def Followed (events : List Event) : Prop := ∃ cursor, Follows cursor (ofTrack events)

theorem ofTrack_append (a b : List Event) : ofTrack (a ++ b) = ofTrack a ++ ofTrack b :=
  List.filter_append a b

/-- Behind the end of the track the follower reports nothing. -/
theorem Follows.nothing_after {cursor : TrackCursor} {a b : List Event}
    {result : Except MediaError Unit} (h : Follows cursor (a ++ .trackDone result :: b)) : b = [] := by
  generalize hall : a ++ .trackDone result :: b = events at h
  induction h generalizing a with
  | stop => simp at hall
  | wait _ _ _ _ ih => exact ih hall
  | found _ _ _ _ _ ih =>
      cases a with
      | nil => cases hall
      | cons e a => exact ih (List.cons.inj hall).2
  | ended =>
      cases a with
      | nil => exact (List.cons.inj hall).2
      | cons e a => simp at hall
  | failed =>
      cases a with
      | nil => exact (List.cons.inj hall).2
      | cons e a => simp at hall

/-- Behind the end of the track come only frames and ends of groups. -/
theorem Followed.ofTrack_eq_nil {a b : List Event} {result : Except MediaError Unit}
    (h : Followed (a ++ .trackDone result :: b)) : ofTrack b = [] := by
  obtain ⟨cursor, hfollows⟩ := h
  rw [ofTrack_append] at hfollows
  exact hfollows.nothing_after

theorem Followed.later {a b : List Event} {result : Except MediaError Unit} (h : Followed (a ++ b))
    (hresult : .trackDone result ∈ a) : ofTrack b = [] := by
  obtain ⟨c, d, rfl⟩ := List.append_of_mem hresult
  rw [List.append_assoc, List.cons_append] at h
  have hnone := h.ofTrack_eq_nil
  rw [ofTrack_append] at hnone
  exact (List.append_eq_nil_iff.mp hnone).2

theorem mem_trackResults {result : Except MediaError Unit} {events : List Event} :
    result ∈ trackResults events ↔ .trackDone result ∈ events := by
  simp only [trackResults, List.mem_filterMap]
  constructor
  · rintro ⟨e, he, hresult⟩
    cases e with
    | trackDone other => exact Option.some.inj hresult ▸ he
    | group => cases hresult
    | frame => cases hresult
    | groupDone => cases hresult
  · intro he
    exact ⟨_, he, rfl⟩

theorem announced_eq_nil {events : List Event} (h : ofTrack events = []) : announced events = [] := by
  refine List.eq_nil_iff_forall_not_mem.mpr fun g hg => ?_
  obtain ⟨reader, he⟩ := mem_announced.mp hg
  have hmem : Event.group g reader ∈ ofTrack events := List.mem_filter.mpr ⟨he, rfl⟩
  rw [h] at hmem
  exact List.not_mem_nil hmem

theorem trackResults_eq_nil {events : List Event} (h : ofTrack events = []) :
    trackResults events = [] := by
  refine List.eq_nil_iff_forall_not_mem.mpr fun result hresult => ?_
  have hmem : Event.trackDone result ∈ ofTrack events :=
    List.mem_filter.mpr ⟨mem_trackResults.mp hresult, rfl⟩
  rw [h] at hmem
  exact List.not_mem_nil hmem

/-- The end of the track is reported once at most. -/
theorem Followed.trackResults_eq {events : List Event} {result : Except MediaError Unit}
    (h : Followed events) (hresult : result ∈ trackResults events) :
    trackResults events = [result] := by
  obtain ⟨a, b, rfl⟩ := List.append_of_mem (mem_trackResults.mp hresult)
  have hlater := trackResults_eq_nil h.ofTrack_eq_nil
  have hearlier : trackResults a = [] := by
    refine List.eq_nil_iff_forall_not_mem.mpr fun other hother => ?_
    cases h.later (mem_trackResults.mp hother)
  rw [trackResults_append, hearlier]
  show result :: trackResults b = [result]
  rw [hlater]

/-- **The follower keeps the promise.** What it reports in one go goes on with whatever it reports when it
    is kept, and with nothing when it is not. -/
theorem follow_events (store : Store) (held : Holdings) (fuel : Nat) (cursor : TrackCursor)
    (p : Player) :
    ∃ events, (Player.follow store held fuel cursor p).events = p.events ++ events ∧
      ∀ more, (∀ c, (Player.follow store held fuel cursor p).follower = some c → Follows c more) →
        ((Player.follow store held fuel cursor p).follower = none → more = []) →
        Follows cursor (events ++ more) := by
  induction fuel generalizing cursor p with
  | zero => exact ⟨[], (List.append_nil _).symm, fun more hkept _ => hkept cursor rfl⟩
  | succ fuel ih =>
      rw [Player.follow]
      split
      · next group cursor' hnext =>
        obtain ⟨events, hevents, hfollows⟩ := ih cursor' { p with
          events := p.events ++ [.group group.sequence p.started]
          tasks := p.tasks ++ [⟨p.started, .start group⟩]
          started := p.started + 1 }
        refine ⟨.group group.sequence p.started :: events, ?_, fun more hkept hover => ?_⟩
        · rw [hevents, List.append_assoc]
          rfl
        · exact .found store held p.started hnext (hfollows more hkept hover)
      · next cursor' hnext =>
        refine ⟨[.trackDone (.ok ())], rfl, fun more _ hover => ?_⟩
        rw [hover rfl]
        exact .ended store held hnext
      · next e cursor' hnext =>
        refine ⟨[.trackDone (.error (.transport e))], rfl, fun more _ hover => ?_⟩
        rw [hover rfl]
        exact .failed store held hnext
      · next cursor' hnext =>
        exact ⟨[], (List.append_nil _).symm, fun more hkept _ =>
          .wait store held hnext (hkept cursor' rfl)⟩

-- ── groups without a lane ───────────────────────────────────────────

/-- The group that an event announces too late. -/
def Schedule.discards (s : Schedule) : Event → List Nat
  | .group g _ => if g < s.floor then [g] else []
  | _ => []

/-- A group that was announced and has no lane was discarded or given up, or it is done and all its frames
    were played. -/
def Settled (events : List Event) (played : List OrderedFrame) (late lost : List Nat)
    (lanes : Entries Lane) : Prop :=
  ∀ g ∈ announced events, g ∉ lanes.map Prod.fst →
    g ∈ late ∨ g ∈ lost ∨ g ∈ finished events ∧ framesIn g played = framesOf g events

variable {events : List Event} {played : List OrderedFrame} {late lost : List Nat}
  {floor floor' : Nat} {lanes left : Entries Lane}

/-- No report takes a lane away. -/
theorem mem_lanes_apply {s : Schedule} {g : Nat} (hs : Entries.Ascending s.lanes) (e : Event)
    (hg : g ∈ s.lanes.map Prod.fst) : g ∈ (s.apply e).lanes.map Prod.fst := by
  cases e with
  | group other reader =>
      simp only [Schedule.apply]
      split
      · exact hg
      · exact (Entries.mem_map_fst_insert hs).mpr (Or.inr hg)
  | frame other f =>
      simp only [Schedule.apply]
      cases s.lanes.find? other with
      | none => exact hg
      | some lane =>
          rw [Entries.map_fst_modify]
          exact hg
  | groupDone other =>
      simp only [Schedule.apply]
      rw [Entries.map_fst_modify]
      exact hg
  | trackDone result => exact hg

/-- **A report settles only the group that it announces too late.** -/
theorem Settled.apply {s : Schedule} {e : Event} (h : Settled events played late lost s.lanes)
    (hk : Kept events played s.floor s.lanes) (hr : Reported (events ++ [e])) :
    Settled (events ++ [e]) played (late ++ s.discards e) lost (s.apply e).lanes := by
  intro g hg hlane
  rw [announced_append, List.mem_append] at hg
  by_cases hold : g ∈ announced events
  · rcases h g hold fun hin => hlane (mem_lanes_apply hk.ascending e hin) with hd | hl | ⟨hdone, hall⟩
    · exact Or.inl (List.mem_append_left _ hd)
    · exact Or.inr (Or.inl hl)
    · -- a group that is done gets no more frames
      refine Or.inr (Or.inr ⟨?_, ?_⟩)
      · rw [finished_append]
        exact List.mem_append_left _ hdone
      · rw [hr.framesOf_finished hdone]
        exact hall
  · obtain ⟨reader, hannounced⟩ := mem_announced.mp (hg.resolve_left hold)
    obtain rfl := List.mem_singleton.mp hannounced
    have hlow : g < s.floor := by
      refine Decidable.byContradiction fun hhigh => hlane ?_
      simp only [Schedule.apply, if_neg hhigh]
      exact (Entries.mem_map_fst_insert hk.ascending).mpr (Or.inl rfl)
    refine Or.inl (List.mem_append_right _ ?_)
    rw [Schedule.discards, if_pos hlow]
    exact List.mem_singleton_self g

/-- **A pass drops a lane only when it gives it up or when its group is over.** -/
theorem Settled.pass {latency : Span} {newest : Option Timestamp} {stale : List Nat}
    {out : Option OrderedFrame}
    (hp : Schedule.Pass latency newest floor lanes stale out floor' left)
    (hlanes : ∀ e ∈ lanes, LaneKept events played e.1 e.2)
    (h : Settled events played late lost lanes) :
    Settled events (played ++ out.toList) late (lost ++ stale) left := by
  induction hp generalizing lost with
  | empty =>
      rw [Option.toList_none, List.append_nil, List.append_nil]
      exact h
  | @skip floor floor' g oldest newer left stale out hstale rest ih =>
      have hnewer : Settled events played late (lost ++ [g]) newer := by
        intro g' hg' hnot
        by_cases hself : g' = g
        · subst hself
          exact Or.inr (Or.inl (List.mem_append_right _ (List.mem_singleton_self g')))
        · refine (h g' hg' ?_).imp_right (Or.imp_left (List.mem_append_left _))
          simpa [hself] using hnot
      rw [List.append_cons]
      exact ih (fun e he => hlanes e (List.mem_cons_of_mem _ he)) hnewer
  | @play floor g oldest newer f rest fresh waiting =>
      rw [List.append_nil]
      intro g' hg' hnot
      have hne : g ≠ g' := by
        rintro rfl
        exact hnot List.mem_cons_self
      show _ ∨ _ ∨ _ ∧ framesIn g' (played ++ [⟨g, f⟩]) = _
      rw [framesIn_append, framesIn_of_ne hne, List.append_nil]
      exact h g' hg' hnot
  | @finish floor floor' g oldest newer left stale out fresh drained done rest ih =>
      have hnewer : Settled events played late lost newer := by
        intro g' hg' hnot
        by_cases hself : g' = g
        · -- the lane that is dropped: drained and done
          subst hself
          have hlane := hlanes _ List.mem_cons_self
          refine Or.inr (Or.inr ⟨hlane.done.mp done, ?_⟩)
          rw [hlane.frames, drained, List.append_nil]
        · exact h g' hg' (by simpa [hself] using hnot)
      exact ih (fun e he => hlanes e (List.mem_cons_of_mem _ he)) hnewer
  | wait =>
      rw [Option.toList_none, List.append_nil, List.append_nil]
      exact h

-- ── runs ────────────────────────────────────────────────────────────

namespace Player

/-- The groups that a move discards because they are announced too late. -/
def discards (p : Player) : Move → List Nat
  | .report e => p.upToDate.discards e
  | _ => []

theorem lt_floor_of_discards {p : Player} {m : Move} {g : Nat} (h : g ∈ p.discards m) :
    g < p.upToDate.floor := by
  cases m with
  | report e =>
      cases e with
      | group other reader =>
          simp only [discards, Schedule.discards] at h
          split at h
          · next hlow =>
            rw [List.mem_singleton.mp h]
            exact hlow
          · cases h
      | frame => cases h
      | groupDone => cases h
      | trackDone => cases h
  | read => cases h
  | setLatency => cases h

/-- The groups that a run discards. -/
def discarded : Player → List Move → List Nat
  | _, [] => []
  | p, m :: moves => p.discards m ++ (p.after m).discarded moves

theorem run_append (p : Player) (a b : List Move) : p.run (a ++ b) = (p.run a).run b :=
  List.foldl_append

theorem gaveUp_append (p : Player) (a b : List Move) :
    p.gaveUp (a ++ b) = p.gaveUp a ++ (p.run a).gaveUp b := by
  induction a generalizing p with
  | nil => rfl
  | cons m a ih =>
      show p.givesUp m ++ (p.after m).gaveUp (a ++ b) = _
      rw [ih, ← List.append_assoc]
      rfl

/-- The invariant of an open player that accounts for every group. -/
structure Accounts (p : Player) (events : List Event) (played : List OrderedFrame)
    (late lost : List Nat) : Prop where
  keeps : p.Keeps events played
  settled : Settled events played late lost p.upToDate.lanes
  below : ∀ g ∈ late ++ lost, g < p.upToDate.floor
  ended : p.upToDate.ended = (trackResults events).getLast?

theorem accounts_start (track : TrackCursor) (latency : Span) :
    (Player.start track latency).Accounts [] [] [] [] where
  keeps := keeps_start track latency
  settled _ hg := absurd hg List.not_mem_nil
  below _ hg := absurd hg List.not_mem_nil
  ended := rfl

variable {p : Player}

/-- **A move keeps the account.** -/
theorem Accounts.after (h : p.Accounts events played late lost) (m : Move)
    (hr : Reported (events ++ m.reports)) :
    (p.after m).Accounts (events ++ m.reports) (played ++ p.plays m) (late ++ p.discards m)
      (lost ++ p.givesUp m) := by
  obtain ⟨hkeeps, hfloor, -, hgave⟩ := h.keeps.after m hr
  refine ⟨hkeeps, ?_, ?_, ?_⟩
  · cases m with
    | report e =>
        rw [upToDate_report, plays_report, List.append_nil]
        show Settled _ _ _ (lost ++ []) _
        rw [List.append_nil]
        exact h.settled.apply h.keeps.2 hr
    | setLatency latency =>
        rw [upToDate_setLatency, plays_setLatency, List.append_nil]
        show Settled (events ++ []) _ (late ++ []) (lost ++ []) _
        rw [List.append_nil, List.append_nil, List.append_nil]
        exact h.settled
    | read =>
        rw [plays_read p h.keeps.1]
        show Settled (events ++ []) _ (late ++ []) _ _
        rw [List.append_nil, List.append_nil]
        exact h.settled.pass (p.pass_read h.keeps.1) h.keeps.2.lane
  · intro g hg
    simp only [List.mem_append] at hg
    rcases hg with (hlate | hnew) | (hlost | hnew)
    · exact Nat.lt_of_lt_of_le (h.below g (List.mem_append_left _ hlate)) hfloor
    · exact Nat.lt_of_lt_of_le (lt_floor_of_discards hnew) hfloor
    · exact Nat.lt_of_lt_of_le (h.below g (List.mem_append_right _ hlost)) hfloor
    · exact hgave g hnew
  · cases m with
    | report e =>
        rw [upToDate_report, ended_apply, h.ended]
        show _ = (trackResults (events ++ [e])).getLast?
        rw [trackResults_append]
        cases e with
        | trackDone result => exact List.getLast?_concat.symm
        | _ => exact congrArg List.getLast? (List.append_nil (trackResults events)).symm
    | setLatency latency =>
        rw [upToDate_setLatency]
        show _ = (trackResults (events ++ [])).getLast?
        rw [List.append_nil]
        exact h.ended
    | read =>
        rw [upToDate_read p h.keeps.1]
        show _ = (trackResults (events ++ [])).getLast?
        rw [List.append_nil]
        exact h.ended

/-- **A run keeps the account.** -/
theorem Accounts.run (h : p.Accounts events played late lost) (moves : List Move)
    (hr : Reported (events ++ reports moves)) :
    (p.run moves).Accounts (events ++ reports moves) (played ++ p.played moves)
      (late ++ p.discarded moves) (lost ++ p.gaveUp moves) := by
  induction moves generalizing p events played late lost with
  | nil =>
      show p.Accounts (events ++ []) (played ++ []) (late ++ []) (lost ++ [])
      simp only [List.append_nil]
      exact h
  | cons m moves ih =>
      rw [reports_cons, ← List.append_assoc] at hr
      have hrest := ih (h.after m hr.of_append) hr
      simp only [List.append_assoc] at hrest
      exact hrest

-- ── reads that give the end ─────────────────────────────────────────

theorem ending_ne_ok {result : Except MediaError Unit} (f : OrderedFrame) :
    ending result ≠ .ok (some f) := by
  cases result <;> simp [ending, Attempt.failure]

theorem ending_ne_pending {result : Except MediaError Unit} : ending result ≠ .pending := by
  cases result <;> simp [ending, Attempt.failure, Attempt.pending]

theorem ending_inj {a b : Except MediaError Unit} (h : ending a = ending b) : a = b := by
  cases a <;> cases b <;> simp_all [ending, Attempt.failure]

/-- What a read answers: a frame, the end if it is known and no lane is left, or that it has to wait. -/
theorem read_answer (s : Schedule) (events : List Event) :
    (∃ f, (s.read events).1 = .ok (some f)) ∨
      (∃ result, (s.read events).1 = ending result ∧ (s.applyAll events).next.1 = none ∧
        (s.applyAll events).next.2.lanes = [] ∧ (s.applyAll events).ended = some result) ∨
      (s.read events).1 = .pending := by
  rw [Schedule.read]
  split
  · exact Or.inl ⟨_, rfl⟩
  · next left hnext =>
    have hended : (s.applyAll events).ended = left.ended := by
      rw [← show (s.applyAll events).next.2 = left by rw [hnext]]
      rfl
    rw [hended]
    split
    · next hlanes hresult => exact Or.inr (Or.inl ⟨.ok (), rfl, by rw [hnext], by rw [hnext, hlanes], hresult⟩)
    · next e hlanes hresult => exact Or.inr (Or.inl ⟨.error e, rfl, by rw [hnext], by rw [hnext, hlanes], hresult⟩)
    · exact Or.inr (Or.inr rfl)

/-- A read gives the end only if nothing is left to play or to wait for. -/
theorem read_of_ending {result : Except MediaError Unit} (hopen : p.closed = false)
    (h : p.readFrame.1 = ending result) :
    p.upToDate.next.1 = none ∧ (p.after .read).upToDate.lanes = [] ∧
      p.upToDate.ended = some result := by
  rw [(p.readFrame_open hopen).1] at h
  rw [upToDate_read p hopen]
  rcases read_answer p.schedule p.events with ⟨f, hf⟩ | ⟨other, hother, hnone, hlanes, hended⟩ | hwait
  · exact absurd (h.symm.trans hf) (ending_ne_ok f)
  · obtain rfl := ending_inj (h.symm.trans hother)
    exact ⟨hnone, hlanes, hended⟩
  · exact absurd (h.symm.trans hwait) ending_ne_pending

/-- A read of a player that accounts for every group does not wait when the track has ended and each group
    is done, discarded or given up: no lane is left that something could still come for. -/
theorem Accounts.not_pending {result : Except MediaError Unit}
    (h : p.Accounts events played late lost) (hresult : (trackResults events).getLast? = some result)
    (hover : ∀ g ∈ announced events, g ∈ finished events ∨ g ∈ late ∨ g ∈ lost) :
    p.readFrame.1 ≠ .pending := by
  have hopen := h.keeps.1
  cases hnext : p.upToDate.next.1 with
  | some f =>
      have hplays := p.plays_read hopen
      rw [hnext] at hplays
      intro hwait
      rw [plays, hwait] at hplays
      cases hplays
  | none =>
      have hlanes : (p.after .read).upToDate.lanes = [] := by
        refine (p.pass_read hopen).left_of_none hnext fun e he => ?_
        have hlane := h.keeps.2.lane e he
        refine hlane.done.mpr ((hover _ hlane.announced).resolve_right fun hgone => ?_)
        have hlow := h.below e.1 (List.mem_append.mpr hgone)
        exact Nat.not_le_of_lt hlow (h.keeps.2.floor_le e he)
      rw [p.readFrame_ended hopen hnext hlanes (h.ended.trans hresult)]
      exact ending_ne_pending

-- ── after the end ───────────────────────────────────────────────────

/-- The track has ended, and no lane is left. -/
structure Over (p : Player) (result : Except MediaError Unit) : Prop where
  opened : p.closed = false
  lanes : p.upToDate.lanes = []
  ended : p.upToDate.ended = some result

theorem next_of_no_lanes {s : Schedule} (h : s.lanes = []) : s.next.1 = none ∧ s.next.2.lanes = [] := by
  rw [Schedule.next, h]
  exact ⟨rfl, rfl⟩

theorem Over.answer {result : Except MediaError Unit} (h : p.Over result) :
    p.readFrame.1 = ending result := by
  obtain ⟨hnone, hlanes⟩ := next_of_no_lanes h.lanes
  refine p.readFrame_ended h.opened hnone ?_ h.ended
  rw [upToDate_read p h.opened]
  exact hlanes

/-- **Nothing changes after the end**, as long as no group is announced. -/
theorem Over.after {result : Except MediaError Unit} (h : p.Over result) (m : Move)
    (hm : ofTrack m.reports = []) : (p.after m).Over result ∧ p.plays m = [] := by
  have hopen : (p.after m).closed = false := (p.closed_after m).trans h.opened
  cases m with
  | report e =>
      refine ⟨⟨hopen, ?_, ?_⟩, rfl⟩
      · rw [upToDate_report]
        cases e with
        | group => cases hm
        | frame g f =>
            have hfind : p.upToDate.lanes.find? g = none := by
              rw [h.lanes]
              rfl
            simp only [Schedule.apply, hfind]
            exact h.lanes
        | groupDone g =>
            simp only [Schedule.apply, h.lanes]
            rfl
        | trackDone => cases hm
      · rw [upToDate_report, ended_apply, h.ended]
        cases e with
        | trackDone => cases hm
        | _ => rfl
  | setLatency latency =>
      refine ⟨⟨hopen, ?_, ?_⟩, rfl⟩
      · rw [upToDate_setLatency]
        exact h.lanes
      · rw [upToDate_setLatency]
        exact h.ended
  | read =>
      obtain ⟨hnone, hlanes⟩ := next_of_no_lanes h.lanes
      refine ⟨⟨hopen, ?_, ?_⟩, ?_⟩
      · rw [upToDate_read p h.opened]
        exact hlanes
      · rw [upToDate_read p h.opened]
        exact h.ended
      · rw [plays_read p h.opened, hnone]
        rfl

theorem Over.run {result : Except MediaError Unit} (h : p.Over result) (moves : List Move)
    (hm : ofTrack (reports moves) = []) : (p.run moves).Over result ∧ p.played moves = [] := by
  induction moves generalizing p with
  | nil => exact ⟨h, rfl⟩
  | cons m moves ih =>
      rw [reports_cons, ofTrack_append, List.append_eq_nil_iff] at hm
      obtain ⟨hnext, hnone⟩ := h.after m hm.1
      obtain ⟨hrest, hnothing⟩ := ih hnext hm.2
      refine ⟨hrest, ?_⟩
      show p.plays m ++ (p.after m).played moves = []
      rw [hnone, hnothing]
      rfl

-- ── closing ─────────────────────────────────────────────────────────

/-- What is done with a player, closing it included. -/
inductive Action where
  | move (m : Move)
  /-- The player is closed by whoever reads from it. -/
  | close
  /-- The player is closed from elsewhere. -/
  | stop

/-- The player after an action. -/
def act (p : Player) : Action → Player
  | .move m => p.after m
  | .close => p.close
  | .stop => p.stop

/-- The player after a list of actions. -/
def perform (p : Player) (actions : List Action) : Player := actions.foldl act p

/-- The frames that an action plays. -/
def shows (p : Player) : Action → List OrderedFrame
  | .move m => p.plays m
  | _ => []

/-- The frames that a list of actions plays, in order. -/
def shown : Player → List Action → List OrderedFrame
  | _, [] => []
  | p, a :: actions => p.shows a ++ (p.act a).shown actions

theorem readFrame_closed (h : p.closed = true) : p.readFrame.1 = .ok none := by
  rw [readFrame, if_pos h]

theorem closed_act (h : p.closed = true) (a : Action) :
    (p.act a).closed = true ∧ p.shows a = [] := by
  cases a with
  | move m =>
      refine ⟨(p.closed_after m).trans h, ?_⟩
      cases m with
      | read =>
          show p.plays .read = []
          rw [plays, readFrame_closed h]
      | report => rfl
      | setLatency => rfl
  | close => exact ⟨rfl, rfl⟩
  | stop => exact ⟨rfl, rfl⟩

/-- **A closed player stays closed and plays nothing.** -/
theorem closed_perform (h : p.closed = true) (actions : List Action) :
    (p.perform actions).closed = true ∧ p.shown actions = [] := by
  induction actions generalizing p with
  | nil => exact ⟨h, rfl⟩
  | cons a actions ih =>
      obtain ⟨hclosed, hnone⟩ := closed_act h a
      obtain ⟨hrest, hnothing⟩ := ih hclosed
      refine ⟨hrest, ?_⟩
      show p.shows a ++ (p.act a).shown actions = []
      rw [hnone, hnothing]
      rfl

end Player

-- ── the end ─────────────────────────────────────────────────────────

/-- **No read waits at the end.** When the track has ended and every group is done, discarded or given up,
    a read plays a frame or gives the end. -/
theorem reads_do_not_wait_at_the_end (track : TrackCursor) (latency : Span) (moves : List Move)
    (hr : Reported (reports moves)) (hended : trackResults (reports moves) ≠ [])
    (hover : ∀ g ∈ announced (reports moves), g ∈ finished (reports moves) ∨
      g ∈ (Player.start track latency).discarded moves ∨ g ∈ (Player.start track latency).gaveUp moves) :
    ((Player.start track latency).run moves).readFrame.1 ≠ .pending := by
  have haccounts := (Player.accounts_start track latency).run moves hr
  simp only [List.nil_append] at haccounts
  exact haccounts.not_pending (List.getLast?_eq_some_getLast hended) hover

/-- **Playback ends when nothing is left.** For every history that the tasks may report, in any
    interleaving with reads and changes of the budget:

    * a read that gives an end gives the one that the track has, after every announced group was
      discarded, given up, or is done with all its frames played; and from then on every read gives the
      same end, and nothing is played;
    * after the player was closed, from here or elsewhere and at any moment, every read gives the end, and
      nothing is played. -/
theorem playback_ends_when_nothing_is_left (track : TrackCursor) (latency : Span) (moves : List Move)
    (hr : Reported (reports moves)) (hf : Followed (reports moves)) :
    (∀ before later, moves = before ++ later → ∀ result,
      ((Player.start track latency).run before).readFrame.1 = Player.ending result →
      trackResults (reports moves) = [result] ∧ announced (reports later) = [] ∧
      (∀ g ∈ announced (reports before), g ∈ (Player.start track latency).discarded before ∨
        g ∈ (Player.start track latency).gaveUp (before ++ [.read]) ∨
        g ∈ finished (reports before) ∧
          framesIn g ((Player.start track latency).played before) = framesOf g (reports before)) ∧
      ((Player.start track latency).run (before ++ .read :: later)).readFrame.1 =
        Player.ending result ∧
      ((Player.start track latency).run before).played (.read :: later) = []) ∧
    ∀ before later c, c = Player.Action.close ∨ c = Player.Action.stop →
      ((Player.start track latency).perform (before ++ c :: later)).readFrame.1 = .ok none ∧
      ((Player.start track latency).perform before).shown (c :: later) = [] := by
  constructor
  · rintro before later rfl result hend
    rw [reports_append] at hr hf
    have haccounts := (Player.accounts_start track latency).run before hr.of_append
    simp only [List.nil_append] at haccounts
    have hopen := haccounts.keeps.1
    obtain ⟨hnone, hlanes, hended⟩ := Player.read_of_ending hopen hend
    have hresult : result ∈ trackResults (reports before) :=
      List.mem_of_getLast? (haccounts.ended.symm.trans hended)
    have hlater := hf.later (mem_trackResults.mp hresult)
    have hplays : ((Player.start track latency).run before).plays .read = [] := by
      rw [Player.plays_read _ hopen, hnone]
      rfl
    have hover : (((Player.start track latency).run before).after .read).Over result := by
      refine ⟨(Player.closed_after _ _).trans hopen, hlanes, ?_⟩
      rw [Player.upToDate_read _ hopen]
      exact hended
    obtain ⟨hstays, hnothing⟩ := hover.run later hlater
    refine ⟨?_, announced_eq_nil hlater, ?_, ?_, ?_⟩
    · rw [reports_append]
      refine hf.trackResults_eq ?_
      rw [trackResults_append]
      exact List.mem_append_left _ hresult
    · intro g hg
      have hread := haccounts.after .read (by simpa [Move.reports] using hr.of_append)
      have hsettled := hread.settled
      rw [hlanes, hplays] at hsettled
      simp only [Move.reports, Player.discards, List.append_nil] at hsettled
      rw [Player.gaveUp_append]
      show _ ∨ g ∈ _ ++ (_ ++ []) ∨ _
      rw [List.append_nil]
      exact hsettled g hg List.not_mem_nil
    · rw [Player.run_append]
      exact hstays.answer
    · show ((Player.start track latency).run before).plays .read ++ _ = []
      rw [hplays, hnothing]
      rfl
  · intro before later c hc
    have hclosed : (((Player.start track latency).perform before).act c).closed = true := by
      rcases hc with rfl | rfl <;> rfl
    obtain ⟨hstays, hnothing⟩ := Player.closed_perform hclosed later
    constructor
    · refine Player.readFrame_closed ?_
      rw [Player.perform, List.foldl_append]
      exact hstays
    · show ((Player.start track latency).perform before).shows c ++ _ = []
      rw [hnothing]
      rcases hc with rfl | rfl <;> rfl

-- ── a run with every way to lose a group ────────────────────────────

/-- Group 1 is given up, group 0 comes too late, and group 2 is played to its end. -/
def overtaken : List Move :=
  stalled ++ comeback ++ [.report (.groupDone 2), .report (.trackDone (.ok ())), .read]

/-- A track that announced the groups 1, 2 and 0 and was closed. -/
def threeGroups : Store :=
  ⟨#[], #[], #[⟨[⟨0, 1⟩, ⟨1, 2⟩, ⟨2, 0⟩], some 2, some .complete⟩], #[]⟩

theorem followed_overtaken : Followed (reports overtaken) := by
  refine ⟨⟨0, ⟨"video", 0⟩, []⟩, ?_⟩
  show Follows _ [.group (GroupCursor.sequence ⟨0, 1, 0, none⟩) 0,
    .group (GroupCursor.sequence ⟨1, 2, 0, none⟩) 1, .group (GroupCursor.sequence ⟨2, 0, 0, none⟩) 2,
    .trackDone (.ok ())]
  exact .found threeGroups [] 0 rfl (.found threeGroups [] 1 rfl (.found threeGroups [] 2 rfl
    (.ended threeGroups [] rfl)))

theorem reported_overtaken : Reported (reports overtaken) := by
  refine .of_announced (by decide) (by decide) fun g hg => ?_
  have hannounced : announced (reports overtaken) = [1, 2, 0] := rfl
  simp only [hannounced, List.mem_cons, List.not_mem_nil, or_false] at hg
  rcases hg with rfl | rfl | rfl
  · exact ⟨0, ⟨0, 0, 0, none⟩, threeMedia, gives_threeMedia, ⟨_, rfl⟩⟩
  · exact ⟨1, ⟨0, 0, 0, none⟩, threeMedia, gives_threeMedia, ⟨_, rfl⟩⟩
  · exact ⟨2, ⟨0, 0, 0, none⟩, threeMedia, gives_threeMedia, ⟨_, rfl⟩⟩

/-- The end comes with one group discarded, one given up and one played, and a player that is closed in
    between plays nothing of what it has buffered. -/
theorem playback_ends_when_nothing_is_left_overtaken :
    ((Player.start ⟨0, ⟨"video", 0⟩, []⟩ ⟨5000⟩).run overtaken).readFrame.1 = .ok none ∧
      (∀ g ∈ announced (reports overtaken),
        g ∈ (Player.start ⟨0, ⟨"video", 0⟩, []⟩ ⟨5000⟩).discarded overtaken ∨
        g ∈ (Player.start ⟨0, ⟨"video", 0⟩, []⟩ ⟨5000⟩).gaveUp (overtaken ++ [.read]) ∨
        g ∈ finished (reports overtaken) ∧
          framesIn g ((Player.start ⟨0, ⟨"video", 0⟩, []⟩ ⟨5000⟩).played overtaken) =
            framesOf g (reports overtaken)) ∧
      ((Player.start ⟨0, ⟨"video", 0⟩, []⟩ ⟨5000⟩).perform
        (stalled.map .move ++ .stop :: comeback.map .move)).readFrame.1 = .ok none := by
  have hend : ((Player.start ⟨0, ⟨"video", 0⟩, []⟩ ⟨5000⟩).run overtaken).readFrame.1 = .ok none := rfl
  obtain ⟨hover, hclosed⟩ := playback_ends_when_nothing_is_left ⟨0, ⟨"video", 0⟩, []⟩ ⟨5000⟩ overtaken
    reported_overtaken followed_overtaken
  exact ⟨hend, (hover overtaken [] (List.append_nil _).symm (.ok ()) hend).2.2.1,
    (hclosed _ _ .stop (Or.inr rfl)).1⟩

end LiveMedia.Playback
