import LiveMedia.Proofs.Playback.GroupOrder
import LiveMedia.Proofs.Playback.InOrder

/-!
# Nothing is lost within the budget

When groups are announced in ascending order and the budget covers the distance of any two reported
frames, playback is the reported media and nothing else: at every moment the played frames are a prefix
of all frames, group after group (`inOrder`), and once everything was reported each further read plays
the next of them, up to the last, and then tells how the track ended.

No lane is ever stale (`Kept.not_stale`), and no announcement comes below the floor, so the two ways to
lose a frame are closed. `Complete` says what is then true of a group without a lane: all its frames were
played and no more will come. What is known of each group becomes a statement about the whole by
`prefix_of_framesIn`.
-/

namespace LiveMedia.Playback

open LiveMedia.Time LiveMedia.Live

-- ── no lane is stale ────────────────────────────────────────────────

/-- Any two reported frames lie at most the budget apart; a tick is 1000 nanoseconds. -/
def Covers (budget : Span) (events : List Event) : Prop :=
  ∀ a ∈ allFrames events, ∀ b ∈ allFrames events,
    (a.frame.timestamp.value - b.frame.timestamp.value) * 1000 ≤ budget.nanos

theorem Covers.of_append {budget : Span} {a b : List Event} (h : Covers budget (a ++ b)) :
    Covers budget a := by
  have hsub : ∀ f ∈ allFrames a, f ∈ allFrames (a ++ b) := by
    intro f hf
    rw [allFrames_append]
    exact List.mem_append_left _ hf
  exact fun x hx y hy => h x (hsub x hx) y (hsub y hy)

/-- The budgets that a run sets. -/
def budgets (moves : List Move) : List Span :=
  moves.filterMap fun
    | .setLatency latency => some latency
    | _ => none

theorem budgets_append (a b : List Move) : budgets (a ++ b) = budgets a ++ budgets b :=
  List.filterMap_append

theorem budgets_cons (m : Move) (moves : List Move) :
    budgets (m :: moves) = budgets [m] ++ budgets moves := budgets_append [m] moves

theorem budgets_reads (n : Nat) : budgets (List.replicate n .read) = [] := by
  induction n with
  | zero => rfl
  | succ n ih => exact ih

theorem reports_reads (n : Nat) : reports (List.replicate n .read) = [] := by
  induction n with
  | zero => rfl
  | succ n ih => exact ih

variable {events later : List Event} {played : List OrderedFrame} {floor floor' : Nat}
  {lanes left : Entries Lane}

/-- The newest frame is one that was reported. -/
def NewestReported (newest : Option Timestamp) (events : List Event) : Prop :=
  ∀ t, newest = some t → ∃ f ∈ allFrames events, f.frame.timestamp = t

/-- The span between two times is what the ticks between them take. -/
theorem toSpan_saturatingSub_le (a b : Timestamp) :
    (a.saturatingSub b).toSpan.nanos ≤ (a.value - b.value) * 1000 := by
  have hticks : (a.saturatingSub b).value ≤ a.value - b.value := by
    rw [Timescale.saturatingSub, Timescale.checkedSub, Timescale.ofTicks]
    by_cases hle : b.value ≤ a.value
    · rw [if_pos hle]
      rw [Wire.Varint.ofNat?]
      by_cases hmax : a.value - b.value ≤ Wire.Varint.maximum
      · rw [if_pos hmax]
        exact Nat.le_refl _
      · rw [if_neg hmax]
        exact Nat.zero_le _
    · rw [if_neg hle]
      exact Nat.zero_le _
  rw [toSpan_eq]
  exact Nat.mul_le_mul_right 1000 hticks

/-- A lane is measured by the time of a frame that was reported. -/
theorem Kept.reference_reported {g : Nat} {oldest : Lane} {newer : Entries Lane} {t : Timestamp}
    (h : Kept events played floor ((g, oldest) :: newer))
    (ht : Schedule.reference oldest newer = some t) :
    ∃ f ∈ allFrames events, f.frame.timestamp = t := by
  have hbuffered : ∀ e ∈ (g, oldest) :: newer, ∀ f ∈ e.2.buffered, ⟨e.1, f⟩ ∈ allFrames events := by
    intro e he f hf
    refine mem_framesIn.mp ?_
    show f ∈ framesOf e.1 events
    rw [(h.lane e he).frames]
    exact List.mem_append_right _ hf
  rw [Schedule.reference] at ht
  split at ht
  · next f rest hb =>
    refine ⟨_, hbuffered (g, oldest) List.mem_cons_self f ?_, Option.some.inj ht⟩
    rw [hb]
    exact List.mem_cons_self
  · next last hb hlast =>
    -- the last frame that was played was reported before
    obtain rfl := Option.some.inj ht
    have hlane := (h.lane (g, oldest) List.mem_cons_self).last
    rw [hlast] at hlane
    obtain ⟨f, hf, hft⟩ := Option.map_eq_some_iff.mp hlane.symm
    exact ⟨⟨g, f⟩, mem_framesIn.mp ((h.played_begins g).subset (List.mem_of_getLast? hf)), hft⟩
  · obtain ⟨e, he, hhead⟩ := List.exists_of_findSome?_eq_some ht
    obtain ⟨f, hf, hft⟩ := Option.map_eq_some_iff.mp hhead
    exact ⟨_, hbuffered e (List.mem_cons_of_mem _ he) f (List.mem_of_mem_head? hf), hft⟩

theorem Kept.not_stale {latency : Span} {newest : Option Timestamp} {g : Nat} {oldest : Lane}
    {newer : Entries Lane} (h : Kept events played floor ((g, oldest) :: newer))
    (hn : NewestReported newest events) (hc : Covers latency events) :
    Schedule.isStale latency newest oldest newer = false := by
  cases hs : Schedule.isStale latency newest oldest newer with
  | false => rfl
  | true =>
      obtain ⟨n, r, hnewest, href, hlag⟩ := Schedule.isStale_elim hs
      obtain ⟨a, ha, rfl⟩ := hn n hnewest
      obtain ⟨b, hb, rfl⟩ := h.reference_reported href
      have h1 := toSpan_saturatingSub_le a.frame.timestamp b.frame.timestamp
      have h2 := hc a ha b hb
      exact absurd (Nat.le_trans h1 h2) (Nat.not_le_of_lt hlag)

-- ── groups without a lane ───────────────────────────────────────────

/-- A group that was announced and has no lane is over: all its frames were played, and it is done. The
    floor is a group that was announced, unless nothing was played. -/
structure Complete (events : List Event) (played : List OrderedFrame) (floor : Nat)
    (lanes : Entries Lane) : Prop where
  settled : ∀ g ∈ announced events, g ∉ lanes.map Prod.fst →
    framesIn g played = framesOf g events ∧ g ∈ finished events
  floor : floor = 0 ∨ floor ∈ announced events

/-- A group that gets no frame and loses no lane stays over. -/
theorem Complete.settled_snoc {g : Nat} {e : Event} (h : Complete events played floor lanes)
    (hg : g ∈ announced events) (hlane : g ∉ lanes.map Prod.fst) (hframes : framesOf g [e] = []) :
    framesIn g played = framesOf g (events ++ [e]) ∧ g ∈ finished (events ++ [e]) := by
  obtain ⟨hplayed, hdone⟩ := h.settled g hg hlane
  rw [framesOf_append, hframes, List.append_nil, finished_append]
  exact ⟨hplayed, List.mem_append_left _ hdone⟩

theorem Complete.floor_snoc (h : Complete events played floor lanes) (e : Event) :
    floor = 0 ∨ floor ∈ announced (events ++ [e]) := by
  rw [announced_append]
  exact h.floor.imp_right (List.mem_append_left _)

/-- **A report completes nothing too early**: announcements in ascending order are never below the
    floor, and the frame of a group that is announced and not done finds a lane. -/
theorem Complete.apply {s : Schedule} {e : Event} (h : Complete events played s.floor s.lanes)
    (hk : Kept events played s.floor s.lanes) (hr : Reported (events ++ [e]))
    (ha : (announced (events ++ [e])).Pairwise (· < ·)) :
    Complete (events ++ [e]) played (s.apply e).floor (s.apply e).lanes := by
  cases e with
  | group g reader =>
      have hhigh : s.floor ≤ g := by
        rcases h.floor with h0 | hfloor
        · rw [h0]
          exact Nat.zero_le g
        · rw [announced_append] at ha
          exact Nat.le_of_lt ((List.pairwise_append.mp ha).2.2 _ hfloor g (List.mem_singleton_self g))
      simp only [Schedule.apply]
      rw [if_neg (Nat.not_lt_of_le hhigh)]
      refine ⟨?_, h.floor_snoc _⟩
      intro g' hg' hlane
      have hnot : ¬ (g' = g ∨ g' ∈ s.lanes.map Prod.fst) :=
        fun hin => hlane ((Entries.mem_map_fst_insert hk.ascending).mpr hin)
      rw [announced_append, List.mem_append] at hg'
      have hold : g' ∈ announced events :=
        hg'.resolve_right fun heq => hnot (Or.inl (List.mem_singleton.mp heq))
      exact h.settled_snoc hold (fun hin => hnot (Or.inr hin)) rfl
  | frame g f =>
      obtain ⟨hann, hlive⟩ := hr.live_of_frame
      have hlane : g ∈ s.lanes.map Prod.fst := by
        refine Decidable.byContradiction fun hnot => ?_
        exact hlive (h.settled g hann hnot).2
      have hkeys : (s.apply (.frame g f)).lanes.map Prod.fst = s.lanes.map Prod.fst := by
        simp only [Schedule.apply]
        cases s.lanes.find? g with
        | none => rfl
        | some lane => exact Entries.map_fst_modify _ _ _
      rw [floor_apply]
      refine ⟨?_, h.floor_snoc _⟩
      rw [hkeys]
      intro g' hg' hnot
      have hne : g ≠ g' := by
        rintro rfl
        exact hnot hlane
      rw [announced_append] at hg'
      exact h.settled_snoc (by simpa [announced, Event.announces?] using hg') hnot
        (framesOf_frame_of_ne hne f)
  | groupDone g =>
      refine ⟨?_, h.floor_snoc _⟩
      intro g' hg' hnot
      rw [announced_append] at hg'
      refine h.settled_snoc (by simpa [announced, Event.announces?] using hg') ?_ rfl
      simpa [Schedule.apply] using hnot
  | trackDone result =>
      refine ⟨?_, h.floor_snoc _⟩
      intro g' hg' hnot
      rw [announced_append] at hg'
      exact h.settled_snoc (by simpa [announced, Event.announces?] using hg') hnot rfl

/-- **A pass within the budget drops a lane only when its group is over.** -/
theorem Complete.pass {latency : Span} {newest : Option Timestamp} {lost : List Nat}
    {out : Option OrderedFrame}
    (hp : Schedule.Pass latency newest floor lanes lost out floor' left)
    (h : Complete events played floor lanes) (hk : Kept events played floor lanes)
    (hn : NewestReported newest events) (hc : Covers latency events) :
    Complete events (played ++ out.toList) floor' left := by
  induction hp with
  | empty => simpa using h
  | skip stale _ _ =>
      rw [hk.not_stale hn hc] at stale
      exact Bool.noConfusion stale
  | @play floor g oldest newer f rest fresh waiting =>
      have hlane := hk.lane _ List.mem_cons_self
      have hmax : max floor g = g := Nat.max_eq_right (hk.floor_le _ List.mem_cons_self)
      rw [hmax]
      refine ⟨?_, Or.inr hlane.announced⟩
      intro g' hg' hnot
      have hne : g ≠ g' := by
        rintro rfl
        exact hnot List.mem_cons_self
      show framesIn g' (played ++ [⟨g, f⟩]) = _ ∧ _
      rw [framesIn_append, framesIn_of_ne hne, List.append_nil]
      exact h.settled g' hg' hnot
  | @finish floor floor' g oldest newer left lost out fresh drained done rest ih =>
      have hlane := hk.lane _ List.mem_cons_self
      refine ih ⟨?_, h.floor⟩
        (hk.tail (Nat.le_refl _) fun e he => hk.floor_le e (List.mem_cons_of_mem _ he))
      intro g' hg' hnot
      by_cases hg : g' = g
      · -- the lane that is dropped: drained and done
        subst hg
        refine ⟨?_, hlane.done.mp done⟩
        rw [hlane.frames, drained, List.append_nil]
      · exact h.settled g' hg' (by simpa [hg] using hnot)
  | wait => simpa using h

-- ── what has been played ────────────────────────────────────────────

/-- Everything that is true of a schedule that loses nothing. -/
structure Whole (events : List Event) (played : List OrderedFrame) (s : Schedule) : Prop where
  kept : Kept events played s.floor s.lanes
  complete : Complete events played s.floor s.lanes
  newest : NewestReported s.newest events
  ended : s.ended = (trackResults events).getLast?

/-- **What was played is a prefix of all frames**, also of those that are reported later. -/
theorem Whole.played_begins {s : Schedule} (h : Whole events played s)
    (hr : Reported (events ++ later)) (ha : (announced (events ++ later)).Pairwise (· < ·)) :
    played <+: inOrder (events ++ later) := by
  have hof : ∀ g, framesOf g events <+: framesOf g (events ++ later) := by
    intro g
    rw [framesOf_append]
    exact List.prefix_append _ _
  refine prefix_of_framesIn h.kept.ordered (byGroup_inOrder ha) ?_ ?_
  · intro g
    rw [framesIn_inOrder hr ha]
    exact (h.kept.played_begins g).trans (hof g)
  · intro g g' hlt hne
    rw [framesIn_inOrder hr ha]
    -- something of a later group was played, so this group has no lane any more
    obtain ⟨f, hf⟩ := List.exists_mem_of_ne_nil _ hne
    have hfloor : g < s.floor := Nat.lt_of_lt_of_le hlt (h.kept.played_le _ (mem_framesIn.mp hf))
    have hnot : g ∉ s.lanes.map Prod.fst := by
      intro hg
      obtain ⟨e, he, rfl⟩ := List.mem_map.mp hg
      exact Nat.not_le_of_lt hfloor (h.kept.floor_le e he)
    by_cases hg : g ∈ announced events
    · obtain ⟨hplayed, hdone⟩ := h.complete.settled g hg hnot
      rw [hplayed, hr.framesOf_finished hdone]
    · -- it was not announced so far, and after a larger one it never is
      have hg' : g' ∈ announced events :=
        hr.of_append.announced_of_frame (mem_framesIn.mp ((h.kept.played_begins g').subset hf))
      have hnever : g ∉ announced (events ++ later) := by
        rw [announced_append] at ha ⊢
        intro hmem
        have hlater := (List.mem_append.mp hmem).resolve_left hg
        exact Nat.lt_asymm hlt ((List.pairwise_append.mp ha).2.2 g' hg' g hlater)
      have hnil : framesOf g (events ++ later) = [] :=
        List.eq_nil_iff_forall_not_mem.mpr fun f' hf' =>
          hnever (hr.announced_of_frame (mem_framesIn.mp hf'))
      have hbegins := (h.kept.played_begins g).trans (hof g)
      rw [hnil] at hbegins ⊢
      exact List.prefix_nil.mp hbegins

/-- Without lanes everything was played. -/
theorem Whole.played_eq {s : Schedule} (h : Whole events played s) (hr : Reported events)
    (ha : (announced events).Pairwise (· < ·)) (hlanes : s.lanes = []) : played = inOrder events := by
  refine eq_of_framesIn h.kept.ordered (byGroup_inOrder ha) fun g => ?_
  rw [framesIn_inOrder hr ha]
  by_cases hg : g ∈ announced events
  · exact (h.complete.settled g hg (by simp [hlanes])).1
  · have hnil : framesOf g events = [] :=
      List.eq_nil_iff_forall_not_mem.mpr fun f hf => hg (hr.announced_of_frame (mem_framesIn.mp hf))
    have hbegins := h.kept.played_begins g
    rw [hnil] at hbegins ⊢
    exact List.prefix_nil.mp hbegins

-- ── reports and reads ───────────────────────────────────────────────

theorem Whole.start (latency : Span) : Whole [] [] (Schedule.start latency) where
  kept := Kept.start latency
  complete := ⟨by simp [announced], Or.inl rfl⟩
  newest := by simp [NewestReported, Schedule.start]
  ended := rfl

/-- The newest frame is one that was reported, also after a further report. -/
theorem NewestReported.apply {s : Schedule} (h : NewestReported s.newest events) (e : Event) :
    NewestReported (s.apply e).newest (events ++ [e]) := by
  have hold : NewestReported s.newest (events ++ [e]) := by
    intro t ht
    obtain ⟨f, hf, hft⟩ := h t ht
    rw [allFrames_append]
    exact ⟨f, List.mem_append_left _ hf, hft⟩
  cases e with
  | group g reader =>
      simp only [Schedule.apply]
      split
      · exact hold
      · exact hold
  | frame g f =>
      simp only [Schedule.apply]
      cases s.lanes.find? g with
      | none => exact hold
      | some lane =>
          have hnew : ∃ f' ∈ allFrames (events ++ [.frame g f]), f'.frame.timestamp = f.timestamp := by
            rw [allFrames_append]
            exact ⟨⟨g, f⟩, List.mem_append_right _ (List.mem_singleton_self _), rfl⟩
          intro t ht
          obtain rfl := Option.some.inj ht
          cases hn : s.newest with
          | none => exact hnew
          | some n =>
              show ∃ f' ∈ allFrames _, f'.frame.timestamp = n.latest f.timestamp
              rcases latest_eq n f.timestamp with heq | heq
              · rw [heq]
                exact hold n hn
              · rw [heq]
                exact hnew
  | groupDone g => exact hold
  | trackDone result => exact hold

/-- The end of the track is told by the last report of it. -/
theorem ended_apply (s : Schedule) (e : Event) :
    (s.apply e).ended = e.trackResult?.or s.ended := by
  cases e with
  | group g reader =>
      simp only [Schedule.apply]
      split <;> rfl
  | frame g f =>
      simp only [Schedule.apply]
      cases s.lanes.find? g <;> rfl
  | groupDone g => rfl
  | trackDone result => rfl

theorem Whole.apply {s : Schedule} {e : Event} (h : Whole events played s)
    (hr : Reported (events ++ [e])) (ha : (announced (events ++ [e])).Pairwise (· < ·)) :
    Whole (events ++ [e]) played (s.apply e) where
  kept := h.kept.apply hr
  complete := h.complete.apply h.kept hr ha
  newest := h.newest.apply e
  ended := by
    rw [ended_apply, h.ended, trackResults_append]
    cases e with
    | trackDone result => exact List.getLast?_concat.symm
    | _ => exact congrArg List.getLast? (List.append_nil (trackResults events)).symm

theorem Whole.next {s : Schedule} (h : Whole events played s) (hr : Reported events)
    (hc : Covers s.latency events) : Whole events (played ++ s.next.1.toList) s.next.2 where
  kept := (h.kept.pass (Schedule.pass_advance _ _ _ _) hr.word).1
  complete := h.complete.pass (Schedule.pass_advance _ _ _ _) h.kept h.newest hc
  newest := h.newest
  ended := h.ended

-- ── runs ────────────────────────────────────────────────────────────

namespace Player

/-- The invariant of an open player that lost nothing of what its tasks reported. -/
def Intact (p : Player) (events : List Event) (played : List OrderedFrame) : Prop :=
  p.closed = false ∧ Whole events played p.upToDate

variable {p : Player}

/-- **A move keeps the invariant** when the budget covers what was reported. -/
theorem Intact.after (h : p.Intact events played) (m : Move) (hr : Reported (events ++ m.reports))
    (ha : (announced (events ++ m.reports)).Pairwise (· < ·))
    (hc : Covers p.upToDate.latency events) :
    (p.after m).Intact (events ++ m.reports) (played ++ p.plays m) := by
  obtain ⟨hopen, hwhole⟩ := h
  refine ⟨(p.closed_after m).trans hopen, ?_⟩
  cases m with
  | report e =>
      rw [upToDate_report, plays_report, List.append_nil]
      exact hwhole.apply hr ha
  | setLatency latency =>
      rw [upToDate_setLatency, plays_setLatency, List.append_nil]
      show Whole (events ++ []) played { p.upToDate with latency }
      rw [List.append_nil]
      exact ⟨hwhole.kept, hwhole.complete, hwhole.newest, hwhole.ended⟩
  | read =>
      rw [upToDate_read p hopen, plays_read p hopen]
      show Whole (events ++ []) _ _
      rw [List.append_nil]
      exact hwhole.next hr.of_append hc

/-- The budget after a move is the one from before or one that the move sets. -/
theorem latency_after (p : Player) (hopen : p.closed = false) (m : Move) :
    (p.after m).upToDate.latency ∈ p.upToDate.latency :: budgets [m] := by
  cases m with
  | report e =>
      rw [upToDate_report]
      have hsame := congrArg Schedule.latency (applyAll_latency [e] p.upToDate p.upToDate.latency)
      exact List.mem_cons.mpr (Or.inl hsame)
  | setLatency latency =>
      rw [upToDate_setLatency]
      exact List.mem_cons_of_mem _ List.mem_cons_self
  | read =>
      rw [upToDate_read p hopen]
      exact List.mem_cons_self

theorem latency_run (p : Player) (hopen : p.closed = false) (moves : List Move) :
    (p.run moves).upToDate.latency ∈ p.upToDate.latency :: budgets moves := by
  induction moves generalizing p with
  | nil => exact List.mem_cons_self
  | cons m moves ih =>
      rw [run_cons, budgets_cons, ← List.cons_append]
      rcases List.mem_cons.mp (ih (p.after m) ((p.closed_after m).trans hopen)) with heq | hmem
      · rw [heq]
        exact List.mem_append_left _ (p.latency_after hopen m)
      · exact List.mem_append_right _ hmem

theorem Intact.run (h : p.Intact events played) (moves : List Move)
    (hr : Reported (events ++ reports moves))
    (ha : (announced (events ++ reports moves)).Pairwise (· < ·))
    (hc : ∀ budget ∈ p.upToDate.latency :: budgets moves, Covers budget (events ++ reports moves)) :
    (p.run moves).Intact (events ++ reports moves) (played ++ p.played moves) := by
  induction moves generalizing p events played with
  | nil =>
      rw [run_nil, reports_nil, List.append_nil]
      show p.Intact events (played ++ [])
      rw [List.append_nil]
      exact h
  | cons m moves ih =>
      have hnow : Covers p.upToDate.latency events := (hc _ List.mem_cons_self).of_append
      rw [reports_cons, ← List.append_assoc] at hr ha hc
      have ham : (announced (events ++ m.reports)).Pairwise (· < ·) := by
        rw [announced_append] at ha
        exact (List.pairwise_append.mp ha).1
      have hm := h.after m hr.of_append ham hnow
      have hsplit : played ++ p.played (m :: moves) =
          played ++ p.plays m ++ (p.after m).played moves := (List.append_assoc _ _ _).symm
      rw [run_cons, reports_cons, ← List.append_assoc, hsplit]
      refine ih hm hr ha fun budget hb => hc budget ?_
      rw [budgets_cons, ← List.cons_append]
      rcases List.mem_cons.mp hb with rfl | hb
      · exact List.mem_append_left _ (p.latency_after h.1 m)
      · exact List.mem_append_right _ hb

-- ── the end ─────────────────────────────────────────────────────────

theorem Intact.after_read (h : p.Intact events played) (hr : Reported events)
    (ha : (announced events).Pairwise (· < ·)) (hc : Covers p.upToDate.latency events) :
    (p.after .read).Intact events (played ++ p.plays .read) := by
  have hsame : events ++ Move.reports .read = events := List.append_nil events
  have hafter := h.after .read (hsame.symm ▸ hr) (hsame.symm ▸ ha) hc
  rw [hsame] at hafter
  exact hafter

theorem Intact.played_begins (h : p.Intact events played) (hr : Reported events)
    (ha : (announced events).Pairwise (· < ·)) : played <+: inOrder events := by
  have hsame : events ++ [] = events := List.append_nil events
  have hbegins := h.2.played_begins (hsame.symm ▸ hr) (hsame.symm ▸ ha)
  rw [hsame] at hbegins
  exact hbegins

/-- A read when everything was reported plays a frame, or everything was played and the read tells how
    the track ended. -/
theorem Intact.read_finished {result : Except MediaError Unit} (h : p.Intact events played)
    (hr : Reported events) (ha : (announced events).Pairwise (· < ·))
    (hc : Covers p.upToDate.latency events) (hend : (trackResults events).getLast? = some result)
    (hdone : ∀ g ∈ announced events, g ∈ finished events) :
    (∃ f, p.plays .read = [f]) ∨
      p.plays .read = [] ∧ played = inOrder events ∧ p.readFrame.1 = ending result := by
  obtain ⟨hopen, hwhole⟩ := h
  rw [plays_read p hopen]
  cases hnext : p.upToDate.next.1 with
  | some f => exact Or.inl ⟨f, rfl⟩
  | none =>
      have hlanes : (p.after .read).upToDate.lanes = [] := by
        refine (p.pass_read hopen).left_of_none hnext fun e he => ?_
        have hlane := hwhole.kept.lane e he
        exact hlane.done.mpr (hdone _ hlane.announced)
      have hplayed : played = inOrder events := by
        have hafter := hwhole.next hr hc
        rw [hnext, Option.toList_none, List.append_nil] at hafter
        rw [upToDate_read p hopen] at hlanes
        exact hafter.played_eq hr ha hlanes
      exact Or.inr ⟨rfl, hplayed, p.readFrame_ended hopen hnext hlanes (hwhole.ended.trans hend)⟩

/-- Once everything was reported, each read plays the next of all frames. -/
theorem Intact.played_reads {result : Except MediaError Unit} (h : p.Intact events played)
    (hr : Reported events) (ha : (announced events).Pairwise (· < ·))
    (hc : Covers p.upToDate.latency events) (hend : (trackResults events).getLast? = some result)
    (hdone : ∀ g ∈ announced events, g ∈ finished events) (n : Nat) :
    played ++ p.played (List.replicate n .read) = (inOrder events).take (played.length + n) := by
  induction n generalizing p played with
  | zero =>
      show played ++ [] = _
      rw [List.append_nil]
      exact List.prefix_iff_eq_take.mp (h.played_begins hr ha)
  | succ n ih =>
      have hafter := h.after_read hr ha hc
      have hbudget : (p.after .read).upToDate.latency = p.upToDate.latency := by
        simpa [budgets] using p.latency_after h.1 .read
      have hih := ih hafter (hbudget ▸ hc)
      show played ++ (p.plays .read ++ (p.after .read).played (List.replicate n .read)) = _
      rw [← List.append_assoc, hih, List.length_append]
      rcases h.read_finished hr ha hc hend hdone with ⟨f, hf⟩ | ⟨hnone, hall, -⟩
      · rw [hf, List.length_singleton]
        congr 1
        omega
      · -- nothing is left to play
        rw [hnone, List.length_nil, hall, List.take_of_length_le (by omega),
          List.take_of_length_le (by omega)]

/-- Behind the last frame, a read tells how the track ended: a further frame would be one more than
    there are. -/
theorem Intact.readFrame_last {result : Except MediaError Unit} (h : p.Intact events (inOrder events))
    (hr : Reported events) (ha : (announced events).Pairwise (· < ·))
    (hc : Covers p.upToDate.latency events) (hend : (trackResults events).getLast? = some result)
    (hdone : ∀ g ∈ announced events, g ∈ finished events) : p.readFrame.1 = ending result := by
  rcases h.read_finished hr ha hc hend hdone with ⟨f, hf⟩ | ⟨-, -, hanswer⟩
  · have hlen := ((h.after_read hr ha hc).played_begins hr ha).length_le
    rw [hf, List.length_append, List.length_singleton] at hlen
    exact absurd hlen (Nat.not_succ_le_self _)
  · exact hanswer

end Player

/-- **Nothing is lost within the budget.** Whenever groups are announced in ascending order, and every
    budget of the run covers the distance of any two frames that are ever reported, then for every
    interleaving of reports and reads:

    * at every moment the played frames are a prefix of all frames, group after group;
    * once the track and all its groups were reported as done, `n` reads play the next `n` of these
      frames, and the read behind the last frame tells how the track ended. -/
theorem plays_everything_within_budget (track : TrackCursor) (latency : Span) (moves : List Move)
    (hr : Reported (reports moves)) (ha : (announced (reports moves)).Pairwise (· < ·))
    (hc : ∀ budget ∈ latency :: budgets moves, Covers budget (reports moves)) :
    (∀ before later, moves = before ++ later →
      (Player.start track latency).played before <+: inOrder (reports moves)) ∧
    ∀ result, (trackResults (reports moves)).getLast? = some result →
      (∀ g ∈ announced (reports moves), g ∈ finished (reports moves)) →
      ∀ n, (Player.start track latency).played (moves ++ List.replicate n .read) =
          (inOrder (reports moves)).take (((Player.start track latency).played moves).length + n) ∧
        ((inOrder (reports moves)).length ≤ ((Player.start track latency).played moves).length + n →
          ((Player.start track latency).run (moves ++ List.replicate n .read)).readFrame.1 =
            Player.ending result) := by
  have hstart : (Player.start track latency).Intact [] [] := ⟨rfl, Whole.start latency⟩
  constructor
  · rintro before later rfl
    rw [reports_append] at hr ha hc ⊢
    have hbefore : (announced (reports before)).Pairwise (· < ·) := by
      rw [announced_append] at ha
      exact (List.pairwise_append.mp ha).1
    have hmid := hstart.run before hr.of_append hbefore fun budget hb => by
      refine (hc budget ?_).of_append
      rw [budgets_append, ← List.cons_append]
      exact List.mem_append_left _ hb
    exact hmid.2.played_begins hr ha
  · intro result hend hdone n
    have hreports : reports (moves ++ List.replicate n .read) = reports moves := by
      rw [reports_append, reports_reads, List.append_nil]
    have hbudgets : budgets (moves ++ List.replicate n .read) = budgets moves := by
      rw [budgets_append, budgets_reads, List.append_nil]
    have hcovers : ∀ rest, budgets rest = budgets moves →
        Covers ((Player.start track latency).run rest).upToDate.latency (reports moves) := by
      intro rest hrest
      exact hc _ (hrest ▸ Player.latency_run (Player.start track latency) rfl rest)
    have hreported := hstart.run moves hr ha hc
    have hall : (Player.start track latency).played (moves ++ List.replicate n .read) =
        (inOrder (reports moves)).take (((Player.start track latency).played moves).length + n) := by
      rw [Player.played_append]
      exact hreported.played_reads hr ha (hcovers moves rfl) hend hdone n
    refine ⟨hall, fun hlen => ?_⟩
    have hlast := hstart.run (moves ++ List.replicate n .read) (by rwa [hreports])
      (by rwa [hreports]) (by rwa [hreports, hbudgets])
    rw [hreports, List.nil_append, List.nil_append, hall, List.take_of_length_le hlen] at hlast
    exact hlast.readFrame_last hr ha (hcovers _ hbudgets) hend hdone

-- ── a run that waits for its groups ─────────────────────────────────

/-- Group 2 is read ahead of group 1 and then aborted, and group 3 is empty. -/
def interleaved : List Move :=
  [.report (.group 1 0), .report (.group 2 1), .report (.frame 2 ⟨⟨⟨0⟩⟩, true, []⟩), .read,
    .report (.frame 1 ⟨⟨⟨0⟩⟩, true, []⟩), .read, .report (.groupDone 2), .report (.group 3 2),
    .report (.frame 1 ⟨⟨⟨1⟩⟩, false, []⟩), .report (.groupDone 3),
    .report (.frame 1 ⟨⟨⟨2⟩⟩, false, []⟩), .report (.groupDone 1), .report (.trackDone (.ok ()))]

theorem reported_interleaved : Reported (reports interleaved) := by
  refine .of_announced (by decide) (by decide) fun g hg => ?_
  have hannounced : announced (reports interleaved) = [1, 2, 3] := rfl
  simp only [hannounced, List.mem_cons, List.not_mem_nil, or_false] at hg
  rcases hg with rfl | rfl | rfl
  · exact ⟨0, ⟨0, 0, 0, none⟩, threeMedia, gives_threeMedia, ⟨_, rfl⟩⟩
  · exact ⟨1, ⟨0, 0, 0, none⟩, [⟨⟨⟨0⟩⟩, true, []⟩], .frame threeFrames [] rfl (.stop _), ⟨_, rfl⟩⟩
  · exact ⟨2, ⟨0, 0, 0, none⟩, [], .stop _, ⟨_, rfl⟩⟩

theorem covers_interleaved : Covers ⟨2000⟩ (reports interleaved) := by
  rw [Covers]
  decide

/-- All four frames are played, and then comes the end of the track. -/
theorem plays_everything_within_budget_interleaved :
    (Player.start ⟨0, ⟨"video", 0⟩, []⟩ ⟨2000⟩).played (interleaved ++ List.replicate 3 .read) =
        [⟨1, ⟨⟨⟨0⟩⟩, true, []⟩⟩, ⟨1, ⟨⟨⟨1⟩⟩, false, []⟩⟩, ⟨1, ⟨⟨⟨2⟩⟩, false, []⟩⟩,
          ⟨2, ⟨⟨⟨0⟩⟩, true, []⟩⟩] ∧
      ((Player.start ⟨0, ⟨"video", 0⟩, []⟩ ⟨2000⟩).run
        (interleaved ++ List.replicate 3 .read)).readFrame.1 = .ok none := by
  have hall := (plays_everything_within_budget ⟨0, ⟨"video", 0⟩, []⟩ ⟨2000⟩ interleaved
    reported_interleaved (by decide) (by simpa [budgets, interleaved] using covers_interleaved)).2
      (.ok ()) rfl (by decide) 3
  exact ⟨hall.1, hall.2 (by decide)⟩

end LiveMedia.Playback
