import LiveMedia.Proofs.Playback.Reachable

/-!
# Which group is given up

The policy of playback, said without the code that follows it. Of all lanes only the oldest is looked at.
It is measured by the time of its next frame, else of the last one it played, else of the first frame that
waits in a newer lane (`MeasuredBy`), and it is overdue when there is a newer lane and that time lies more
than the budget behind the newest one (`Overdue`). A lane that is overdue is given up; of any other one the
next frame is played, or it is dropped because it is finished, or it is waited for. `Turn` is one such
decision, and `Turns` goes on until a frame is played or there is nothing to play.

No schedule leaves a choice (`Turns.unique`). `Pass.turns` says that a pass over the lanes makes exactly
these turns on every schedule that events, reads and changes of the budget lead to. The distance of two
times of such a schedule is a time again, so nothing is cut off where the budget is compared with it
(`toSpan_saturatingSub`).
-/

namespace LiveMedia.Playback

open LiveMedia.Time LiveMedia.Live LiveMedia.Wire

-- ── the policy ──────────────────────────────────────────────────────

/-- How far a time lies behind the newest one. A tick is 1000 nanoseconds. -/
def lag (newest t : Timestamp) : Span := ⟨(newest.value - t.value) * 1000⟩

/-- The time that the oldest lane is measured by, if there is one. -/
inductive MeasuredBy (oldest : Lane) (newer : Entries Lane) : Timestamp → Prop where
  | next {f : MediaFrame} {rest : List MediaFrame} :
      oldest.buffered = f :: rest → MeasuredBy oldest newer f.timestamp
  | last {t : Timestamp} :
      oldest.buffered = [] → oldest.last = some t → MeasuredBy oldest newer t
  /-- Nothing was ever read from the lane: the first frame of the oldest newer lane that has one. -/
  | newer {before after : Entries Lane} {g : Nat} {lane : Lane} {f : MediaFrame}
      {rest : List MediaFrame} :
      oldest.buffered = [] → oldest.last = none → newer = before ++ (g, lane) :: after →
      (∀ e ∈ before, e.2.buffered = []) → lane.buffered = f :: rest →
      MeasuredBy oldest newer f.timestamp

namespace Schedule

/-- The lane of the smallest number, and the other lanes. -/
structure Oldest (s : Schedule) (g : Nat) (oldest : Lane) (newer : Entries Lane) : Prop where
  lanes_eq : s.lanes = (g, oldest) :: newer
  smallest : ∀ e ∈ newer, g < e.1

/-- The oldest lane lies more than the budget behind the newest frame, and there is a newer lane. -/
def Overdue (s : Schedule) (oldest : Lane) (newer : Entries Lane) : Prop :=
  newer ≠ [] ∧ ∃ newest t, s.newest = some newest ∧ MeasuredBy oldest newer t ∧
    s.latency < lag newest t

end Schedule

/-- What is decided in one turn. -/
inductive Decision where
  | giveUp (g : Nat)
  | play (f : OrderedFrame)
  /-- The lane is dropped because its group is over. -/
  | finish (g : Nat)
  /-- There is nothing to play now. -/
  | wait
deriving DecidableEq, Repr

/-- One turn: what is decided, and the schedule behind it. -/
inductive Turn (s : Schedule) : Decision → Schedule → Prop where
  | giveUp {g : Nat} {oldest : Lane} {newer : Entries Lane} :
      s.Oldest g oldest newer → s.Overdue oldest newer →
      Turn s (.giveUp g) { s with floor := max s.floor (g + 1), lanes := newer }
  | play {g : Nat} {oldest : Lane} {newer : Entries Lane} {f : MediaFrame} {rest : List MediaFrame} :
      s.Oldest g oldest newer → ¬ s.Overdue oldest newer → oldest.buffered = f :: rest →
      Turn s (.play ⟨g, f⟩)
        { s with floor := max s.floor g, lanes := (g, oldest.play f rest) :: newer }
  | finish {g : Nat} {oldest : Lane} {newer : Entries Lane} :
      s.Oldest g oldest newer → ¬ s.Overdue oldest newer → oldest.buffered = [] →
      oldest.done = true → Turn s (.finish g) { s with lanes := newer }
  | wait {g : Nat} {oldest : Lane} {newer : Entries Lane} :
      s.Oldest g oldest newer → ¬ s.Overdue oldest newer → oldest.buffered = [] →
      oldest.done = false → Turn s .wait s
  | idle : s.lanes = [] → Turn s .wait s

/-- Turns until a frame is played or there is nothing to play: the decisions, and what comes of them. -/
inductive Turns : Schedule → List Decision → Option OrderedFrame → Schedule → Prop where
  | play {s s' : Schedule} {f : OrderedFrame} : Turn s (.play f) s' → Turns s [.play f] (some f) s'
  | wait {s s' : Schedule} : Turn s .wait s' → Turns s [.wait] none s'
  | giveUp {s s' s'' : Schedule} {g : Nat} {ds : List Decision} {out : Option OrderedFrame} :
      Turn s (.giveUp g) s' → Turns s' ds out s'' → Turns s (.giveUp g :: ds) out s''
  | finish {s s' s'' : Schedule} {g : Nat} {ds : List Decision} {out : Option OrderedFrame} :
      Turn s (.finish g) s' → Turns s' ds out s'' → Turns s (.finish g :: ds) out s''

-- ── there is no choice ──────────────────────────────────────────────

section Choice

variable {s t t' : Schedule} {d d' : Decision} {ds ds' : List Decision} {out out' : Option OrderedFrame}

theorem Schedule.Oldest.unique {g g' : Nat} {lane lane' : Lane} {newer newer' : Entries Lane}
    (h : s.Oldest g lane newer) (h' : s.Oldest g' lane' newer') :
    g' = g ∧ lane' = lane ∧ newer' = newer := by
  obtain ⟨hhead, hrest⟩ := List.cons.inj (h'.lanes_eq.symm.trans h.lanes_eq)
  obtain ⟨hg, hlane⟩ := Prod.mk.inj hhead
  exact ⟨hg, hlane, hrest⟩

theorem Schedule.Oldest.ne_nil {g : Nat} {lane : Lane} {newer : Entries Lane}
    (h : s.Oldest g lane newer) : s.lanes ≠ [] := by
  rw [h.lanes_eq]
  exact List.cons_ne_nil _ _

/-- The conditions of the turns exclude each other. -/
theorem Turn.unique (h : Turn s d t) (h' : Turn s d' t') : d' = d ∧ t' = t := by
  cases h with
  | giveUp ho hover => cases h' <;> grind [Schedule.Oldest.unique, Schedule.Oldest.ne_nil]
  | play ho hnot hb => cases h' <;> grind [Schedule.Oldest.unique, Schedule.Oldest.ne_nil]
  | finish ho hnot hb hdone => cases h' <;> grind [Schedule.Oldest.unique, Schedule.Oldest.ne_nil]
  | wait ho hnot hb hlive => cases h' <;> grind [Schedule.Oldest.unique, Schedule.Oldest.ne_nil]
  | idle hnil => cases h' <;> grind [Schedule.Oldest.ne_nil]

/-- **There is one way to go on** until a frame is played or there is nothing to play. -/
theorem Turns.unique (h : Turns s ds out t) (h' : Turns s ds' out' t') :
    ds' = ds ∧ out' = out ∧ t' = t := by
  induction h generalizing ds' with
  | play ht => cases h' <;> grind [Turn.unique]
  | wait ht => cases h' <;> grind [Turn.unique]
  | giveUp ht _ ih => cases h' <;> grind [Turn.unique]
  | finish ht _ ih => cases h' <;> grind [Turn.unique]

end Choice

-- ── the comparison is exact ─────────────────────────────────────────

/-- The span between two times of which the first is in range. -/
theorem toSpan_saturatingSub {newest : Timestamp} (h : newest.value ≤ Varint.maximum) (t : Timestamp) :
    (newest.saturatingSub t).toSpan = lag newest t := by
  have hticks : (newest.saturatingSub t).value = newest.value - t.value := by
    rw [Timescale.saturatingSub, Timescale.checkedSub, Timescale.ofTicks]
    by_cases hle : t.value ≤ newest.value
    · have hrange : newest.value - t.value ≤ Varint.maximum := Nat.le_trans (Nat.sub_le _ _) h
      rw [if_pos hle, Varint.ofNat?, if_pos hrange]
      rfl
    · rw [if_neg hle]
      show 0 = newest.value - t.value
      omega
  rw [toSpan_eq, hticks]
  rfl

theorem reference_eq_some_iff {oldest : Lane} {newer : Entries Lane} {t : Timestamp} :
    Schedule.reference oldest newer = some t ↔ MeasuredBy oldest newer t := by
  rw [Schedule.reference]
  constructor
  · intro h
    split at h
    · next hb =>
      obtain rfl := Option.some.inj h
      exact .next hb
    · next hb hl =>
      obtain rfl := Option.some.inj h
      exact .last hb hl
    · next hb hl =>
      obtain ⟨before, e, after, hnewer, hhead, hbefore⟩ := List.findSome?_eq_some_iff.mp h
      obtain ⟨f, hf, rfl⟩ := Option.map_eq_some_iff.mp hhead
      obtain ⟨rest, hrest⟩ := List.head?_eq_some_iff.mp hf
      refine .newer hb hl hnewer ?_ hrest
      intro e he
      simpa using hbefore e he
  · intro h
    cases h with
    | next hb => rw [hb]
    | last hb hl => rw [hb, hl]
    | @newer before after g lane f rest hb hl hnewer hbefore hrest =>
        rw [hb, hl]
        refine List.findSome?_eq_some_iff.mpr ⟨before, (g, lane), after, hnewer, ?_, ?_⟩
        · rw [hrest]
          rfl
        · intro e he
          rw [hbefore e he]
          rfl

namespace Schedule

variable {s : Schedule}

/-- What is compared with the budget makes a lane stale exactly when it is overdue. -/
theorem Regular.isStale_iff (h : s.Regular) (oldest : Lane) (newer : Entries Lane) :
    isStale s.latency s.newest oldest newer = true ↔ s.Overdue oldest newer := by
  constructor
  · intro hstale
    obtain ⟨newest, t, hnewest, href, hlag⟩ := isStale_elim hstale
    rw [toSpan_saturatingSub (h.inRange newest hnewest)] at hlag
    exact ⟨ne_nil_of_isStale hstale, newest, t, hnewest, reference_eq_some_iff.mp href, hlag⟩
  · rintro ⟨hnewer, newest, t, hnewest, hmeasured, hlag⟩
    obtain ⟨e, later, rfl⟩ := List.exists_cons_of_ne_nil hnewer
    simp only [isStale, hnewest, reference_eq_some_iff.mpr hmeasured,
      toSpan_saturatingSub (h.inRange newest hnewest)]
    exact decide_eq_true hlag

theorem Regular.isStale_eq_false_iff (h : s.Regular) (oldest : Lane) (newer : Entries Lane) :
    isStale s.latency s.newest oldest newer = false ↔ ¬ s.Overdue oldest newer := by
  rw [← h.isStale_iff, Bool.not_eq_true]

/-- The lane in front is the oldest one. -/
theorem Regular.oldest {g : Nat} {oldest : Lane} {newer : Entries Lane} (h : s.Regular)
    (hs : s.lanes = (g, oldest) :: newer) : s.Oldest g oldest newer :=
  ⟨hs, (Entries.ascending_cons.mp (hs ▸ h.ascending)).1⟩

/-- The number of a lane that has a newer one beside it is not the last word. -/
theorem Regular.sequenceAfter_eq {g : Nat} {oldest : Lane} {newer : Entries Lane} (h : s.Regular)
    (ho : s.Oldest g oldest newer) (hnewer : newer ≠ []) : sequenceAfter g = g + 1 := by
  obtain ⟨e, he⟩ := List.exists_mem_of_ne_nil _ hnewer
  have hlt := ho.smallest e he
  have hword := h.word e (ho.lanes_eq ▸ List.mem_cons_of_mem _ he)
  exact Playback.sequenceAfter_eq (by omega)

/-- **A pass over the lanes makes the turns of the policy.** -/
theorem Pass.turns {latency : Span} {newest : Option Timestamp} {floor floor' : Nat}
    {lanes left : Entries Lane} {lost : List Nat} {out : Option OrderedFrame}
    {ended : Option (Except MediaError Unit)} (hp : Pass latency newest floor lanes lost out floor' left)
    (h : Regular ⟨latency, lanes, newest, floor, ended⟩) :
    ∃ ds, Turns ⟨latency, lanes, newest, floor, ended⟩ ds out ⟨latency, left, newest, floor', ended⟩ := by
  induction hp with
  | empty => exact ⟨_, .wait (.idle rfl)⟩
  | skip stale _ ih =>
      have hoverdue := (h.isStale_iff _ _).mp stale
      have ho := h.oldest rfl
      obtain ⟨ds, hds⟩ := ih (h.tail rfl _)
      rw [h.sequenceAfter_eq ho hoverdue.1] at hds
      exact ⟨_, .giveUp (.giveUp ho hoverdue) hds⟩
  | play fresh waiting =>
      have hnot := (h.isStale_eq_false_iff _ _).mp fresh
      exact ⟨_, .play (.play (h.oldest rfl) hnot waiting)⟩
  | finish fresh drained done _ ih =>
      have hnot := (h.isStale_eq_false_iff _ _).mp fresh
      obtain ⟨ds, hds⟩ := ih (h.tail rfl _)
      exact ⟨_, .finish (.finish (h.oldest rfl) hnot drained done) hds⟩
  | wait fresh drained live =>
      have hnot := (h.isStale_eq_false_iff _ _).mp fresh
      exact ⟨_, .wait (.wait (h.oldest rfl) hnot drained live)⟩

theorem Regular.turns_next (h : s.Regular) : ∃ ds, Turns s ds s.next.1 s.next.2 :=
  Pass.turns (pass_advance s.latency s.newest s.floor s.lanes) h

end Schedule

-- ── what the policy gives ───────────────────────────────────────────

namespace Turns

variable {s s' : Schedule} {ds : List Decision} {out : Option OrderedFrame}

/-- Every turn but the last one removes a lane. -/
theorem length_le (h : Turns s ds out s') : ds.length ≤ s.lanes.length + 1 := by
  induction h with
  | play => simp
  | wait => simp
  | giveUp ht _ ih =>
      cases ht with
      | giveUp ho _ => simpa [ho.lanes_eq] using ih
  | finish ht _ ih =>
      cases ht with
      | finish ho _ _ _ => simpa [ho.lanes_eq] using ih

theorem floor_le (h : Turns s ds out s') : s.floor ≤ s'.floor := by
  induction h with
  | play ht =>
      cases ht with
      | play => exact Nat.le_max_left _ _
  | wait ht => cases ht <;> exact Nat.le_refl _
  | giveUp ht _ ih =>
      cases ht with
      | giveUp => exact Nat.le_trans (Nat.le_max_left _ _) ih
  | finish ht _ ih =>
      cases ht with
      | finish => exact ih

/-- A group that is given up lies below the floor from then on, and a newer one is there. -/
theorem givenUp (h : Turns s ds out s') {g : Nat} (hg : .giveUp g ∈ ds) :
    g < s'.floor ∧ ∃ e ∈ s.lanes, g < e.1 := by
  induction h with
  | play => simp at hg
  | wait => simp at hg
  | giveUp ht later ih =>
      cases ht with
      | @giveUp g' oldest newer ho hoverdue =>
          rcases List.mem_cons.mp hg with heq | hmem
          · obtain rfl := Decision.giveUp.inj heq
            have hfloor := later.floor_le
            obtain ⟨e, he⟩ := List.exists_mem_of_ne_nil _ hoverdue.1
            refine ⟨Nat.lt_of_lt_of_le ?_ hfloor, e, ?_, ho.smallest e he⟩
            · exact Nat.lt_of_lt_of_le (Nat.lt_succ_self g) (Nat.le_max_right _ _)
            · exact ho.lanes_eq ▸ List.mem_cons_of_mem _ he
          · obtain ⟨hlow, e, he, hlt⟩ := ih hmem
            exact ⟨hlow, e, ho.lanes_eq ▸ List.mem_cons_of_mem _ he, hlt⟩
  | finish ht _ ih =>
      cases ht with
      | finish ho _ _ _ =>
          obtain ⟨hlow, e, he, hlt⟩ := ih ((List.mem_cons.mp hg).resolve_left (by simp))
          exact ⟨hlow, e, ho.lanes_eq ▸ List.mem_cons_of_mem _ he, hlt⟩

/-- The frame that is played stood in a lane. -/
theorem mem_lanes (h : Turns s ds out s') {f : OrderedFrame} (hf : out = some f) :
    ∃ lane, (f.group, lane) ∈ s.lanes := by
  induction h with
  | play ht =>
      cases ht with
      | play ho _ _ =>
          obtain rfl := Option.some.inj hf
          exact ⟨_, ho.lanes_eq ▸ List.mem_cons_self⟩
  | wait => cases hf
  | giveUp ht _ ih =>
      cases ht with
      | giveUp ho _ =>
          obtain ⟨lane, hlane⟩ := ih hf
          exact ⟨lane, ho.lanes_eq ▸ List.mem_cons_of_mem _ hlane⟩
  | finish ht _ ih =>
      cases ht with
      | finish ho _ _ _ =>
          obtain ⟨lane, hlane⟩ := ih hf
          exact ⟨lane, ho.lanes_eq ▸ List.mem_cons_of_mem _ hlane⟩

/-- A frame of the newest lane stays one when older lanes are put in front. -/
theorem newest_cons (h : Turns s ds out s') {f : OrderedFrame} (hf : out = some f) {g : Nat}
    {oldest : Lane} (hlt : ∀ e ∈ s.lanes, g < e.1) (hnewest : ∀ e ∈ s.lanes, e.1 ≤ f.group) :
    ∀ e ∈ (g, oldest) :: s.lanes, e.1 ≤ f.group := by
  intro e he
  rcases List.mem_cons.mp he with rfl | he
  · obtain ⟨lane, hlane⟩ := h.mem_lanes hf
    exact Nat.le_of_lt (hlt _ hlane)
  · exact hnewest e he

/-- **A frame that is played** belongs to the newest lane or lies within the budget. -/
theorem played (h : Turns s ds out s') (hr : s.Regular) {f : OrderedFrame} (hf : out = some f) :
    (∀ e ∈ s.lanes, e.1 ≤ f.group) ∨
      ∃ newest, s.newest = some newest ∧ lag newest f.frame.timestamp ≤ s.latency := by
  induction h with
  | @play s _ f' ht =>
      cases ht with
      | @play g oldest newer frame rest ho hnot hb =>
          obtain rfl := Option.some.inj hf
          rcases List.eq_nil_or_concat newer with rfl | hnewer
          · refine Or.inl fun e he => ?_
            rw [ho.lanes_eq, List.mem_singleton] at he
            exact Nat.le_of_eq (congrArg Prod.fst he)
          · right
            have hsome : s.newest ≠ none :=
              hr.known (g, oldest) (ho.lanes_eq ▸ List.mem_cons_self) (hb ▸ List.cons_ne_nil _ _)
            obtain ⟨newest, hnewest⟩ := Option.ne_none_iff_exists'.mp hsome
            refine ⟨newest, hnewest, Nat.le_of_not_lt fun hlag => hnot ?_⟩
            refine ⟨?_, newest, frame.timestamp, hnewest, .next hb, hlag⟩
            obtain ⟨_, _, rfl⟩ := hnewer
            simp
  | wait => cases hf
  | giveUp ht later ih =>
      cases ht with
      | giveUp ho _ =>
          refine (ih (hr.tail ho.lanes_eq _) hf).imp_left fun hnewest => ?_
          rw [ho.lanes_eq]
          exact later.newest_cons hf ho.smallest hnewest
  | finish ht later ih =>
      cases ht with
      | finish ho _ _ _ =>
          refine (ih (hr.tail ho.lanes_eq _) hf).imp_left fun hnewest => ?_
          rw [ho.lanes_eq]
          exact later.newest_cons hf ho.smallest hnewest

/-- **When nothing is played** there is no lane, or the oldest one is live, empty and not overdue. -/
theorem waits (h : Turns s ds out s') (hnone : out = none) :
    s'.lanes = [] ∨ ∃ g oldest newer, s'.Oldest g oldest newer ∧ oldest.buffered = [] ∧
      oldest.done = false ∧ ¬ s'.Overdue oldest newer := by
  induction h with
  | play => cases hnone
  | wait ht =>
      cases ht with
      | wait ho hnot hb hlive => exact Or.inr ⟨_, _, _, ho, hb, hlive, hnot⟩
      | idle hnil => exact Or.inl hnil
  | giveUp _ _ ih => exact ih hnone
  | finish _ _ ih => exact ih hnone

end Turns

-- ── the next frame ──────────────────────────────────────────────────

/-- **The next frame is taken by the policy.** On every schedule that events, reads and changes of the
    budget lead to, taking the next frame makes the turns of the policy, at most one for each lane and one
    more, and there are no others that could be made. Therefore:

    * a group that is given up lies below the new floor, and a newer one had a lane, so the newest group
      is never given up;
    * a frame that is played belongs to the newest group that has a lane, or lies at most the budget behind
      the newest frame;
    * when nothing is played, no lane is left, or the oldest one is live, empty and not overdue. -/
theorem next_follows_policy {s : Schedule} (h : Reachable s) :
    (∃ ds, Turns s ds s.next.1 s.next.2 ∧ ds.length ≤ s.lanes.length + 1 ∧
      (∀ ds' out s', Turns s ds' out s' → ds' = ds ∧ out = s.next.1 ∧ s' = s.next.2) ∧
      ∀ g, .giveUp g ∈ ds → g < s.next.2.floor ∧ ∃ e ∈ s.lanes, g < e.1) ∧
    (∀ f, s.next.1 = some f → (∀ e ∈ s.lanes, e.1 ≤ f.group) ∨
      ∃ newest, s.newest = some newest ∧ lag newest f.frame.timestamp ≤ s.latency) ∧
    (s.next.1 = none → s.next.2.lanes = [] ∨
      ∃ g oldest newer, s.next.2.Oldest g oldest newer ∧ oldest.buffered = [] ∧
        oldest.done = false ∧ ¬ s.next.2.Overdue oldest newer) := by
  obtain ⟨ds, hds⟩ := h.regular.turns_next
  refine ⟨⟨ds, hds, hds.length_le, ?_, ?_⟩, ?_, ?_⟩
  · intro ds' out s' h'
    exact hds.unique h'
  · intro g hg
    exact hds.givenUp hg
  · intro f hf
    exact hds.played h.regular hf
  · intro hnone
    exact hds.waits hnone

/-- Group 1 is live and has given no frame, and groups 2 and 3 have a frame each, 10 milliseconds apart. -/
def threeLanes (latency : Span) : Schedule :=
  (Schedule.start latency).applyAll [.group 1 0, .group 2 1, .frame 2 ⟨⟨⟨0⟩⟩, true, []⟩, .group 3 2,
    .frame 3 ⟨⟨⟨10000⟩⟩, true, []⟩]

theorem reachable_threeLanes (latency : Span) : Reachable (threeLanes latency) :=
  (Reachable.start latency).applyAll (by decide)

/-- With a budget of 10 milliseconds group 1 is waited for. With one of 9 it is overdue by the frame that
    waits in group 2, and so is group 2 itself, so the frame of group 3 is played. -/
theorem next_follows_policy_threeLanes :
    Reachable (threeLanes (.ofMillis 10)) ∧ Reachable (threeLanes (.ofMillis 9)) ∧
    (threeLanes (.ofMillis 10)).next.1 = none ∧
    (∃ g oldest newer, (threeLanes (.ofMillis 10)).next.2.Oldest g oldest newer ∧
      oldest.buffered = [] ∧ oldest.done = false ∧
      ¬ (threeLanes (.ofMillis 10)).next.2.Overdue oldest newer) ∧
    (threeLanes (.ofMillis 9)).next.1 = some ⟨3, ⟨⟨⟨10000⟩⟩, true, []⟩⟩ ∧
    ∃ ds, Turns (threeLanes (.ofMillis 9)) ds (some ⟨3, ⟨⟨⟨10000⟩⟩, true, []⟩⟩)
      (threeLanes (.ofMillis 9)).next.2 := by
  have hwaits : (threeLanes (.ofMillis 10)).next.1 = none := by decide
  have hlanes : (threeLanes (.ofMillis 10)).next.2.lanes ≠ [] := by decide
  have hplays : (threeLanes (.ofMillis 9)).next.1 = some ⟨3, ⟨⟨⟨10000⟩⟩, true, []⟩⟩ := by decide
  have hten := next_follows_policy (reachable_threeLanes (.ofMillis 10))
  obtain ⟨⟨ds, hds, -⟩, -⟩ := next_follows_policy (reachable_threeLanes (.ofMillis 9))
  exact ⟨reachable_threeLanes _, reachable_threeLanes _, hwaits, (hten.2.2 hwaits).resolve_left hlanes,
    hplays, ds, hplays ▸ hds⟩

end LiveMedia.Playback
