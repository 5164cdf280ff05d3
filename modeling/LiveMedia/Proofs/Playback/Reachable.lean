import LiveMedia.Proofs.Playback.GroupOrder
import LiveMedia.Proofs.Wire.Primitive

/-!
# Reachable schedules

A schedule is moved by events, by taking the next frame and by changing the budget, in any order.
`Reachable` is what can come of it. All that is asked of an event is that its numbers are in the range of
their types, which holds of everything that tasks report (`Reported.inRange`). So the schedule of every
player that was not closed is reachable (`Player.reachable_upToDate`).

`Regular` is what holds of all of them: the lanes stand in ascending order, and their numbers and the
newest time are in range.
-/

namespace LiveMedia.Playback

open LiveMedia.Time LiveMedia.Live LiveMedia.Wire

/-- Sequence numbers are words of 64 bits, and times are integers of the wide class. -/
def Event.InRange : Event → Prop
  | .group g _ => g < Track.sequenceLimit
  | .frame g f => g < Track.sequenceLimit ∧ f.timestamp.value ≤ Varint.maximum
  | .groupDone g => g < Track.sequenceLimit
  | .trackDone _ => True

instance : (e : Event) → Decidable e.InRange
  | .group g _ => inferInstanceAs (Decidable (g < Track.sequenceLimit))
  | .frame g f => inferInstanceAs
      (Decidable (g < Track.sequenceLimit ∧ f.timestamp.value ≤ Varint.maximum))
  | .groupDone g => inferInstanceAs (Decidable (g < Track.sequenceLimit))
  | .trackDone _ => .isTrue trivial

inductive Reachable : Schedule → Prop where
  | start (latency : Span) : Reachable (.start latency)
  | apply {s : Schedule} {e : Event} : Reachable s → e.InRange → Reachable (s.apply e)
  | next {s : Schedule} : Reachable s → Reachable s.next.2
  | setLatency {s : Schedule} (latency : Span) : Reachable s → Reachable { s with latency }

theorem Reachable.applyAll {s : Schedule} (h : Reachable s) {events : List Event}
    (he : ∀ e ∈ events, e.InRange) : Reachable (s.applyAll events) := by
  induction events generalizing s with
  | nil => exact h
  | cons e rest ih =>
      obtain ⟨hfirst, hrest⟩ := List.forall_mem_cons.mp he
      exact ih (h.apply hfirst) hrest

-- ── what holds of reachable schedules ───────────────────────────────

structure Schedule.Regular (s : Schedule) : Prop where
  ascending : Entries.Ascending s.lanes
  word : ∀ e ∈ s.lanes, e.1 < Track.sequenceLimit
  inRange : ∀ t, s.newest = some t → t.value ≤ Varint.maximum
  /-- A frame that waits was counted among the newest. -/
  known : ∀ e ∈ s.lanes, e.2.buffered ≠ [] → s.newest ≠ none

namespace Schedule.Regular

variable {s : Schedule}

theorem start (latency : Span) : (Schedule.start latency).Regular where
  ascending := Entries.ascending_nil
  word _ he := absurd he List.not_mem_nil
  inRange _ h := by cases h
  known _ he := absurd he List.not_mem_nil

theorem setLatency (h : s.Regular) (latency : Span) : Regular { s with latency } :=
  ⟨h.ascending, h.word, h.inRange, h.known⟩

/-- A lane that is changed keeps its number. -/
theorem word_modify (h : s.Regular) (g : Nat) (change : Lane → Lane) :
    ∀ e ∈ s.lanes.modify g change, e.1 < Track.sequenceLimit := by
  intro e he
  rcases (Entries.mem_modify_iff h.ascending e).mp he with ⟨-, hold⟩ | ⟨lane, hlane, rfl⟩
  · exact h.word e hold
  · exact h.word (g, lane) hlane

theorem apply (h : s.Regular) {e : Event} (he : e.InRange) : (s.apply e).Regular := by
  cases e with
  | group g reader =>
      simp only [Schedule.apply]
      split
      · exact h
      · refine ⟨Entries.ascending_insert _ _ h.ascending, ?_, h.inRange, ?_⟩
        · intro e hmem
          rcases Entries.mem_insert hmem with rfl | hold
          · exact he
          · exact h.word e hold
        · intro e hmem hne
          rcases Entries.mem_insert hmem with rfl | hold
          · exact absurd rfl hne
          · exact h.known e hold hne
  | frame g f =>
      simp only [Schedule.apply]
      split
      · exact h
      · refine ⟨Entries.ascending_modify _ _ h.ascending, h.word_modify g _, ?_, ?_⟩
        · intro t ht
          obtain rfl := Option.some.inj ht
          split
          · next newest hnewest =>
            rcases latest_eq newest f.timestamp with heq | heq
            · rw [heq]
              exact h.inRange newest hnewest
            · rw [heq]
              exact he.2
          · exact he.2
        · intro _ _ _ hnone
          cases hnone
  | groupDone g =>
      refine ⟨Entries.ascending_modify _ _ h.ascending, h.word_modify g _, h.inRange, ?_⟩
      intro e hmem hne
      rcases (Entries.mem_modify_iff h.ascending e).mp hmem with ⟨-, hold⟩ | ⟨lane, hlane, rfl⟩
      · exact h.known e hold hne
      · exact h.known (g, lane) hlane hne
  | trackDone result => exact ⟨h.ascending, h.word, h.inRange, h.known⟩

/-- Without its oldest lane a schedule is regular, under any floor. -/
theorem tail {e : Nat × Lane} {newer : Entries Lane} (h : s.Regular) (hs : s.lanes = e :: newer)
    (floor : Nat) : Regular { s with floor, lanes := newer } where
  ascending := (Entries.ascending_cons.mp (hs ▸ h.ascending)).2
  word e he := h.word e (hs ▸ List.mem_cons_of_mem _ he)
  inRange := h.inRange
  known e he := h.known e (hs ▸ List.mem_cons_of_mem _ he)

/-- So it is when the next frame of its oldest lane was played. -/
theorem play {g : Nat} {oldest : Lane} {newer : Entries Lane} {f : MediaFrame} {rest : List MediaFrame}
    (h : s.Regular) (hs : s.lanes = (g, oldest) :: newer) (hb : oldest.buffered = f :: rest)
    (floor : Nat) : Regular { s with floor, lanes := (g, oldest.play f rest) :: newer } where
  ascending := Entries.ascending_cons.mpr (Entries.ascending_cons.mp (hs ▸ h.ascending))
  word e he := by
    rcases List.mem_cons.mp he with rfl | he
    · exact h.word (g, oldest) (hs ▸ List.mem_cons_self)
    · exact h.word e (hs ▸ List.mem_cons_of_mem _ he)
  inRange := h.inRange
  known _ _ _ := h.known (g, oldest) (hs ▸ List.mem_cons_self) (hb ▸ List.cons_ne_nil f rest)

/-- A pass over the lanes keeps a schedule regular. -/
theorem pass {latency : Span} {newest : Option Timestamp} {floor floor' : Nat}
    {lanes left : Entries Lane} {lost : List Nat} {out : Option OrderedFrame}
    {ended : Option (Except MediaError Unit)}
    (hp : Schedule.Pass latency newest floor lanes lost out floor' left)
    (h : Regular ⟨latency, lanes, newest, floor, ended⟩) :
    Regular ⟨latency, left, newest, floor', ended⟩ := by
  induction hp with
  | empty => exact h
  | skip _ _ ih => exact ih (h.tail rfl _)
  | play _ waiting => exact h.play rfl waiting _
  | finish _ _ _ _ ih => exact ih (h.tail rfl _)
  | wait => exact h

theorem next (h : s.Regular) : s.next.2.Regular :=
  Regular.pass (Schedule.pass_advance s.latency s.newest s.floor s.lanes) h

end Schedule.Regular

/-- **Reachable schedules are regular.** -/
theorem Reachable.regular {s : Schedule} (h : Reachable s) : s.Regular := by
  induction h with
  | start latency => exact .start latency
  | apply _ he ih => exact ih.apply he
  | next _ ih => exact ih.next
  | setLatency latency _ ih => exact ih.setLatency latency

-- ── what players reach ──────────────────────────────────────────────

/-- The times of the frames that a reader gives are in range. -/
theorem GroupReader.Gives.inRange {r : GroupReader} {frames : List MediaFrame} (h : r.Gives frames) :
    ∀ f ∈ frames, f.timestamp.value ≤ Varint.maximum := by
  induction h with
  | stop => simp
  | wait _ _ _ _ ih => exact ih
  | @frame r r' f frames store held hread _ ih =>
      have hf : f.timestamp.value ≤ Varint.maximum := by
        obtain ⟨bs, cursor, -, hdecode, -⟩ := GroupReader.readFrame_eq_some hread
        obtain ⟨timestamp, rest, hrun, rfl⟩ := MediaFrame.decode_eq_ok hdecode
        exact Varint.decode_le_maximum hrun
      intro f' hf'
      rcases List.mem_cons.mp hf' with rfl | hmem
      · exact hf
      · exact ih f' hmem

/-- **What tasks report is in range.** -/
theorem Reported.inRange {events : List Event} (h : Reported events) : ∀ e ∈ events, e.InRange := by
  have hgroup : ∀ g, (∃ e ∈ events, e.isAbout g = true) → g < Track.sequenceLimit := by
    rintro g ⟨e, he, habout⟩
    obtain ⟨reader, _, frames, -, hbegins⟩ := h.inOrder g
    -- whatever is said of a group, it was announced first
    obtain ⟨first, rest, hevents⟩ := List.exists_cons_of_ne_nil
      (List.ne_nil_of_mem (mem_about.mpr ⟨he, habout⟩))
    rw [hevents, List.cons_prefix_cons] at hbegins
    have hfirst : first ∈ about g events := hevents ▸ List.mem_cons_self
    exact h.word g (mem_announced.mpr ⟨reader, hbegins.1 ▸ (mem_about.mp hfirst).1⟩)
  intro e he
  cases e with
  | group g reader => exact hgroup g ⟨_, he, beq_self_eq_true g⟩
  | groupDone g => exact hgroup g ⟨_, he, beq_self_eq_true g⟩
  | trackDone => trivial
  | frame g f =>
      refine ⟨hgroup g ⟨_, he, beq_self_eq_true g⟩, ?_⟩
      obtain ⟨_, frames, hgives, hbegins⟩ := h.framesOf_begins g
      refine hgives.inRange f (hbegins.subset (mem_framesIn.mpr ?_))
      exact List.mem_filterMap.mpr ⟨_, he, rfl⟩

theorem Player.reachable_run {p : Player} (hopen : p.closed = false) (h : Reachable p.upToDate)
    (moves : List Move) (hr : ∀ e ∈ reports moves, e.InRange) : Reachable (p.run moves).upToDate := by
  induction moves generalizing p with
  | nil => exact h
  | cons m moves ih =>
      rw [reports_cons] at hr
      refine ih ((p.closed_after m).trans hopen) ?_ fun e he => hr e (List.mem_append_right _ he)
      cases m with
      | report e =>
          rw [upToDate_report]
          exact h.apply (hr e (List.mem_append_left _ (List.mem_singleton_self e)))
      | setLatency latency =>
          rw [upToDate_setLatency]
          exact h.setLatency latency
      | read =>
          rw [upToDate_read p hopen]
          exact h.next

/-- **The schedule of an open player is reachable.** -/
theorem Player.reachable_upToDate (track : TrackCursor) (latency : Span) (moves : List Move)
    (hr : ∀ e ∈ reports moves, e.InRange) :
    Reachable ((Player.start track latency).run moves).upToDate := by
  have hstart : Reachable (Player.start track latency).upToDate := Reachable.start latency
  exact Player.reachable_run rfl hstart moves hr

end LiveMedia.Playback
