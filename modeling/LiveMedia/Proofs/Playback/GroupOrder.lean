import LiveMedia.Proofs.Entries
import LiveMedia.Proofs.Playback.Run

/-!
# Groups are played in order

Whatever the tasks of a player report, and however their reports interleave with reads and changes of
the budget: the group numbers of the played frames never decrease, the frames of one group are played
from its first one on without gap or repetition, and a group that was given up or overtaken is never
played again.

The invariant is `Kept`. It ties together what was reported, what was played, the floor and the lanes:
every lane buffers exactly the frames of its group that were reported and not played, no lane lies below
the floor, and no played frame lies above it. Reports keep it (`Kept.apply`), each decision of a pass
keeps it (`Kept.pass`), and so does a whole run (`Player.Keeps.run`). Since the floor never falls and
nothing below it is played, overtaken groups are over.
-/

namespace LiveMedia.Playback

open LiveMedia.Time LiveMedia.Live

-- ── the invariant ───────────────────────────────────────────────────

/-- A lane agrees with what was reported and played of its group. -/
structure LaneKept (events : List Event) (played : List OrderedFrame) (g : Nat) (lane : Lane) :
    Prop where
  announced : g ∈ announced events
  frames : framesOf g events = framesIn g played ++ lane.buffered
  last : lane.last = (framesIn g played).getLast?.map (·.timestamp)
  done : lane.done = true ↔ g ∈ finished events

/-- The floor and the lanes agree with what was reported and played. -/
structure Kept (events : List Event) (played : List OrderedFrame) (floor : Nat)
    (lanes : Entries Lane) : Prop where
  ascending : Entries.Ascending lanes
  floor_le : ∀ e ∈ lanes, floor ≤ e.1
  played_le : ∀ f ∈ played, f.group ≤ floor
  ordered : played.Pairwise fun a b => a.group ≤ b.group
  lane : ∀ e ∈ lanes, LaneKept events played e.1 e.2
  played_begins : ∀ g, framesIn g played <+: framesOf g events

theorem Kept.start (latency : Span) :
    Kept [] [] (Schedule.start latency).floor (Schedule.start latency).lanes where
  ascending := Entries.ascending_nil
  floor_le := by simp [Schedule.start]
  played_le := by simp
  ordered := List.Pairwise.nil
  lane := by simp [Schedule.start]
  played_begins _ := List.nil_prefix

variable {events : List Event} {played : List OrderedFrame} {floor floor' : Nat}
  {lanes left : Entries Lane}

-- ── reports ─────────────────────────────────────────────────────────

/-- An event that brings a group no frame and no end leaves its lane as it is. -/
theorem LaneKept.other {g : Nat} {lane : Lane} {e : Event} (h : LaneKept events played g lane)
    (hframes : framesOf g [e] = []) (hdone : g ∉ finished [e]) :
    LaneKept (events ++ [e]) played g lane where
  announced := by
    rw [announced_append]
    exact List.mem_append_left _ h.announced
  frames := by
    rw [framesOf_append, hframes, List.append_nil]
    exact h.frames
  last := h.last
  done := by
    rw [finished_append, List.mem_append, h.done]
    exact ⟨Or.inl, fun hg => hg.resolve_right hdone⟩

theorem framesOf_frame_of_ne {g other : Nat} (h : other ≠ g) (f : MediaFrame) :
    framesOf g [.frame other f] = [] := framesIn_of_ne h f

theorem framesOf_frame_self (g : Nat) (f : MediaFrame) : framesOf g [.frame g f] = [f] :=
  framesIn_self g f

/-- What is played of a group stays a prefix of what is reported of it. -/
theorem Kept.prefix_snoc (h : Kept events played floor lanes) (e : Event) (g : Nat) :
    framesIn g played <+: framesOf g (events ++ [e]) := by
  rw [framesOf_append]
  exact (h.played_begins g).trans (List.prefix_append _ _)

/-- Agreement survives an event when every lane agrees with it. -/
theorem Kept.snoc (h : Kept events played floor lanes) (e : Event)
    (hlane : ∀ entry ∈ lanes, LaneKept (events ++ [e]) played entry.1 entry.2) :
    Kept (events ++ [e]) played floor lanes :=
  ⟨h.ascending, h.floor_le, h.played_le, h.ordered, hlane, h.prefix_snoc e⟩

/-- Agreement survives an event that changes the lane of its group in step with what it reports. -/
theorem Kept.modify {g : Nat} {change : Lane → Lane} {e : Event}
    (h : Kept events played floor lanes)
    (hother : ∀ entry ∈ lanes, entry.1 ≠ g → LaneKept (events ++ [e]) played entry.1 entry.2)
    (hself : ∀ lane, LaneKept events played g lane →
      LaneKept (events ++ [e]) played g (change lane)) :
    Kept (events ++ [e]) played floor (lanes.modify g change) := by
  refine ⟨Entries.ascending_modify _ _ h.ascending, ?_, h.played_le, h.ordered, ?_,
    h.prefix_snoc e⟩
  · intro entry hentry
    rcases (Entries.mem_modify_iff h.ascending entry).mp hentry with ⟨_, hold⟩ | ⟨v, hv, rfl⟩
    · exact h.floor_le entry hold
    · exact h.floor_le (g, v) hv
  · intro entry hentry
    rcases (Entries.mem_modify_iff h.ascending entry).mp hentry with ⟨hne, hold⟩ | ⟨v, hv, rfl⟩
    · exact hother entry hold hne
    · exact hself v (h.lane (g, v) hv)

/-- A group that was not spoken of before agrees with an empty lane. -/
theorem Kept.fresh {g reader : Nat} (h : Kept events played floor lanes)
    (hr : Reported (events ++ [.group g reader])) :
    LaneKept (events ++ [.group g reader]) played g ⟨reader, [], none, false⟩ := by
  have habout := hr.about_eq_nil
  have hplayed : framesIn g played = [] := by
    have hbegins := h.played_begins g
    rw [framesOf_eq_nil habout] at hbegins
    exact List.prefix_nil.mp hbegins
  refine ⟨?_, ?_, ?_, ?_⟩
  · simp [announced, Event.announces?]
  · rw [framesOf_append, framesOf_eq_nil habout, hplayed]
    rfl
  · rw [hplayed]
    rfl
  · have hdone := not_mem_finished habout
    simpa [finished, Event.finishes?] using hdone

/-- Reports do not move the floor. -/
theorem floor_apply (s : Schedule) (e : Event) : (s.apply e).floor = s.floor := by
  cases e with
  | group g reader =>
      simp only [Schedule.apply]
      split <;> rfl
  | frame g f =>
      simp only [Schedule.apply]
      cases s.lanes.find? g <;> rfl
  | groupDone g => rfl
  | trackDone result => rfl

/-- **A report keeps the invariant.** -/
theorem Kept.apply {s : Schedule} {e : Event} (h : Kept events played s.floor s.lanes)
    (hr : Reported (events ++ [e])) :
    Kept (events ++ [e]) played (s.apply e).floor (s.apply e).lanes := by
  cases e with
  | group g reader =>
      have hother : ∀ e ∈ s.lanes, LaneKept (events ++ [.group g reader]) played e.1 e.2 :=
        fun e he => (h.lane e he).other rfl (by simp [finished, Event.finishes?])
      simp only [Schedule.apply]
      by_cases hlow : g < s.floor
      · rw [if_pos hlow]
        exact h.snoc _ hother
      · rw [if_neg hlow]
        refine ⟨Entries.ascending_insert _ _ h.ascending, ?_, h.played_le, h.ordered, ?_,
          h.prefix_snoc _⟩
        · intro e he
          rcases Entries.mem_insert he with rfl | he
          · exact Nat.le_of_not_lt hlow
          · exact h.floor_le e he
        · intro e he
          rcases Entries.mem_insert he with rfl | he
          · exact h.fresh hr
          · exact hother e he
  | frame g f =>
      have hother : ∀ e ∈ s.lanes, e.1 ≠ g → LaneKept (events ++ [.frame g f]) played e.1 e.2 :=
        fun e he hne => (h.lane e he).other (framesOf_frame_of_ne (Ne.symm hne) f)
          (by simp [finished, Event.finishes?])
      simp only [Schedule.apply]
      cases hfind : s.lanes.find? g with
      | none =>
          -- the frame of a group without a lane is lost
          refine h.snoc _ fun e he => hother e he ?_
          rintro rfl
          exact (Entries.find?_eq_none_iff h.ascending).mp hfind e.2 he
      | some lane =>
          refine h.modify hother fun v hv => ⟨?_, ?_, hv.last, ?_⟩
          · rw [announced_append]
            exact List.mem_append_left _ hv.announced
          · show framesOf g (events ++ [.frame g f]) = framesIn g played ++ (v.buffered ++ [f])
            rw [framesOf_append, framesOf_frame_self, hv.frames, List.append_assoc]
          · show v.done = true ↔ g ∈ finished (events ++ [.frame g f])
            rw [hv.done]
            simp [finished, Event.finishes?]
  | groupDone g =>
      refine h.modify ?_ fun v hv => ⟨?_, ?_, hv.last, ?_⟩
      · intro e he hne
        refine (h.lane e he).other rfl ?_
        simpa [finished, Event.finishes?] using hne
      · rw [announced_append]
        exact List.mem_append_left _ hv.announced
      · rw [framesOf_append]
        show framesOf g events ++ [] = framesIn g played ++ v.buffered
        rw [List.append_nil, hv.frames]
      · simp [finished, Event.finishes?]
  | trackDone result =>
      exact h.snoc _ fun e he => (h.lane e he).other rfl (by simp [finished, Event.finishes?])

-- ── reads ───────────────────────────────────────────────────────────

/-- Without its oldest lane the table still agrees, also under a floor that the newer lanes reach. -/
theorem Kept.tail {g : Nat} {oldest : Lane} {newer : Entries Lane}
    (h : Kept events played floor ((g, oldest) :: newer)) (hle : floor ≤ floor')
    (hfloor : ∀ e ∈ newer, floor' ≤ e.1) : Kept events played floor' newer where
  ascending := (Entries.ascending_cons.mp h.ascending).2
  floor_le := hfloor
  played_le f hf := Nat.le_trans (h.played_le f hf) hle
  ordered := h.ordered
  lane e he := h.lane e (List.mem_cons_of_mem _ he)
  played_begins := h.played_begins

/-- Playing the next frame of the oldest lane keeps the invariant. -/
theorem Kept.play {g : Nat} {oldest : Lane} {newer : Entries Lane} {f : MediaFrame}
    {rest : List MediaFrame} (h : Kept events played floor ((g, oldest) :: newer))
    (hb : oldest.buffered = f :: rest) :
    Kept events (played ++ [⟨g, f⟩]) (max floor g) ((g, oldest.play f rest) :: newer) := by
  obtain ⟨hlt, hnewer⟩ := Entries.ascending_cons.mp h.ascending
  have hg : floor ≤ g := h.floor_le _ List.mem_cons_self
  have hmax : max floor g = g := Nat.max_eq_right hg
  have hlane := h.lane _ List.mem_cons_self
  have hplayed : ∀ f' ∈ played, f'.group ≤ g := fun f' hf' => Nat.le_trans (h.played_le f' hf') hg
  rw [hmax]
  refine ⟨Entries.ascending_cons.mpr ⟨hlt, hnewer⟩, ?_, ?_, ?_, ?_, ?_⟩
  · intro e he
    rcases List.mem_cons.mp he with rfl | he
    · exact Nat.le_refl _
    · exact Nat.le_of_lt (hlt e he)
  · intro f' hf'
    rcases List.mem_append.mp hf' with hf' | hf'
    · exact hplayed f' hf'
    · obtain rfl := List.mem_singleton.mp hf'
      exact Nat.le_refl g
  · refine List.pairwise_append.mpr ⟨h.ordered, List.pairwise_singleton _ _, ?_⟩
    intro a ha b hb
    rw [List.mem_singleton.mp hb]
    exact hplayed a ha
  · intro e he
    rcases List.mem_cons.mp he with rfl | he
    · refine ⟨hlane.announced, ?_, ?_, hlane.done⟩
      · show framesOf g events = framesIn g (played ++ [⟨g, f⟩]) ++ rest
        rw [hlane.frames, hb, framesIn_append, framesIn_self, List.append_assoc]
        rfl
      · show some f.timestamp = ((framesIn g (played ++ [⟨g, f⟩])).getLast?).map (·.timestamp)
        rw [framesIn_append, framesIn_self, List.getLast?_concat]
        rfl
    · -- no newer lane was played from
      have hkept := h.lane e (List.mem_cons_of_mem _ he)
      have hsame : framesIn e.1 (played ++ [⟨g, f⟩]) = framesIn e.1 played := by
        rw [framesIn_append, framesIn_of_ne (Nat.ne_of_lt (hlt e he)), List.append_nil]
      exact ⟨hkept.announced, hsame ▸ hkept.frames, hsame ▸ hkept.last, hkept.done⟩
  · intro g'
    by_cases hg' : g = g'
    · subst hg'
      rw [framesIn_append, framesIn_self, hlane.frames, hb]
      exact (List.prefix_append_right_inj _).mpr ⟨rest, rfl⟩
    · rw [framesIn_append, framesIn_of_ne hg', List.append_nil]
      exact h.played_begins g'

/-- Sequence numbers that are words have a successor below the next one. -/
theorem sequenceAfter_eq {g : Nat} (h : g + 1 < Track.sequenceLimit) :
    Schedule.sequenceAfter g = g + 1 := by
  rw [Schedule.sequenceAfter]
  rw [Track.sequenceLimit] at h
  omega

/-- **A pass keeps the invariant.** What it plays lies on or above the old floor, what it gives up below
    the new one. -/
theorem Kept.pass {latency : Span} {newest : Option Timestamp} {lost : List Nat}
    {out : Option OrderedFrame}
    (hp : Schedule.Pass latency newest floor lanes lost out floor' left)
    (h : Kept events played floor lanes) (hword : ∀ g ∈ announced events, g < Track.sequenceLimit) :
    Kept events (played ++ out.toList) floor' left ∧ (∀ g ∈ lost, g < floor') ∧
      ∀ f ∈ out.toList, floor ≤ f.group := by
  induction hp with
  | empty => exact ⟨by simpa using h, by simp, by simp⟩
  | @skip floor floor' g oldest newer left lost out stale rest ih =>
      obtain ⟨hlt, -⟩ := Entries.ascending_cons.mp h.ascending
      -- a stale lane has a newer one beside it, so its number is not the last word
      have hnext : g + 1 < Track.sequenceLimit := by
        obtain ⟨e, he⟩ := List.exists_mem_of_ne_nil _ (Schedule.ne_nil_of_isStale stale)
        have h1 := hlt e he
        have h2 := hword _ (h.lane e (List.mem_cons_of_mem _ he)).announced
        omega
      have hseq := sequenceAfter_eq hnext
      have hfloor := h.floor_le _ List.mem_cons_self
      rw [hseq] at ih rest
      obtain ⟨hkept, hlost, hout⟩ := ih (h.tail (Nat.le_max_left _ _) fun e he => by
        have h1 := hlt e he
        exact Nat.max_le.mpr ⟨h.floor_le e (List.mem_cons_of_mem _ he), h1⟩)
      refine ⟨hkept, ?_, fun f hf => Nat.le_trans (Nat.le_max_left _ _) (hout f hf)⟩
      intro g' hg'
      rcases List.mem_cons.mp hg' with rfl | hg'
      · have h1 : max floor (g' + 1) ≤ floor' := rest.floor_le
        exact Nat.lt_of_lt_of_le (Nat.lt_succ_self g') (Nat.le_trans (Nat.le_max_right _ _) h1)
      · exact hlost g' hg'
  | @play floor g oldest newer f rest fresh waiting =>
      refine ⟨h.play waiting, by simp, ?_⟩
      intro f' hf'
      rw [List.mem_singleton.mp hf']
      exact h.floor_le _ List.mem_cons_self
  | finish _ _ _ _ ih =>
      exact ih (h.tail (Nat.le_refl _) fun e he => h.floor_le e (List.mem_cons_of_mem _ he))
  | wait => exact ⟨by simpa using h, by simp, by simp⟩

-- ── runs ────────────────────────────────────────────────────────────

/-- The invariant of an open player whose tasks reported `events` and that played `played`. -/
def Player.Keeps (p : Player) (events : List Event) (played : List OrderedFrame) : Prop :=
  p.closed = false ∧ Kept events played p.upToDate.floor p.upToDate.lanes

/-- **A move keeps the invariant**, and the floor separates what it plays from what it gives up. -/
theorem Player.Keeps.after {p : Player} (h : p.Keeps events played) (m : Move)
    (hr : Reported (events ++ m.reports)) :
    (p.after m).Keeps (events ++ m.reports) (played ++ p.plays m) ∧
      p.upToDate.floor ≤ (p.after m).upToDate.floor ∧
      (∀ f ∈ p.plays m, p.upToDate.floor ≤ f.group) ∧
      ∀ g ∈ p.givesUp m, g < (p.after m).upToDate.floor := by
  obtain ⟨hopen, hkept⟩ := h
  have hopen' : (p.after m).closed = false := (p.closed_after m).trans hopen
  cases m with
  | report e =>
      refine ⟨⟨hopen', ?_⟩, ?_, by simp, by simp [givesUp]⟩
      · rw [upToDate_report, plays_report, List.append_nil]
        exact hkept.apply hr
      · rw [upToDate_report]
        exact Nat.le_of_eq (floor_apply p.upToDate e).symm
  | setLatency latency =>
      refine ⟨⟨hopen', ?_⟩, ?_, by simp, by simp [givesUp]⟩
      · rw [upToDate_setLatency, plays_setLatency, List.append_nil]
        show Kept (events ++ []) played p.upToDate.floor p.upToDate.lanes
        rw [List.append_nil]
        exact hkept
      · exact Nat.le_of_eq (congrArg Schedule.floor (p.upToDate_setLatency latency)).symm
  | read =>
      have hpass := p.pass_read hopen
      have hword : ∀ g ∈ announced events, g < Track.sequenceLimit := (hr.of_append).word
      obtain ⟨hnext, hlost, hout⟩ := hkept.pass hpass hword
      rw [plays_read p hopen]
      refine ⟨⟨hopen', ?_⟩, hpass.floor_le, hout, hlost⟩
      show Kept (events ++ []) _ _ _
      rw [List.append_nil]
      exact hnext

/-- **A run keeps the invariant.** -/
theorem Player.Keeps.run {p : Player} (h : p.Keeps events played) (moves : List Move)
    (hr : Reported (events ++ reports moves)) :
    (p.run moves).Keeps (events ++ reports moves) (played ++ p.played moves) ∧
      p.upToDate.floor ≤ (p.run moves).upToDate.floor ∧
      (∀ f ∈ p.played moves, p.upToDate.floor ≤ f.group) ∧
      ∀ g ∈ p.gaveUp moves, g < (p.run moves).upToDate.floor := by
  induction moves generalizing p events played with
  | nil =>
      refine ⟨by simpa [Player.played] using h, Nat.le_refl _, ?_, ?_⟩
      · simp [Player.played]
      · simp [gaveUp]
  | cons m moves ih =>
      rw [reports_cons, ← List.append_assoc] at hr
      obtain ⟨hm, hfloor, hplays, hgives⟩ := h.after m hr.of_append
      obtain ⟨hrest, hfloor', hplayed, hgave⟩ := ih hm hr
      have hsplit : played ++ p.played (m :: moves) =
          played ++ p.plays m ++ (p.after m).played moves := (List.append_assoc _ _ _).symm
      rw [run_cons, reports_cons, ← List.append_assoc, hsplit]
      refine ⟨hrest, Nat.le_trans hfloor hfloor', ?_, ?_⟩
      · intro f hf
        rcases List.mem_append.mp hf with hf | hf
        · exact hplays f hf
        · exact Nat.le_trans hfloor (hplayed f hf)
      · intro g hg
        rcases List.mem_append.mp hg with hg | hg
        · exact Nat.lt_of_lt_of_le (hgives g hg) hfloor'
        · exact hgave g hg

theorem Player.keeps_start (track : TrackCursor) (latency : Span) :
    (Player.start track latency).Keeps [] [] := ⟨rfl, Kept.start latency⟩

/-- **Groups are played in order.** For every history that the tasks may report, in any interleaving with
    reads and changes of the budget:

    * the group numbers of the played frames never decrease;
    * of each group a prefix of the reported frames is played, so nothing is left out or repeated, and
      exactly the first frame is marked as the keyframe;
    * once a group was given up as stale, or a frame of a larger group was played, no frame of it is
      played any more, wherever that frame is by then. -/
theorem plays_groups_in_order (track : TrackCursor) (latency : Span) (moves : List Move)
    (h : Reported (reports moves)) :
    ((Player.start track latency).played moves).Pairwise (fun a b => a.group ≤ b.group) ∧
    (∀ g, framesIn g ((Player.start track latency).played moves) <+: framesOf g (reports moves)) ∧
    (∀ g i f, (framesIn g ((Player.start track latency).played moves))[i]? = some f →
      (f.keyframe = true ↔ i = 0)) ∧
    ∀ before later, moves = before ++ later → ∀ g,
      (g ∈ (Player.start track latency).gaveUp before ∨
        ∃ f ∈ (Player.start track latency).played before, g < f.group) →
      ∀ f ∈ ((Player.start track latency).run before).played later, f.group ≠ g := by
  have hstart := Player.keeps_start track latency
  obtain ⟨⟨-, hkept⟩, -, -, -⟩ := hstart.run moves h
  simp only [List.nil_append] at hkept
  refine ⟨hkept.ordered, hkept.played_begins, ?_, ?_⟩
  · intro g i f hf
    obtain ⟨cursor, frames, hgives, hreported⟩ := h.framesOf_begins g
    obtain ⟨rest, hrest⟩ := (hkept.played_begins g).trans hreported
    have hframe : frames[i]? = some f := by
      rw [← hrest, List.getElem?_append_left (List.getElem?_eq_some_iff.mp hf).1]
      exact hf
    have hkey := hgives.keyframe i f hframe
    simpa [GroupReader.start] using hkey
  · rintro before later rfl g hover f hf rfl
    rw [reports_append] at h
    obtain ⟨hmid, -, -, hgave⟩ := hstart.run before h.of_append
    obtain ⟨-, -, hlater, -⟩ := hmid.run later (by simpa using h)
    -- the group lies below the floor, and what is played later does not
    have hbelow : f.group < ((Player.start track latency).run before).upToDate.floor := by
      rcases hover with hg | ⟨f', hf', hlt⟩
      · exact hgave _ hg
      · exact Nat.lt_of_lt_of_le hlt (hmid.2.played_le f' (by simpa using hf'))
    exact absurd (hlater f hf) (Nat.not_le_of_lt hbelow)

-- ── a run in which a group is overtaken ─────────────────────────────

/-- A store with one complete group of three frames, at 0, 1 and 2 microseconds. -/
def threeFrames : Store :=
  ⟨#[⟨[[0]], 1, some .complete⟩, ⟨[[1]], 1, some .complete⟩, ⟨[[2]], 1, some .complete⟩],
    #[⟨[⟨0, 1⟩, ⟨1, 1⟩, ⟨2, 1⟩], some .complete⟩], #[], #[]⟩

/-- What a reader gives of that group. -/
def threeMedia : List MediaFrame := [⟨⟨⟨0⟩⟩, true, []⟩, ⟨⟨⟨1⟩⟩, false, []⟩, ⟨⟨⟨2⟩⟩, false, []⟩]

theorem gives_threeMedia : (GroupReader.start ⟨0, 0, 0, none⟩).Gives threeMedia :=
  .frame threeFrames [] rfl (.frame threeFrames [] rfl (.frame threeFrames [] rfl (.stop _)))

/-- Group 1 plays a frame and then stalls, with a frame in its lane, while group 2 comes to lie too far
    ahead of it. -/
def stalled : List Move :=
  [.report (.group 1 0), .report (.frame 1 ⟨⟨⟨0⟩⟩, true, []⟩), .read, .report (.group 2 1),
    .report (.frame 2 ⟨⟨⟨0⟩⟩, true, []⟩), .report (.frame 2 ⟨⟨⟨1⟩⟩, false, []⟩),
    .report (.frame 2 ⟨⟨⟨2⟩⟩, false, []⟩), .setLatency ⟨1000⟩, .read]

/-- Then group 1 comes back, and group 0 is announced late. -/
def comeback : List Move :=
  [.report (.frame 1 ⟨⟨⟨1⟩⟩, false, []⟩), .report (.group 0 2),
    .report (.frame 0 ⟨⟨⟨0⟩⟩, true, []⟩), .read, .read, .read]

theorem reported_comeback : Reported (reports (stalled ++ comeback)) := by
  refine .of_announced (by decide) (by decide) fun g hg => ?_
  have hannounced : announced (reports (stalled ++ comeback)) = [1, 2, 0] := rfl
  simp only [hannounced, List.mem_cons, List.not_mem_nil, or_false] at hg
  rcases hg with rfl | rfl | rfl
  · exact ⟨0, ⟨0, 0, 0, none⟩, threeMedia, gives_threeMedia, ⟨_, rfl⟩⟩
  · exact ⟨1, ⟨0, 0, 0, none⟩, threeMedia, gives_threeMedia, ⟨_, rfl⟩⟩
  · exact ⟨2, ⟨0, 0, 0, none⟩, threeMedia, gives_threeMedia, ⟨_, rfl⟩⟩

/-- Group 1 is given up and never comes back. -/
theorem plays_groups_in_order_comeback :
    Reported (reports (stalled ++ comeback)) ∧
      1 ∈ (Player.start ⟨0, ⟨"video", 0⟩, []⟩ ⟨5000⟩).gaveUp stalled ∧
      ∀ f ∈ ((Player.start ⟨0, ⟨"video", 0⟩, []⟩ ⟨5000⟩).run stalled).played comeback,
        f.group ≠ 1 := by
  have hgave : 1 ∈ (Player.start ⟨0, ⟨"video", 0⟩, []⟩ ⟨5000⟩).gaveUp stalled := by decide
  exact ⟨reported_comeback, hgave,
    (plays_groups_in_order _ _ (stalled ++ comeback) reported_comeback).2.2.2 stalled comeback rfl 1
      (Or.inl hgave)⟩

end LiveMedia.Playback
