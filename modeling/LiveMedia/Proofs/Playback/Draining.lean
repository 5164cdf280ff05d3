import Mathlib.Data.List.TakeWhile
import LiveMedia.Proofs.Playback.InOrder
import LiveMedia.Proofs.Playback.Policy

/-!
# What is left to play

A track has ended, and every group that has a lane is done, so nothing more will come. What is still
played is then known beforehand (`Schedule.remaining`): of each lane the frames before the first one that
lies more than the budget behind the newest frame, and all frames of the newest lane.

A lane is looked at again after each of its frames, and it is given up at the first one that is overdue.
So of the turns of the policy only `play` takes anything from `remaining`, and it takes the first frame
(`Turns.remaining_eq`). A read is a pass of such turns (`Drains.read`), and any number of reads is settled
by induction on the number.

With a larger budget the frames of each lane go on at least as far (`framesIn_remaining_begins`).
-/

namespace LiveMedia.Playback

open LiveMedia.Time LiveMedia.Live

-- ── what is left ────────────────────────────────────────────────────

namespace Schedule

/-- The frame lies at most the budget behind the newest time. -/
def isWithin (newest : Option Timestamp) (latency : Span) (f : MediaFrame) : Bool :=
  match newest with
  | some newest => lag newest f.timestamp ≤ latency
  | none => true

/-- The frames of a lane before the first one that lies more than the budget behind. -/
def timely (s : Schedule) (latency : Span) (lane : Lane) : List MediaFrame :=
  lane.buffered.takeWhile (isWithin s.newest latency)

/-- The frames of a lane that are played when nothing more comes. -/
def playable (s : Schedule) (latency : Span) (e : Nat × Lane) : List MediaFrame :=
  if ∀ other ∈ s.lanes, other.1 ≤ e.1 then e.2.buffered else s.timely latency e.2

/-- The frames that are played when nothing more comes, the oldest lane first. -/
def remaining (s : Schedule) (latency : Span) : List OrderedFrame :=
  s.lanes.flatMap fun e => (s.playable latency e).map (OrderedFrame.mk e.1)

variable {s : Schedule}

theorem remaining_of_no_lanes (h : s.lanes = []) (latency : Span) : s.remaining latency = [] := by
  rw [remaining, h]
  rfl

/-- What is left is what the oldest lane has left, and what is left of the newer lanes. -/
theorem Oldest.remaining_eq {g : Nat} {oldest : Lane} {newer : Entries Lane}
    (ho : s.Oldest g oldest newer) (latency : Span) :
    s.remaining latency =
      (if newer = [] then oldest.buffered else s.timely latency oldest).map (OrderedFrame.mk g) ++
        remaining { s with lanes := newer } latency := by
  have hhead : (∀ other ∈ s.lanes, other.1 ≤ g) ↔ newer = [] := by
    rw [ho.lanes_eq]
    constructor
    · intro hall
      refine List.eq_nil_iff_forall_not_mem.mpr fun e he => ?_
      exact Nat.not_le_of_lt (ho.smallest e he) (hall e (List.mem_cons_of_mem _ he))
    · rintro rfl e he
      exact Nat.le_of_eq (congrArg Prod.fst (List.mem_singleton.mp he))
  have htail : ∀ e ∈ newer, (s.playable latency e).map (OrderedFrame.mk e.1) =
      (playable { s with lanes := newer } latency e).map (OrderedFrame.mk e.1) := by
    intro e he
    have hiff : (∀ other ∈ s.lanes, other.1 ≤ e.1) ↔ ∀ other ∈ newer, other.1 ≤ e.1 := by
      rw [ho.lanes_eq, List.forall_mem_cons]
      exact and_iff_right (Nat.le_of_lt (ho.smallest e he))
    rw [playable, playable]
    simp only [hiff]
    rfl
  have hlanes : s.remaining latency = ((g, oldest) :: newer).flatMap fun e =>
      (s.playable latency e).map (OrderedFrame.mk e.1) := by
    rw [remaining, ho.lanes_eq]
  rw [hlanes, List.flatMap_cons, List.flatMap_def, List.map_congr_left htail, ← List.flatMap_def,
    playable]
  simp only [hhead]
  rfl

theorem timely_of_empty {lane : Lane} (h : lane.buffered = []) (latency : Span) :
    s.timely latency lane = [] := by
  rw [timely, h, List.takeWhile_nil]

/-- A lane that is overdue has nothing left: its next frame lies too far behind, or there is none. -/
theorem Overdue.timely_eq_nil {oldest : Lane} {newer : Entries Lane} (h : s.Overdue oldest newer) :
    s.timely s.latency oldest = [] := by
  obtain ⟨-, newest, t, hnewest, hmeasured, hlag⟩ := h
  cases hmeasured with
  | @next f rest hb =>
      have hout : ¬ isWithin s.newest s.latency f = true := by
        rw [hnewest]
        exact fun hin => Nat.not_le_of_lt hlag (of_decide_eq_true hin)
      rw [timely, hb, List.takeWhile_cons_of_neg hout]
  | last hb => exact timely_of_empty hb _
  | newer hb => exact timely_of_empty hb _

/-- Of a lane that is not overdue and has newer ones beside it, the next frame is in time. -/
theorem timely_play {oldest : Lane} {newer : Entries Lane} {f : MediaFrame} {rest : List MediaFrame}
    (hnot : ¬ s.Overdue oldest newer) (hb : oldest.buffered = f :: rest) (hnewer : newer ≠ []) :
    s.timely s.latency oldest = f :: s.timely s.latency (oldest.play f rest) := by
  have hin : isWithin s.newest s.latency f = true := by
    cases hnewest : s.newest with
    | none => rfl
    | some newest =>
        refine decide_eq_true (Nat.le_of_not_lt fun hlag => hnot ?_)
        exact ⟨hnewer, newest, f.timestamp, hnewest, .next hb, hlag⟩
  rw [timely, hb, List.takeWhile_cons_of_pos hin]
  rfl

end Schedule

-- ── what the policy takes ───────────────────────────────────────────

section Turns

variable {s s' : Schedule} {ds : List Decision} {out : Option OrderedFrame}

/-- **Turns take the first frame of what is left.** When every lane is done, they play nothing only if
    there is nothing left, and then no lane is. -/
theorem Turns.remaining_eq (h : Turns s ds out s') (hdone : ∀ e ∈ s.lanes, e.2.done = true) :
    s.remaining s.latency = out.toList ++ s'.remaining s.latency ∧
      (∀ e ∈ s'.lanes, e.2.done = true) ∧ (out = none → s'.lanes = []) := by
  induction h with
  | @play s _ _ ht =>
      cases ht with
      | @play g oldest newer f rest ho hnot hb =>
          have ho' : Schedule.Oldest
              { s with floor := max s.floor g, lanes := (g, oldest.play f rest) :: newer } g
              (oldest.play f rest) newer := ⟨rfl, ho.smallest⟩
          rw [ho.lanes_eq] at hdone
          obtain ⟨hlane, hrest⟩ := List.forall_mem_cons.mp hdone
          refine ⟨?_, List.forall_mem_cons.mpr ⟨hlane, hrest⟩, fun hnone => by cases hnone⟩
          rw [ho.remaining_eq, ho'.remaining_eq]
          by_cases hnewer : newer = []
          · rw [if_pos hnewer, if_pos hnewer, hb]
            rfl
          · rw [if_neg hnewer, if_neg hnewer, Schedule.timely_play hnot hb hnewer]
            rfl
  | wait ht =>
      cases ht with
      | wait ho _ _ hlive =>
          have hlane := hdone _ (ho.lanes_eq ▸ List.mem_cons_self)
          rw [hlive] at hlane
          exact Bool.noConfusion hlane
      | idle hnil => exact ⟨rfl, hdone, fun _ => hnil⟩
  | giveUp ht _ ih =>
      cases ht with
      | giveUp ho hoverdue =>
          obtain ⟨heq, hrest⟩ := ih fun e he => hdone e (ho.lanes_eq ▸ List.mem_cons_of_mem _ he)
          rw [ho.remaining_eq, if_neg hoverdue.1, hoverdue.timely_eq_nil]
          exact ⟨heq, hrest⟩
  | finish ht _ ih =>
      cases ht with
      | finish ho _ hb _ =>
          obtain ⟨heq, hrest⟩ := ih fun e he => hdone e (ho.lanes_eq ▸ List.mem_cons_of_mem _ he)
          rw [ho.remaining_eq, hb, Schedule.timely_of_empty hb, ite_self]
          exact ⟨heq, hrest⟩

end Turns

-- ── group by group ──────────────────────────────────────────────────

namespace Schedule.Regular

variable {s : Schedule}

theorem byGroup_remaining (h : s.Regular) (latency : Span) : ByGroup (s.remaining latency) :=
  byGroup_flatMap (s.playable latency) h.ascending

/-- Of a group what its lane has is left, and nothing of a group without a lane. -/
theorem framesIn_remaining (h : s.Regular) (latency : Span) (g : Nat) :
    framesIn g (s.remaining latency) =
      ((s.lanes.find? g).map fun lane => s.playable latency (g, lane)).getD [] := by
  cases hfind : s.lanes.find? g with
  | some lane => exact framesIn_flatMap (s.playable latency) h.ascending (Entries.mem_of_find? hfind)
  | none =>
      refine framesIn_flatMap_of_ne (s.playable latency) fun e he heq => ?_
      exact (Entries.find?_eq_none_iff h.ascending).mp hfind e.2 (heq ▸ he)

end Schedule.Regular

/-- What lies within a budget lies within a larger one. -/
theorem isWithin_mono {newest : Option Timestamp} {latency latency' : Span} (hle : latency ≤ latency')
    {f : MediaFrame} (h : Schedule.isWithin newest latency f = true) :
    Schedule.isWithin newest latency' f = true := by
  cases newest with
  | none => rfl
  | some newest =>
      have hlag : lag newest f.timestamp ≤ latency := of_decide_eq_true h
      exact decide_eq_true (Nat.le_trans hlag hle)

/-- A lane goes on at least as far with a larger budget. -/
theorem playable_begins (s : Schedule) {latency latency' : Span} (hle : latency ≤ latency')
    (e : Nat × Lane) : s.playable latency e <+: s.playable latency' e := by
  rw [Schedule.playable, Schedule.playable]
  split
  · exact List.prefix_rfl
  · -- what the smaller budget takes is taken from what the larger one takes
    have hsame : s.timely latency e.2 = (s.timely latency' e.2).takeWhile
        (Schedule.isWithin s.newest latency) := by
      rw [Schedule.timely, Schedule.timely, List.takeWhile_takeWhile]
      refine congrArg (List.takeWhile · _) (funext fun f => ?_)
      cases hw : Schedule.isWithin s.newest latency f with
      | false => simp
      | true => simp [isWithin_mono hle hw]
    rw [hsame]
    exact List.takeWhile_prefix _

theorem framesIn_remaining_begins {s : Schedule} (h : s.Regular) {latency latency' : Span}
    (hle : latency ≤ latency') (g : Nat) :
    framesIn g (s.remaining latency) <+: framesIn g (s.remaining latency') := by
  rw [h.framesIn_remaining, h.framesIn_remaining]
  cases s.lanes.find? g with
  | none => exact List.prefix_rfl
  | some lane => exact playable_begins s hle (g, lane)

-- ── reads ───────────────────────────────────────────────────────────

namespace Player

/-- The track of a player has ended, and no lane waits for anything. -/
structure Drains (p : Player) (result : Except MediaError Unit) : Prop where
  opened : p.closed = false
  regular : p.upToDate.Regular
  done : ∀ e ∈ p.upToDate.lanes, e.2.done = true
  ended : p.upToDate.ended = some result

/-- What a player has left to play. -/
def left (p : Player) : List OrderedFrame := p.upToDate.remaining p.upToDate.latency

variable {p : Player} {result : Except MediaError Unit}

/-- **A read plays the first frame that is left**, or gives the end when there is none. -/
theorem Drains.read (h : p.Drains result) : (p.after .read).Drains result ∧
    p.left = p.plays .read ++ (p.after .read).left ∧
    (p.plays .read = [] → p.readFrame.1 = ending result ∧ (p.after .read).left = []) := by
  obtain ⟨ds, hds⟩ := h.regular.turns_next
  obtain ⟨hleft, hdone, hnil⟩ := hds.remaining_eq h.done
  have hafter := p.upToDate_read h.opened
  have hplays := p.plays_read h.opened
  have hnone : p.plays .read = [] → (p.after .read).upToDate.lanes = [] := by
    intro hempty
    rw [hplays] at hempty
    rw [hafter]
    exact hnil (Option.toList_eq_nil_iff.mp hempty)
  refine ⟨⟨(p.closed_after .read).trans h.opened, ?_, ?_, ?_⟩, ?_, ?_⟩
  · rw [hafter]
    exact h.regular.next
  · rw [hafter]
    exact hdone
  · rw [hafter]
    exact h.ended
  · rw [hplays, left, left, hafter]
    exact hleft
  · intro hempty
    have hout : p.upToDate.next.1 = none := Option.toList_eq_nil_iff.mp (hplays ▸ hempty)
    exact ⟨p.readFrame_ended h.opened hout (hnone hempty) h.ended,
      Schedule.remaining_of_no_lanes (hnone hempty) _⟩

/-- A read plays at most one frame. -/
theorem plays_read_eq (h : p.closed = false) : p.plays .read = [] ∨ ∃ f, p.plays .read = [f] := by
  rw [p.plays_read h]
  cases p.upToDate.next.1 with
  | none => exact Or.inl rfl
  | some f => exact Or.inr ⟨f, rfl⟩

/-- **Reads play what is left, frame by frame.** -/
theorem Drains.played_reads (h : p.Drains result) (n : Nat) :
    p.played (List.replicate n .read) = p.left.take n := by
  induction n generalizing p with
  | zero => rfl
  | succ n ih =>
      obtain ⟨hafter, hleft, hend⟩ := h.read
      show p.plays .read ++ (p.after .read).played (List.replicate n .read) = _
      rw [ih hafter, hleft]
      rcases plays_read_eq h.opened with hnone | ⟨f, hf⟩
      · rw [hnone, (hend hnone).2, List.append_nil, List.take_nil, List.take_nil]
        rfl
      · rw [hf]
        rfl

/-- Behind the last frame every read gives the end. -/
theorem Drains.ends (h : p.Drains result) {n : Nat} (hn : p.left.length ≤ n) :
    (p.run (List.replicate n .read)).readFrame.1 = ending result := by
  induction n generalizing p with
  | zero =>
      obtain ⟨-, hleft, hend⟩ := h.read
      rw [List.length_eq_zero_iff.mp (Nat.le_zero.mp hn)] at hleft
      exact (hend (List.append_eq_nil_iff.mp hleft.symm).1).1
  | succ n ih =>
      obtain ⟨hafter, hleft, hend⟩ := h.read
      refine ih hafter ?_
      rcases plays_read_eq h.opened with hnone | ⟨f, hf⟩
      · rw [(hend hnone).2]
        exact Nat.zero_le n
      · rw [hleft, hf] at hn
        exact Nat.le_of_succ_le_succ hn

/-- A player drains under any budget. -/
theorem Drains.setLatency (h : p.Drains result) (latency : Span) :
    (p.setLatency latency).Drains result ∧ (p.setLatency latency).left = p.upToDate.remaining latency := by
  have hup : (p.setLatency latency).upToDate = { p.upToDate with latency } :=
    p.upToDate_setLatency latency
  refine ⟨⟨h.opened, ?_, ?_, ?_⟩, ?_⟩
  · rw [hup]
    exact h.regular.setLatency latency
  · rw [hup]
    exact h.done
  · rw [hup]
    exact h.ended
  · rw [left, hup]
    rfl

end Player

-- ── draining ────────────────────────────────────────────────────────

/-- **What is played at the end is known beforehand.** When the track of an open player has ended and every
    lane is done, then under any budget:

    * what is left ascends by group: of each lane but the newest the frames before the first one that lies
      more than the budget behind the newest frame, and all frames of the newest lane;
    * each read plays the next of these frames, and behind the last one it gives the end of the track;
    * a larger budget plays, of every group, at least the frames that a smaller one plays. -/
theorem draining_plays_remaining {p : Player} {result : Except MediaError Unit}
    (hopen : p.closed = false) (h : Reachable p.upToDate)
    (hdone : ∀ e ∈ p.upToDate.lanes, e.2.done = true) (hended : p.upToDate.ended = some result) :
    (∀ latency, ByGroup (p.upToDate.remaining latency) ∧
      (∀ n, (p.setLatency latency).played (List.replicate n .read) =
        (p.upToDate.remaining latency).take n) ∧
      ∀ n, (p.upToDate.remaining latency).length ≤ n →
        ((p.setLatency latency).run (List.replicate n .read)).readFrame.1 = Player.ending result) ∧
    ∀ latency latency' n m g, latency ≤ latency' → (p.upToDate.remaining latency').length ≤ m →
      framesIn g ((p.setLatency latency).played (List.replicate n .read)) <+:
        framesIn g ((p.setLatency latency').played (List.replicate m .read)) := by
  have hdrains : p.Drains result := ⟨hopen, h.regular, hdone, hended⟩
  have hplayed : ∀ latency n, (p.setLatency latency).played (List.replicate n .read) =
      (p.upToDate.remaining latency).take n := by
    intro latency n
    obtain ⟨hset, hleft⟩ := hdrains.setLatency latency
    rw [hset.played_reads n, hleft]
  refine ⟨fun latency => ⟨h.regular.byGroup_remaining latency, hplayed latency, ?_⟩, ?_⟩
  · intro n hn
    obtain ⟨hset, hleft⟩ := hdrains.setLatency latency
    exact hset.ends (hleft ▸ hn)
  · intro latency latency' n m g hle hm
    rw [hplayed, hplayed, List.take_of_length_le hm]
    have hfront : framesIn g ((p.upToDate.remaining latency).take n) <+:
        framesIn g (p.upToDate.remaining latency) :=
      ((List.take_prefix n _).filter _).map _
    exact hfront.trans (framesIn_remaining_begins h.regular hle g)

/-- Three groups that are done: group 0 with frames at 25, 10 and 28 milliseconds, group 1 with none, and
    group 2 with one at 30 milliseconds. -/
def threeDone : List Move :=
  [.report (.group 0 0), .report (.frame 0 ⟨⟨⟨25000⟩⟩, true, []⟩),
    .report (.frame 0 ⟨⟨⟨10000⟩⟩, false, []⟩), .report (.frame 0 ⟨⟨⟨28000⟩⟩, false, []⟩),
    .report (.groupDone 0), .report (.group 1 1), .report (.groupDone 1), .report (.group 2 2),
    .report (.frame 2 ⟨⟨⟨30000⟩⟩, true, []⟩), .report (.groupDone 2), .report (.trackDone (.ok ()))]

/-- With a budget of 10 milliseconds group 0 is given up at its second frame, and with it the third one,
    which would be in time. With a budget of 20 all frames are played. -/
theorem draining_plays_remaining_threeDone :
    (((Player.start ⟨0, ⟨"video", 0⟩, []⟩ ⟨0⟩).run threeDone).setLatency (.ofMillis 10)).played
        (List.replicate 4 .read) = [⟨0, ⟨⟨⟨25000⟩⟩, true, []⟩⟩, ⟨2, ⟨⟨⟨30000⟩⟩, true, []⟩⟩] ∧
      ((((Player.start ⟨0, ⟨"video", 0⟩, []⟩ ⟨0⟩).run threeDone).setLatency (.ofMillis 10)).run
        (List.replicate 2 .read)).readFrame.1 = .ok none ∧
      ∀ g, framesIn g ((((Player.start ⟨0, ⟨"video", 0⟩, []⟩ ⟨0⟩).run threeDone).setLatency
          (.ofMillis 10)).played (List.replicate 2 .read)) <+:
        framesIn g ((((Player.start ⟨0, ⟨"video", 0⟩, []⟩ ⟨0⟩).run threeDone).setLatency
          (.ofMillis 20)).played (List.replicate 4 .read)) := by
  have hreach : Reachable ((Player.start ⟨0, ⟨"video", 0⟩, []⟩ ⟨0⟩).run threeDone).upToDate :=
    Player.reachable_upToDate _ _ threeDone (by decide)
  have hended : ((Player.start ⟨0, ⟨"video", 0⟩, []⟩ ⟨0⟩).run threeDone).upToDate.ended =
      some (.ok ()) := rfl
  obtain ⟨hdrain, hmore⟩ := draining_plays_remaining rfl hreach (by decide) hended
  obtain ⟨-, hplayed, hend⟩ := hdrain (.ofMillis 10)
  refine ⟨?_, hend 2 (by decide), fun g => hmore _ _ 2 4 g (by decide) (by decide)⟩
  rw [hplayed]
  decide

end LiveMedia.Playback
