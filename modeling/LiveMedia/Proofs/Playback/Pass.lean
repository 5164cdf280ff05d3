import LiveMedia.Playback.Schedule

/-!
# One pass over the lanes

`Schedule.advance` goes over the lanes, oldest first, and decides about each of them: give it up, play
its next frame, drop it because it is finished, or wait for it. `Pass` is that list of decisions as a
relation, one constructor for each, and `pass_advance` says that `advance` makes exactly these. What a
pass preserves is proved by induction on `Pass`; no later proof opens `advance`.

The relation also names the groups that were given up, which `advance` does not return.
-/

namespace LiveMedia.Playback

open LiveMedia.Time

-- ── times ───────────────────────────────────────────────────────────

/-- The later of two times is one of them. -/
theorem latest_eq (a b : Timestamp) : a.latest b = a ∨ a.latest b = b := by
  rw [Timescale.latest]
  by_cases h : a < b
  · exact Or.inr (if_pos h)
  · exact Or.inl (if_neg h)

/-- A tick is 1000 nanoseconds. -/
theorem toSpan_eq (t : Timestamp) : t.toSpan = ⟨t.value * 1000⟩ := by
  have hnanos : t.value * 1000000000 / 1000000 = t.value * 1000 := by omega
  exact congrArg Span.mk hnanos

-- ── decisions ───────────────────────────────────────────────────────

/-- The lane after its next frame was played. -/
def Lane.play (lane : Lane) (f : MediaFrame) (rest : List MediaFrame) : Lane :=
  { lane with buffered := rest, last := some f.timestamp }

namespace Schedule

/-- The groups that a pass gives up because they are stale, oldest first. -/
def givenUp (latency : Span) (newest : Option Timestamp) : Entries Lane → List Nat
  | [] => []
  | (sequence, oldest) :: newer =>
    if isStale latency newest oldest newer then sequence :: givenUp latency newest newer
    else if oldest.buffered = [] ∧ oldest.done = true then givenUp latency newest newer
    else []

/-- The decisions of one pass: from a floor and lanes to the groups given up, the frame played, the new
    floor and the lanes that are left. -/
inductive Pass (latency : Span) (newest : Option Timestamp) :
    Nat → Entries Lane → List Nat → Option OrderedFrame → Nat → Entries Lane → Prop where
  | empty (floor : Nat) : Pass latency newest floor [] [] none floor []
  | skip {floor floor' sequence : Nat} {oldest : Lane} {newer left : Entries Lane}
      {lost : List Nat} {out : Option OrderedFrame}
      (stale : isStale latency newest oldest newer = true)
      (rest : Pass latency newest (max floor (sequenceAfter sequence)) newer lost out floor' left) :
      Pass latency newest floor ((sequence, oldest) :: newer) (sequence :: lost) out floor' left
  | play {floor sequence : Nat} {oldest : Lane} {newer : Entries Lane} {f : MediaFrame}
      {rest : List MediaFrame}
      (fresh : isStale latency newest oldest newer = false) (waiting : oldest.buffered = f :: rest) :
      Pass latency newest floor ((sequence, oldest) :: newer) [] (some ⟨sequence, f⟩)
        (max floor sequence) ((sequence, oldest.play f rest) :: newer)
  | finish {floor floor' sequence : Nat} {oldest : Lane} {newer left : Entries Lane}
      {lost : List Nat} {out : Option OrderedFrame}
      (fresh : isStale latency newest oldest newer = false) (drained : oldest.buffered = [])
      (done : oldest.done = true)
      (rest : Pass latency newest floor newer lost out floor' left) :
      Pass latency newest floor ((sequence, oldest) :: newer) lost out floor' left
  | wait {floor sequence : Nat} {oldest : Lane} {newer : Entries Lane}
      (fresh : isStale latency newest oldest newer = false) (drained : oldest.buffered = [])
      (live : oldest.done = false) :
      Pass latency newest floor ((sequence, oldest) :: newer) [] none floor
        ((sequence, oldest) :: newer)

/-- **`advance` is a pass.** -/
theorem pass_advance (latency : Span) (newest : Option Timestamp) (floor : Nat)
    (lanes : Entries Lane) :
    Pass latency newest floor lanes (givenUp latency newest lanes)
      (advance latency newest floor lanes).1 (advance latency newest floor lanes).2.1
      (advance latency newest floor lanes).2.2 := by
  induction lanes generalizing floor with
  | nil => exact Pass.empty floor
  | cons hd newer ih =>
      obtain ⟨sequence, oldest⟩ := hd
      simp only [advance, givenUp]
      by_cases hs : isStale latency newest oldest newer = true
      · rw [if_pos hs, if_pos hs]
        exact Pass.skip hs (ih _)
      · rw [if_neg hs, if_neg hs]
        have hfresh : isStale latency newest oldest newer = false := Bool.not_eq_true _ ▸ hs
        cases hb : oldest.buffered with
        | cons f rest =>
            rw [if_neg (by simp)]
            exact Pass.play hfresh hb
        | nil =>
            by_cases hd : oldest.done = true
            · rw [if_pos ⟨rfl, hd⟩]
              simp only [if_pos hd]
              exact Pass.finish hfresh hb hd (ih floor)
            · rw [if_neg (fun h => hd h.2)]
              simp only [if_neg hd]
              exact Pass.wait hfresh hb (Bool.not_eq_true _ ▸ hd)

/-- The newest lane is never stale. -/
theorem isStale_nil (latency : Span) (newest : Option Timestamp) (oldest : Lane) :
    isStale latency newest oldest [] = false := by
  cases newest <;> rfl

/-- A lane that is stale has a newer one beside it. -/
theorem ne_nil_of_isStale {latency : Span} {newest : Option Timestamp} {oldest : Lane}
    {newer : Entries Lane} (h : isStale latency newest oldest newer = true) : newer ≠ [] := by
  rintro rfl
  rw [isStale_nil] at h
  exact Bool.noConfusion h

/-- What makes a lane stale: its reference lies more than the budget behind the newest frame. -/
theorem isStale_elim {latency : Span} {newest : Option Timestamp} {oldest : Lane}
    {newer : Entries Lane} (h : isStale latency newest oldest newer = true) :
    ∃ n r, newest = some n ∧ reference oldest newer = some r ∧
      latency < (n.saturatingSub r).toSpan := by
  unfold isStale at h
  split at h
  · next n _ _ =>
    split at h
    · next r hr => exact ⟨n, r, rfl, hr, of_decide_eq_true h⟩
    · exact Bool.noConfusion h
  · exact Bool.noConfusion h

/-- A pass never lowers the floor. -/
theorem Pass.floor_le {latency : Span} {newest : Option Timestamp} {floor floor' : Nat}
    {lanes left : Entries Lane} {lost : List Nat} {out : Option OrderedFrame}
    (h : Pass latency newest floor lanes lost out floor' left) : floor ≤ floor' := by
  induction h with
  | empty => exact Nat.le_refl _
  | skip _ _ ih => exact Nat.le_trans (Nat.le_max_left _ _) ih
  | play => exact Nat.le_max_left _ _
  | finish _ _ _ _ ih => exact ih
  | wait => exact Nat.le_refl _

/-- A pass that plays nothing stops at an empty lane that is not done, or at the end. -/
theorem Pass.left_of_none {latency : Span} {newest : Option Timestamp} {floor floor' : Nat}
    {lanes left : Entries Lane} {lost : List Nat} {out : Option OrderedFrame}
    (h : Pass latency newest floor lanes lost out floor' left) (hout : out = none)
    (hdone : ∀ e ∈ lanes, e.2.done = true) : left = [] := by
  induction h with
  | empty => rfl
  | skip _ _ ih => exact ih hout fun e he => hdone e (List.mem_cons_of_mem _ he)
  | play => exact absurd hout (by simp)
  | finish _ _ _ _ ih => exact ih hout fun e he => hdone e (List.mem_cons_of_mem _ he)
  | wait _ _ hlive =>
      have := hdone _ List.mem_cons_self
      rw [hlive] at this
      exact Bool.noConfusion this

end Schedule

end LiveMedia.Playback
