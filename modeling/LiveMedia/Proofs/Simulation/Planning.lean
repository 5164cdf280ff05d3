import LiveMedia.Proofs.Simulation.PerfectNetwork
import LiveMedia.Proofs.Time.Conversion

/-!
# The numbers of a video in machine words

Before its first frame the publisher of a video counts its frames in a word of 32 bits and divides a second by
the rate; a clock without a period cannot tick (`Video.plan?`). Then it multiplies the period with the number
of each frame and rounds to a timestamp (`Video.stamp?`). `none` says that the machine stopped.

The arguments are checked one by one, and are positive. That does not keep the product of two of them below
the limit of a word, nor the quotient by the third above zero, so there are videos that are accepted and then
stop the machine. Which they are is told by two bounds (`Video.exists_plan_iff`), and they are those that a run
refuses. With a plan nothing can stop any more: a period is at most a second, and so many seconds are far from
the last timestamp (`Video.stamp?_eq`).
-/

namespace LiveMedia.Simulation

open LiveMedia.Wire LiveMedia.Time LiveMedia.Audio LiveMedia.Playback

/-- So many times a span, which is kept as seconds in 64 bits and a part of one. -/
def times? (d : Span) (n : Nat) : Option Span := do
  let part ← Checked.mul 64 d.subsecond n
  let whole ← Checked.mul 64 d.seconds n
  let seconds ← Checked.add 64 whole (part / Span.perSecond)
  return ⟨seconds * Span.perSecond + part % Span.perSecond⟩

/-- The two parts of a span are multiplied one by one, with what the lower carries to the higher. -/
theorem parts_mul (d : Span) (n : Nat) :
    (d.seconds * n + d.subsecond * n / Span.perSecond) * Span.perSecond +
      d.subsecond * n % Span.perSecond = d.nanos * n := by
  have hsplit : d.seconds * Span.perSecond + d.subsecond = d.nanos := Nat.div_add_mod' d.nanos _
  have hparts : d.subsecond * n / Span.perSecond * Span.perSecond + d.subsecond * n % Span.perSecond =
      d.subsecond * n := Nat.div_add_mod' _ _
  calc (d.seconds * n + d.subsecond * n / Span.perSecond) * Span.perSecond +
        d.subsecond * n % Span.perSecond
      = d.seconds * n * Span.perSecond + (d.subsecond * n / Span.perSecond * Span.perSecond +
        d.subsecond * n % Span.perSecond) := by rw [Nat.add_mul, Nat.add_assoc]
    _ = (d.seconds * Span.perSecond + d.subsecond) * n := by rw [hparts]; ring
    _ = d.nanos * n := by rw [hsplit]

/-- A span of up to a second can be multiplied by any word of 32 bits. -/
theorem times?_eq {d : Span} {n : Nat} (hd : d.nanos ≤ Span.perSecond) (hn : n < 2 ^ 32) :
    times? d n = some ⟨d.nanos * n⟩ := by
  have hsecond : Span.perSecond = 1000000000 := rfl
  have hseconds : d.seconds ≤ 1 := Nat.div_le_of_le_mul (by omega)
  have hsub : d.subsecond < Span.perSecond := Nat.mod_lt _ (by decide)
  -- all that stands between is far below the limit of a word
  have hpart : d.subsecond * n ≤ Span.perSecond * 2 ^ 32 :=
    Nat.mul_le_mul (Nat.le_of_lt hsub) (Nat.le_of_lt hn)
  have hwhole : d.seconds * n ≤ 1 * 2 ^ 32 := Nat.mul_le_mul hseconds (Nat.le_of_lt hn)
  have hcarry : d.subsecond * n / Span.perSecond ≤ 2 ^ 32 := Nat.div_le_of_le_mul hpart
  have hmul : Checked.mul 64 d.subsecond n = some (d.subsecond * n) := Checked.mul_of_lt (by omega)
  have hmul' : Checked.mul 64 d.seconds n = some (d.seconds * n) := Checked.mul_of_lt (by omega)
  have hadd : Checked.add 64 (d.seconds * n) (d.subsecond * n / Span.perSecond) =
      some (d.seconds * n + d.subsecond * n / Span.perSecond) := Checked.add_of_lt (by omega)
  simp only [times?, hmul, hmul', hadd, Option.bind_eq_bind, Option.bind_some, Option.pure_def, parts_mul]

namespace Video

variable {v : Video}

-- ── the plan ────────────────────────────────────────────────────────

/-- The number of frames, and the period of the clock. -/
def plan? (v : Video) : Option (Nat × Span) := do
  let nanos ← quotient? Span.perSecond v.rate
  let count ← Checked.mul 32 v.groups v.frames
  if nanos = 0 then none else return (count, ⟨nanos⟩)

/-- The timestamp of a frame. -/
def stamp? (v : Video) (index : Nat) : Option (Except TimeError Timestamp) := do
  Timescale.ofSpan? (← times? v.period index)

theorem pos_of_isAccepted (h : v.isAccepted = true) : 0 < v.rate ∧ 0 < v.frames := by
  simpa [isAccepted] using h

/-- A nanosecond is the shortest period. -/
theorem period_pos_iff (hrate : 0 < v.rate) : 0 < v.period.nanos ↔ v.rate ≤ 1000000000 := by
  show 0 < 1000000000 / v.rate ↔ _
  rw [Nat.div_pos_iff]
  exact and_iff_right hrate

theorem isPublishable_iff : v.isPublishable = true ↔ 0 < v.period.nanos ∧ v.total < countLimit := by
  simp [isPublishable]

/-- **A video that is accepted has a plan** if it can be published. -/
theorem plan?_eq (haccepted : v.isAccepted = true) :
    v.plan? = if v.isPublishable = true then some (v.total, v.period) else none := by
  have hrate : v.rate ≠ 0 := Nat.ne_of_gt (pos_of_isAccepted haccepted).1
  have hperiod : Span.perSecond / v.rate = v.period.nanos := rfl
  have hlimit : countLimit = 2 ^ 32 := rfl
  have htotal : v.groups * v.frames = v.total := rfl
  simp only [plan?, quotient?, if_neg hrate, Option.bind_eq_bind, Option.bind_some, Checked.mul, Checked.fit,
    hperiod, htotal, isPublishable_iff, hlimit]
  by_cases hcount : v.total < 2 ^ 32
  · rw [if_pos hcount, Option.bind_some]
    by_cases hzero : v.period.nanos = 0
    · rw [if_pos hzero, if_neg fun h => Nat.ne_of_gt h.1 hzero]
    · rw [if_neg hzero, if_pos ⟨Nat.pos_of_ne_zero hzero, hcount⟩]
      rfl
  · rw [if_neg hcount, Option.bind_none, if_neg fun h => hcount h.2]

theorem exists_plan_iff (haccepted : v.isAccepted = true) :
    (∃ plan, v.plan? = some plan) ↔ v.groups * v.frames < 2 ^ 32 ∧ v.rate ≤ 1000000000 := by
  rw [plan?_eq haccepted, ← period_pos_iff (pos_of_isAccepted haccepted).1, and_comm]
  show _ ↔ 0 < v.period.nanos ∧ v.total < countLimit
  rw [← isPublishable_iff]
  split
  · next h => exact iff_of_true ⟨_, rfl⟩ h
  · next h => exact iff_of_false (fun ⟨_, hplan⟩ => by cases hplan) h

-- ── timestamps ──────────────────────────────────────────────────────

/-- **Every frame that is counted has a timestamp.** -/
theorem stamp?_eq (hcount : v.total < countLimit) {index : Nat} (hindex : index < v.total) :
    v.stamp? index = some (.ok (v.picture index).timestamp) := by
  have hperiod : v.period.nanos ≤ Span.perSecond := Nat.div_le_self _ _
  have hword : index < 2 ^ 32 := Nat.lt_trans hindex hcount
  have hseconds : (⟨v.period.nanos * index⟩ : Span).seconds < 2 ^ 64 := by
    have hproduct : v.period.nanos * index ≤ Span.perSecond * 2 ^ 32 :=
      Nat.mul_le_mul hperiod (Nat.le_of_lt hword)
    exact Nat.lt_of_le_of_lt (Nat.div_le_of_le_mul hproduct) (by decide)
  obtain ⟨t, ht, hpicture⟩ := bind_eq_ok.mp (frame_eq hcount hindex)
  rw [stamp?, times?_eq hperiod hword, Option.bind_eq_bind, Option.bind_some,
    Timescale.ofSpan?_eq hseconds, ht, ← Except.ok.inj hpicture]
  rfl

/-- Frames are stamped in order. -/
theorem timestamp_picture_le (v : Video) {earlier index : Nat} (h : earlier ≤ index) :
    (v.picture earlier).timestamp ≤ (v.picture index).timestamp :=
  Nat.div_le_div_right (Nat.mul_le_mul_left _ h)

-- ── which videos are published ──────────────────────────────────────

theorem run_of_plan?_eq_none (haccepted : v.isAccepted = true) (hplan : v.plan? = none) (draw : Draw) :
    v.run draw = .refused .outOfRange := by
  have hrefused : v.isPublishable = false := by
    rw [plan?_eq haccepted] at hplan
    split at hplan
    · cases hplan
    · next h => exact Bool.eq_false_of_not_eq_true h
  rw [run, haccepted, hrefused, if_neg (by decide), if_pos rfl]

/-- **An accepted video is published exactly if its frames fit a word and its rate is at most one in a
    nanosecond.** Otherwise the machine stops before the first frame, and a run is refused.

    If it is published, the frames are counted, the period is positive, and each frame that was counted has
    a timestamp in range, no less than those of the frames before it. -/
theorem publishes_iff_counted_and_timed (haccepted : v.isAccepted = true) :
    ((∃ plan, v.plan? = some plan) ↔ v.groups * v.frames < 2 ^ 32 ∧ v.rate ≤ 1000000000) ∧
    (v.plan? = none → ∀ draw, v.run draw = .refused .outOfRange) ∧
    ∀ count period, v.plan? = some (count, period) →
      count = v.groups * v.frames ∧ period = v.period ∧ 0 < period.nanos ∧
      ∀ index < count, ∃ f : MediaFrame, v.frame index = .ok f ∧ v.stamp? index = some (.ok f.timestamp) ∧
        f.timestamp.value ≤ Varint.maximum ∧
        ∀ earlier ≤ index, ∃ f' : MediaFrame, v.frame earlier = .ok f' ∧ f'.timestamp ≤ f.timestamp := by
  refine ⟨exists_plan_iff haccepted, run_of_plan?_eq_none haccepted, fun count period hplan => ?_⟩
  rw [plan?_eq haccepted] at hplan
  split at hplan
  · next h =>
    obtain ⟨rfl, rfl⟩ := Prod.mk.inj (Option.some.inj hplan)
    obtain ⟨hperiod, hcount⟩ := isPublishable_iff.mp h
    refine ⟨rfl, rfl, hperiod, fun index hindex => ?_⟩
    exact ⟨v.picture index, frame_eq hcount hindex, stamp?_eq hcount hindex, stamp_picture_le hcount hindex,
      fun earlier hearlier => ⟨v.picture earlier, frame_eq hcount (Nat.lt_of_le_of_lt hearlier hindex),
        v.timestamp_picture_le hearlier⟩⟩
  · cases hplan

/-- The last frame of the longest video, at one frame a second. -/
theorem publishes_iff_counted_and_timed_longest :
    let v : Video := { standard with groups := 1, frames := 2 ^ 32 - 1, rate := 1 }
    ∃ f : MediaFrame, v.frame (2 ^ 32 - 2) = .ok f ∧ v.stamp? (2 ^ 32 - 2) = some (.ok f.timestamp) := by
  intro v
  obtain ⟨-, -, hplanned⟩ := publishes_iff_counted_and_timed (v := v) (by decide)
  obtain ⟨-, -, -, hframes⟩ := hplanned (2 ^ 32 - 1) ⟨1000000000⟩ (by decide)
  obtain ⟨f, hframe, hstamp, -, -⟩ := hframes (2 ^ 32 - 2) (by decide)
  exact ⟨f, hframe, hstamp⟩

/-- **To be accepted is not enough.** Two frames in a nanosecond have no period, and `2 ^ 16` groups of as
    many frames are one frame more than a word counts. -/
theorem accepted_is_not_enough :
    let fast : Video := { standard with groups := 1, frames := 1, rate := 2000000000 }
    let long : Video := { standard with groups := 65536, frames := 65536 }
    (fast.isAccepted = true ∧ fast.rate < countLimit ∧ fast.period.nanos = 0 ∧ fast.plan? = none ∧
      ∀ draw, fast.run draw = .refused .outOfRange) ∧
    (long.isAccepted = true ∧ long.groups < countLimit ∧ long.frames < countLimit ∧ long.plan? = none ∧
      ∀ draw, long.run draw = .refused .outOfRange) :=
  ⟨⟨by decide, by decide, by decide, by decide, run_of_plan?_eq_none (by decide) (by decide)⟩,
    by decide, by decide, by decide, by decide, run_of_plan?_eq_none (by decide) (by decide)⟩

end Video

end LiveMedia.Simulation
