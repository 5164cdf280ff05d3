import LiveMedia.Proofs.Audio.Words
import LiveMedia.Proofs.Time.Range

/-!
# Conversions of times

Times are converted by one product and one quotient, rounded down. Two things are to be shown: what comes
out when a conversion and its reverse are put together, and that words are wide enough for what stands
between.

The first is arithmetic of quotients. To a scale and back never gives more than there was
(`there_and_back_le`), whatever the two scales are; through nanoseconds, which are at least as fine as any
scale up to `10^9`, it loses less than one tick (`lt_there_and_back`), and nothing if a tick is a whole
number of nanoseconds.

The second is told by the conversions as a machine runs them (`ofScale?`, `inScale?`, `ofSpan?`, `toSpan?`):
products in 128 bits, which stop the machine when they do not fit, and casts that drop the bits above a
narrower word. They compute what the conversions on numbers compute. The one product that may be too large
is that of a span and a scale; it is checked, and only a result that is far out of range makes it so.
-/

namespace LiveMedia.Time

open LiveMedia.Wire (Varint)
open LiveMedia.Audio (Checked.fit Checked.add Checked.mul Checked.fit_of_lt Checked.add_of_lt
  Checked.mul_of_lt)

-- ── quotients ───────────────────────────────────────────────────────

/-- From one scale to another and back, each time rounded down, is never more. -/
theorem there_and_back_le (n : Nat) {scale : Nat} (hscale : 0 < scale) (other : Nat) :
    n * scale / other * other / scale ≤ n := by
  have hdown : n * scale / other * other ≤ n * scale := Nat.div_mul_le_self _ _
  calc n * scale / other * other / scale ≤ n * scale / scale := Nat.div_le_div_right hdown
    _ = n := Nat.mul_div_cancel n hscale

/-- Through a scale that is at least as fine less than two ticks are missing, so at most one is. -/
theorem lt_there_and_back (n : Nat) {scale fine : Nat} (hscale : 0 < scale) (hfine : scale ≤ fine) :
    n < n * fine / scale * scale / fine + 2 := by
  have hup : n * fine < n * fine / scale * scale + scale := Nat.lt_div_mul_add hscale
  have hback : n * fine / scale * scale < n * fine / scale * scale / fine * fine + fine :=
    Nat.lt_div_mul_add (Nat.lt_of_lt_of_le hscale hfine)
  refine Nat.lt_of_mul_lt_mul_right (a := fine) ?_
  calc n * fine < n * fine / scale * scale / fine * fine + fine + fine := by omega
    _ = (n * fine / scale * scale / fine + 2) * fine := by ring

/-- A tick of the scale is a whole number of ticks of the finer one: nothing is lost. -/
theorem there_and_back_of_dvd (n : Nat) {scale fine : Nat} (hfine : 0 < fine)
    (hdvd : scale ∣ fine) : n * fine / scale * scale / fine = n := by
  have hexact : n * fine / scale * scale = n * fine :=
    Nat.div_mul_cancel (Nat.dvd_mul_left_of_dvd hdvd n)
  rw [hexact, Nat.mul_div_cancel n hfine]

-- ── the conversions in words ────────────────────────────────────────

/-- A quotient. There is none by zero. -/
def quotient? (a b : Nat) : Option Nat := if b = 0 then none else some (a / b)

/-- What a cast to so many bits leaves of a number. -/
def cast (bits n : Nat) : Nat := n % 2 ^ bits

namespace Timescale

variable {scale : Nat}

/-- The time of a number of ticks in 128 bits, which is compared with the range and then cast. -/
def ofWide (n : Nat) : Except TimeError (Timescale scale) :=
  if n ≤ Varint.maximum then .ok ⟨⟨cast 64 n⟩⟩ else .error .overflow

/-- The time of `n` ticks of another scale. -/
def ofScale? (n other : Nat) : Option (Except TimeError (Timescale scale)) := do
  let product ← Checked.mul 128 n scale
  return ofWide (← quotient? product other)

/-- The time in units of `1 / other` seconds. -/
def inScale? (t : Timescale scale) (other : Nat) : Option Nat := do
  let product ← Checked.mul 128 t.value other
  quotient? product scale

/-- The nanoseconds of a span, which is kept as seconds and a part of one. -/
def nanosOf? (d : Span) : Option Nat := do
  let whole ← Checked.mul 128 d.seconds Span.perSecond
  Checked.add 128 whole d.subsecond

/-- The time of a span. A product that does not fit is an answer here. -/
def ofSpan? (d : Span) : Option (Except TimeError (Timescale scale)) := do
  match Checked.mul 128 (← nanosOf? d) scale with
  | none => return .error .overflow
  | some product => return ofWide (← quotient? product Span.perSecond)

/-- The span of a time, of which the seconds are cast to 64 bits and the nanoseconds to 32. -/
def toSpan? (t : Timescale scale) : Option Span := do
  let nanos ← t.inScale? Span.perSecond
  let seconds := cast 64 (nanos / Span.perSecond)
  let subsecond := cast 32 (nanos % Span.perSecond)
  return ⟨seconds * Span.perSecond + subsecond⟩

-- ── words are wide enough ───────────────────────────────────────────

theorem ofWide_eq (n : Nat) : (ofWide n : Except TimeError (Timescale scale)) = ofTicks n := by
  rw [ofWide, ofTicks, Varint.ofNat?]
  by_cases hle : n ≤ Varint.maximum
  · have hword : n < 2 ^ 64 := Nat.lt_of_le_of_lt hle (by decide)
    rw [if_pos hle, if_pos hle, cast, Nat.mod_eq_of_lt hword]
  · rw [if_neg hle, if_neg hle]

/-- Two words have their product in 128 bits. -/
theorem mul_lt_of_words {a b : Nat} (ha : a < 2 ^ 64) (hb : b < 2 ^ 64) : a * b < 2 ^ 128 := by
  have hpow : (2 : Nat) ^ 128 = 2 ^ 64 * 2 ^ 64 := Nat.pow_add 2 64 64
  rw [hpow]
  exact Nat.mul_lt_mul'' ha hb

theorem ofScale?_eq {n other : Nat} (hscale : scale < 2 ^ 64) (hn : n < 2 ^ 64) (hother : 0 < other) :
    (ofScale? n other : Option (Except TimeError (Timescale scale))) = some (ofScale n other) := by
  have hne : other ≠ 0 := Nat.ne_of_gt hother
  simp only [ofScale?, quotient?, Checked.mul_of_lt (mul_lt_of_words hn hscale), Option.bind_eq_bind,
    Option.bind_some, if_neg hne, ofWide_eq, Option.pure_def, ofScale]

theorem inScale?_eq {t : Timescale scale} {other : Nat} (hscale : 0 < scale)
    (ht : t.value ≤ Varint.maximum) (hother : other < 2 ^ 64) :
    t.inScale? other = some (t.inScale other) := by
  have hword : t.value < 2 ^ 64 := Nat.lt_of_le_of_lt ht (by decide)
  simp only [inScale?, quotient?, Checked.mul_of_lt (mul_lt_of_words hword hother),
    Option.bind_eq_bind, Option.bind_some, if_neg (Nat.ne_of_gt hscale), inScale]

theorem nanosOf?_eq {d : Span} (hd : d.seconds < 2 ^ 64) : nanosOf? d = some d.nanos := by
  have hsplit : d.seconds * Span.perSecond + d.subsecond = d.nanos := Nat.div_add_mod' d.nanos _
  have hsub : d.subsecond < Span.perSecond := Nat.mod_lt _ (by decide)
  have hsecond : Span.perSecond < 2 ^ 64 := by decide
  have hwhole : d.seconds * Span.perSecond < 2 ^ 128 := mul_lt_of_words hd hsecond
  have hnanos : d.seconds * Span.perSecond + d.subsecond < 2 ^ 128 := by
    have hsum : (d.seconds + 1) * Span.perSecond ≤ 2 ^ 64 * Span.perSecond :=
      Nat.mul_le_mul_right _ hd
    have hroom : 2 ^ 64 * Span.perSecond < 2 ^ 128 := by decide
    rw [Nat.add_one_mul] at hsum
    omega
  rw [nanosOf?, Checked.mul_of_lt hwhole, Option.bind_eq_bind, Option.bind_some,
    Checked.add_of_lt hnanos, hsplit]

/-- A product that does not fit in 128 bits is the time of no span in range. -/
theorem ofSpan_of_not_lt {d : Span} (h : ¬ d.nanos * scale < 2 ^ 128) :
    (ofSpan d : Except TimeError (Timescale scale)) = .error .overflow := by
  have hbeyond : ¬ d.nanos * scale / Span.perSecond ≤ Varint.maximum := by
    have hsecond : Span.perSecond = 1000000000 := rfl
    have hmax : Varint.maximum = 4611686018427387903 := rfl
    rw [hsecond, hmax]
    omega
  rw [ofSpan, ofTicks, Varint.ofNat?, if_neg hbeyond]

theorem ofSpan?_eq {d : Span} (hd : d.seconds < 2 ^ 64) :
    (ofSpan? d : Option (Except TimeError (Timescale scale))) = some (ofSpan d) := by
  rw [ofSpan?, nanosOf?_eq hd, Option.bind_eq_bind, Option.bind_some]
  by_cases hfits : d.nanos * scale < 2 ^ 128
  · have hne : Span.perSecond ≠ 0 := by decide
    simp only [Checked.mul_of_lt hfits, quotient?, if_neg hne, Option.bind_some, ofWide_eq,
      Option.pure_def, ofSpan]
  · have hnone : Checked.mul 128 d.nanos scale = none := by
      rw [Checked.mul, Checked.fit, if_neg hfits]
    simp only [hnone, ofSpan_of_not_lt hfits, Option.pure_def]

/-- A time has at most as many whole seconds as ticks, so no cast drops anything. -/
theorem seconds_toSpan_le {t : Timescale scale} (hscale : 0 < scale) : t.toSpan.seconds ≤ t.value := by
  show t.value * Span.perSecond / scale / Span.perSecond ≤ t.value
  rw [Nat.div_div_eq_div_mul]
  refine Nat.div_le_of_le_mul ?_
  calc t.value * Span.perSecond ≤ t.value * Span.perSecond * scale := Nat.le_mul_of_pos_right _ hscale
    _ = scale * Span.perSecond * t.value := by ring

theorem seconds_toSpan_lt {t : Timescale scale} (hscale : 0 < scale) (ht : t.value ≤ Varint.maximum) :
    t.toSpan.seconds < 2 ^ 64 :=
  Nat.lt_of_le_of_lt (seconds_toSpan_le hscale) (Nat.lt_of_le_of_lt ht (by decide))

theorem toSpan?_eq {t : Timescale scale} (hscale : 0 < scale) (ht : t.value ≤ Varint.maximum) :
    t.toSpan? = some t.toSpan := by
  have hseconds := seconds_toSpan_lt hscale ht
  have hsub : t.toSpan.subsecond < 2 ^ 32 := Nat.lt_trans (Nat.mod_lt _ (by decide))
    (by decide : Span.perSecond < 2 ^ 32)
  have hsecond : Span.perSecond < 2 ^ 64 := by decide
  simp only [toSpan?, inScale?_eq hscale ht hsecond, Option.bind_eq_bind, Option.bind_some, cast,
    Option.pure_def]
  have hcast : t.inScale Span.perSecond / Span.perSecond % 2 ^ 64 = t.toSpan.seconds :=
    Nat.mod_eq_of_lt hseconds
  have hcast' : t.inScale Span.perSecond % Span.perSecond % 2 ^ 32 = t.toSpan.subsecond :=
    Nat.mod_eq_of_lt hsub
  rw [hcast, hcast']
  exact congrArg (fun n => some (Span.mk n)) (Nat.div_add_mod' t.toSpan.nanos _)

-- ── what conversions give ───────────────────────────────────────────

theorem value_eq_iff {t : Timescale scale} {n : Nat} : t.value = n ↔ t = ⟨⟨n⟩⟩ := by
  constructor
  · rintro rfl
    rfl
  · rintro rfl
    rfl

theorem ofScale_eq_ok_iff {n other : Nat} (hother : 0 < other) {t : Timescale scale} :
    ofScale n other = .ok t ↔ n * scale / other ≤ Varint.maximum ∧ t.value = n * scale / other := by
  rw [ofScale, if_neg (Nat.ne_of_gt hother), ofTicks_eq_ok_iff]
  exact and_congr_right fun _ => value_eq_iff.symm

theorem ofSpan_eq_ok_iff {d : Span} {t : Timescale scale} :
    ofSpan d = .ok t ↔ d.nanos * scale / Span.perSecond ≤ Varint.maximum ∧
      t.value = d.nanos * scale / Span.perSecond := by
  rw [ofSpan, ofTicks_eq_ok_iff]
  exact and_congr_right fun _ => value_eq_iff.symm

/-- A time that came from another scale is no more than what it came from. -/
theorem inScale_of_ofScale {n other : Nat} (hscale : 0 < scale) (hother : 0 < other)
    {t : Timescale scale} (h : ofScale n other = .ok t) : t.inScale other ≤ n := by
  rw [inScale, ((ofScale_eq_ok_iff hother).mp h).2]
  exact there_and_back_le n hscale other

/-- To another scale and back always gives a time. -/
theorem ofScale_inScale {t : Timescale scale} (ht : t.value ≤ Varint.maximum) {other : Nat}
    (hother : 0 < other) :
    ∃ u : Timescale scale, ofScale (t.inScale other) other = .ok u ∧ u.value ≤ t.value := by
  have hback : t.inScale other * scale / other ≤ t.value := there_and_back_le t.value hother scale
  refine ⟨⟨⟨t.inScale other * scale / other⟩⟩, ?_, hback⟩
  exact (ofScale_eq_ok_iff hother).mpr ⟨Nat.le_trans hback ht, rfl⟩

/-- To a span and back always gives a time, of at most one tick less. -/
theorem ofSpan_toSpan {t : Timescale scale} (ht : t.value ≤ Varint.maximum) (hscale : 0 < scale)
    (hfine : scale ≤ Span.perSecond) :
    ∃ u : Timescale scale, ofSpan t.toSpan = .ok u ∧ (u.value = t.value ∨ u.value + 1 = t.value) ∧
      (scale ∣ Span.perSecond → u = t) := by
  have hpos : 0 < Span.perSecond := by decide
  obtain ⟨back, hticks⟩ : ∃ back, t.value * Span.perSecond / scale * scale / Span.perSecond = back :=
    ⟨_, rfl⟩
  have hback : back ≤ t.value := hticks ▸ there_and_back_le t.value hpos scale
  have hnear : t.value < back + 2 := hticks ▸ lt_there_and_back t.value hscale hfine
  refine ⟨⟨⟨back⟩⟩, ?_, ?_, ?_⟩
  · rw [ofSpan_eq_ok_iff, toSpan, inScale, hticks]
    exact ⟨Nat.le_trans hback ht, rfl⟩
  · show back = t.value ∨ back + 1 = t.value
    omega
  · intro hdvd
    rw [there_and_back_of_dvd t.value hpos hdvd] at hticks
    exact (value_eq_iff.mp hticks).symm

-- ── the conversions as a whole ──────────────────────────────────────

/-- What holds of the conversions to a scale: of `n` ticks of another one and back, of a time `t` to the
other one and back, of a span, and of `t` to a span and back. -/
structure RoundDown (n other : Nat) (t : Timescale scale) (d : Span) : Prop where
  /-- The machine gets through, and gives what the conversion on numbers gives. -/
  ofScale_runs : ofScale? n other = some (ofScale n other : Except TimeError (Timescale scale))
  inScale_runs : t.inScale? other = some (t.inScale other)
  ofSpan_runs : ofSpan? d = some (ofSpan d : Except TimeError (Timescale scale))
  toSpan_runs : t.toSpan? = some t.toSpan
  /-- A conversion gives a time exactly if the floor is in range. -/
  ofScale_ok : ∀ u : Timescale scale, ofScale n other = .ok u ↔
    n * scale / other ≤ Varint.maximum ∧ u.value = n * scale / other
  ofSpan_ok : ∀ u : Timescale scale, ofSpan d = .ok u ↔
    d.nanos * scale / 1000000000 ≤ Varint.maximum ∧ u.value = d.nanos * scale / 1000000000
  inScale_eq : t.inScale other = t.value * other / scale
  toSpan_eq : t.toSpan.nanos = t.value * 1000000000 / scale
  /-- The seconds of a span are a word. -/
  toSpan_word : t.toSpan.seconds < 2 ^ 64
  inScale_ofScale : ∀ u : Timescale scale, ofScale n other = .ok u →
    ∃ back, u.inScale? other = some back ∧ back ≤ n
  ofScale_inScale : t.inScale other < 2 ^ 64 →
    ∃ u : Timescale scale, ofScale? (t.inScale other) other = some (.ok u) ∧ u.value ≤ t.value
  ofSpan_toSpan : scale ≤ 1000000000 →
    ∃ u : Timescale scale, ofSpan? t.toSpan = some (.ok u) ∧
      (u.value = t.value ∨ u.value + 1 = t.value) ∧ (scale ∣ 1000000000 → u = t)

/-- **Conversions round down, and words are wide enough for what stands between.** -/
theorem conversions_round_down (hscale : 0 < scale) (hscale' : scale < 2 ^ 64) {n other : Nat}
    (hn : n < 2 ^ 64) (hother : 0 < other) (hother' : other < 2 ^ 64) {t : Timescale scale}
    (ht : t.value ≤ Varint.maximum) {d : Span} (hd : d.seconds < 2 ^ 64) : RoundDown n other t d where
  ofScale_runs := ofScale?_eq hscale' hn hother
  inScale_runs := inScale?_eq hscale ht hother'
  ofSpan_runs := ofSpan?_eq hd
  toSpan_runs := toSpan?_eq hscale ht
  ofScale_ok _ := ofScale_eq_ok_iff hother
  ofSpan_ok _ := ofSpan_eq_ok_iff
  inScale_eq := rfl
  toSpan_eq := rfl
  toSpan_word := seconds_toSpan_lt hscale ht
  inScale_ofScale u hu := by
    have hrange : u.value ≤ Varint.maximum := ofScale_le hu
    exact ⟨u.inScale other, inScale?_eq hscale hrange hother', inScale_of_ofScale hscale hother hu⟩
  ofScale_inScale hfits := by
    obtain ⟨u, hu, hle⟩ := ofScale_inScale ht hother
    refine ⟨u, ?_, hle⟩
    rw [ofScale?_eq hscale' hfits hother, hu]
  ofSpan_toSpan hfine := by
    obtain ⟨u, hu, hnear, hexact⟩ := ofSpan_toSpan ht hscale hfine
    refine ⟨u, ?_, hnear, hexact⟩
    rw [ofSpan?_eq (seconds_toSpan_lt hscale ht), hu]

/-- A scale of which no tick is a whole number of nanoseconds, the largest word and the latest time. -/
theorem conversions_round_down_audio :
    @RoundDown 44100 (2 ^ 64 - 1) 48000 last ⟨5500000000⟩ :=
  conversions_round_down (by decide) (by decide) (by decide) (by decide) (by decide) (by decide)
    (by decide)

end Timescale

end LiveMedia.Time
