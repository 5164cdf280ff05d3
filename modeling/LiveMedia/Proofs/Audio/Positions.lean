import LiveMedia.Proofs.Audio.Bounds
import LiveMedia.Proofs.Time.Range
import LiveMedia.Simulation.Audio

/-!
# Where published audio lands

A publisher stamps each frame with the time of its first sample, in microseconds and rounded down. The ring
turns the time back into a position, rounded to the nearest. Rounding down loses less than a microsecond,
which is less than half a sample as long as there are at most 500000 samples in a second, so the position
comes back as it was (`position_of_micros`).

Frames of one length that follow each other are therefore one stretch of samples. `Timeline.Lands` says what
it means for a stretch to land on a timeline: both ends of the window are known, the stretch is there as far
as it can still be read, and what lies before it is untouched. One write lands (`Timeline.lands_write`), a
stretch that begins where another ends makes a longer one with it (`Timeline.Lands.append`), and so a run of
any length is an induction over its frames.
-/

namespace LiveMedia.Audio

open LiveMedia.Time LiveMedia.Playback LiveMedia.Wire LiveMedia.Simulation

-- ── a position and its time ─────────────────────────────────────────

/-- From samples to microseconds, rounded down, and back, rounded to the nearest. -/
theorem position_of_micros {rate : Nat} (hpos : 0 < rate) (hrate : rate ≤ 500000) (w : Nat) :
    (w * 1000000 / rate * rate + 500000) / 1000000 = w := by
  have hlow : w * 1000000 / rate * rate ≤ w * 1000000 := Nat.div_mul_le_self _ _
  have hhigh : w * 1000000 < w * 1000000 / rate * rate + rate := Nat.lt_div_mul_add hpos
  omega

/-- The time of a position, if there is one. -/
theorem ofScale_eq_ok_iff {rate : Nat} (hpos : 0 < rate) {w : Nat} {timestamp : Timestamp} :
    Timescale.ofScale w rate = .ok timestamp ↔
      timestamp = ⟨⟨w * 1000000 / rate⟩⟩ ∧ w * 1000000 / rate ≤ Varint.maximum := by
  rw [Timescale.ofScale, if_neg (Nat.ne_of_gt hpos), Timescale.ofTicks_eq_ok_iff]
  exact and_comm

theorem Ring.positionOf_ofScale {r : Ring} (hpos : 0 < r.sampleRate) (hrate : r.sampleRate ≤ 500000)
    {w : Nat} {timestamp : Timestamp} (h : Timescale.ofScale w r.sampleRate = .ok timestamp) :
    r.positionOf timestamp = w := by
  obtain ⟨rfl, -⟩ := (ofScale_eq_ok_iff hpos).mp h
  have hmicros : (⟨⟨w * 1000000 / r.sampleRate⟩⟩ : Timestamp).micros =
      w * 1000000 / r.sampleRate := by
    show w * 1000000 / r.sampleRate * 1000000 / 1000000 = _
    omega
  rw [Ring.positionOf, hmicros]
  exact position_of_micros hpos hrate w

/-- A position whose time can be written is a word. -/
theorem lt_of_ofScale {rate : Nat} (hpos : 0 < rate) (hrate : rate ≤ 500000) {w : Nat}
    {timestamp : Timestamp} (h : Timescale.ofScale w rate = .ok timestamp) : w < 2 ^ 64 := by
  obtain ⟨-, hfits⟩ := (ofScale_eq_ok_iff hpos).mp h
  have hhigh : w * 1000000 < w * 1000000 / rate * rate + rate := Nat.lt_div_mul_add hpos
  have hproduct : w * 1000000 / rate * rate ≤ Varint.maximum * 500000 := Nat.mul_le_mul hfits hrate
  have hmaximum : Varint.maximum = 4611686018427387903 := rfl
  omega

theorem Timeline.indexOf_ofScale {t : Timeline} (hpos : 0 < t.sampleRate)
    (hrate : t.sampleRate ≤ 500000) {w : Nat} {timestamp : Timestamp}
    (h : Timescale.ofScale w t.sampleRate = .ok timestamp) : t.indexOf timestamp = w := by
  have hring := positionOf_eq ⟨t.sampleRate, [], 0, 0, 0, true⟩ timestamp
  rw [Timeline.indexOf, ← hring]
  exact Ring.positionOf_ofScale hpos hrate h

-- ── one stretch of samples ──────────────────────────────────────────

/-- The index behind `total` samples from `w` on. Where there is no sample there is no end. -/
def stopBehind (w total : Nat) : Nat :=
  if total = 0 then 0 else min (w + total) Ring.wordMaximum

/-- A stretch of `total` samples, the first at index `w`, was put on a timeline. -/
structure Timeline.Lands (t : Timeline) (w total : Nat) (stretch : Nat → Nat → Sample)
    (t' : Timeline) : Prop where
  rate : t'.sampleRate = t.sampleRate
  capacity : t'.capacity = t.capacity
  /-- What cannot be kept is given up from the front. -/
  reading : t'.readIndex = max t.readIndex (stopBehind w total - t.capacity)
  writing : t'.writeIndex = max t.writeIndex (stopBehind w total)
  /-- Every sample of the stretch that can still be read is at its index. -/
  new : ∀ c i, t'.readIndex ≤ w + i → w + i < stopBehind w total → t'.sample c (w + i) = stretch c i
  /-- Nothing before the stretch was touched. -/
  old : ∀ c i, i < w → i < t.writeIndex → t'.sample c i = t.sample c i

namespace Timeline

variable {t t' t'' : Timeline}

theorem lands_nothing (t : Timeline) (w : Nat) (stretch : Nat → Nat → Sample) :
    t.Lands w 0 stretch t where
  rate := rfl
  capacity := rfl
  reading := by simp [stopBehind]
  writing := by simp [stopBehind]
  new c i _ hlt := by simp [stopBehind] at hlt
  old _ _ _ _ := rfl

/-- Making room for samples that end at `stop`. -/
theorem readFrom_eq (t : Timeline) (stop : Nat) :
    t.readFrom stop = max t.readIndex (stop - t.capacity) := by
  rw [readFrom]
  split <;> omega

/-- **One write lands** at the index of its time. -/
theorem lands_write (t : Timeline) {timestamp : Timestamp} {w : Nat} (data : List Channel)
    (hw : t.indexOf timestamp = w) (hword : w < 2 ^ 64) :
    t.Lands w ((data.head?.map Array.size).getD 0)
      (fun c i => sampleAt (data[c]?.getD #[]) i) (t.write timestamp data) := by
  have hmaximum : Ring.wordMaximum = 2 ^ 64 - 1 := wordMaximum_eq
  rw [write, hw]
  generalize (data.head?.map Array.size).getD 0 = n
  by_cases hzero : n = 0
  · rw [if_pos (.inl hzero), hzero]
    exact t.lands_nothing w _
  · have hstop : stopBehind w n = min (w + n) (2 ^ 64 - 1) := by
      rw [stopBehind, if_neg hzero, hmaximum]
    by_cases hlate : min (w + n) (2 ^ 64 - 1) ≤ t.readIndex
    · -- all of it was played, and the write index is not before the read index
      rw [if_pos (.inr (.inr hlate))]
      have horder := t.read_le_write
      constructor
      · rfl
      · rfl
      · omega
      · omega
      · intro c i hread hlt
        omega
      · intro c i _ _
        rfl
    · rw [if_neg (by omega)]
      constructor
      · rfl
      · rfl
      · rw [hstop]
        exact t.readFrom_eq _
      · rw [hstop]
        rfl
      · intro c i hread hlt
        have hmine : max w (t.readFrom (min (w + n) (2 ^ 64 - 1))) ≤ w + i ∧
            w + i < min (w + n) (2 ^ 64 - 1) :=
          ⟨Nat.max_le.mpr ⟨Nat.le_add_right w i, hread⟩, hstop ▸ hlt⟩
        show (if _ then _ else _) = _
        rw [if_pos hmine, Nat.add_sub_cancel_left, sampleAt_getD]
      · intro c i hbefore hwritten
        show (if _ then _ else if _ then _ else _) = _
        rw [if_neg (by omega), if_neg (by omega)]

/-- **Back to back.** A stretch that begins where another ends makes one stretch with it. -/
theorem Lands.append {w a b : Nat} {f g : Nat → Nat → Sample} (h : t.Lands w a f t')
    (h' : t'.Lands (w + a) b g t'') :
    t.Lands w (a + b) (fun c i => if i < a then f c i else g c (i - a)) t'' := by
  have hmaximum : Ring.wordMaximum = 2 ^ 64 - 1 := wordMaximum_eq
  have hreading := h.reading
  have hwriting := h.writing
  have hreading' := h'.reading
  have hwriting' := h'.writing
  rw [h.capacity] at hreading'
  -- the end of the whole is the end of its second part, or of the first if that is empty
  have hends : stopBehind w (a + b) = max (stopBehind w a) (stopBehind (w + a) b) := by
    simp only [stopBehind, hmaximum]
    split <;> split <;> split <;> omega
  constructor
  · exact h'.rate.trans h.rate
  · exact h'.capacity.trans h.capacity
  · omega
  · omega
  · intro c i hread hlt
    by_cases hfirst : i < a
    · have hthere : w + i < stopBehind w a := by
        simp only [stopBehind, hmaximum] at hlt ⊢
        split at hlt
        · omega
        · rw [if_neg (by omega)]
          omega
      rw [if_pos hfirst, h'.old c (w + i) (by omega) (by omega)]
      exact h.new c i (by omega) hthere
    · have hback : w + i = w + a + (i - a) := by omega
      have hthere : w + i < stopBehind (w + a) b := by
        simp only [stopBehind, hmaximum] at hlt ⊢
        split at hlt
        · omega
        · split <;> omega
      rw [if_neg hfirst, hback]
      exact h'.new c (i - a) (by omega) (by omega)
  · intro c i hbefore hwritten
    rw [h'.old c i (by omega) (by omega)]
    exact h.old c i hbefore hwritten

end Timeline

-- ── a run of frames ─────────────────────────────────────────────────

/-- The writes of a publisher: frames of `n` samples in each channel, the first at position `w`, each stamped
    with the time of its position. -/
def published (rate n : Nat) : Nat → List (List Channel) → Except TimeError (List Call)
  | _, [] => .ok []
  | w, data :: frames => do
    let timestamp ← Timescale.ofScale w rate
    let later ← published rate n (w + n) frames
    return .write timestamp data :: later

/-- The samples of frames of `n` samples, one frame after the other. -/
def joined (n : Nat) : List (List Channel) → Nat → Nat → Sample
  | [], _, _ => .silence
  | data :: frames, c, i =>
    if i < n then sampleAt (data[c]?.getD #[]) i else joined n frames c (i - n)

/-- Sample `j` of frame `k` stands `j` samples behind the `k` frames before it. -/
theorem joined_at {n : Nat} {frames : List (List Channel)} {k : Nat} {data : List Channel}
    (hk : frames[k]? = some data) {j : Nat} (hj : j < n) (c : Nat) :
    joined n frames c (k * n + j) = sampleAt (data[c]?.getD #[]) j := by
  induction frames generalizing k with
  | nil => cases hk
  | cons first frames ih =>
      cases k with
      | zero =>
          obtain rfl := Option.some.inj hk
          rw [Nat.zero_mul, Nat.zero_add, joined, if_pos hj]
      | succ k =>
          have hsplit : (k + 1) * n = n + k * n := by rw [Nat.succ_mul, Nat.add_comm]
          have hback : n + k * n + j - n = k * n + j := by omega
          rw [hsplit, joined, if_neg (by omega), hback]
          exact ih hk

/-- The timeline after a list of calls. -/
def Timeline.after (t : Timeline) (calls : List Call) : Timeline :=
  calls.foldl (fun t c => (t.call c).2) t

theorem Ring.Shows.after {r : Ring} {t : Timeline} (h : r.Shows t) (calls : List Call) :
    ∃ r', (AudioBuffer.mk (some r)).after calls = ⟨some r'⟩ ∧ r'.Shows (t.after calls) := by
  induction calls generalizing r t with
  | nil => exact ⟨r, rfl, h⟩
  | cons c calls ih =>
      obtain ⟨next, hcall, hshows⟩ := h.call c
      obtain ⟨last, hafter, hlast⟩ := ih hshows
      refine ⟨last, ?_, hlast⟩
      rw [← hafter]
      show ((AudioBuffer.mk (some r)).call c).2.after calls = _
      rw [hcall]

/-- **A run of frames lands as one stretch.** -/
theorem Timeline.lands_published {t : Timeline} {n w : Nat} {frames : List (List Channel)}
    (hpos : 0 < t.sampleRate) (hrate : t.sampleRate ≤ 500000)
    (hlength : ∀ data ∈ frames, (data.head?.map Array.size).getD 0 = n)
    (hfits : ∀ k < frames.length, (w + k * n) * 1000000 / t.sampleRate ≤ Varint.maximum) :
    ∃ calls, published t.sampleRate n w frames = .ok calls ∧
      t.Lands w (frames.length * n) (joined n frames) (t.after calls) := by
  induction frames generalizing t w with
  | nil =>
      refine ⟨[], rfl, ?_⟩
      rw [List.length_nil, Nat.zero_mul]
      exact t.lands_nothing w _
  | cons data frames ih =>
      have hfirst : w * 1000000 / t.sampleRate ≤ Varint.maximum := by
        have hzero := hfits 0 (Nat.succ_pos _)
        rwa [Nat.zero_mul, Nat.add_zero] at hzero
      have hlater : ∀ k < frames.length,
          (w + n + k * n) * 1000000 / t.sampleRate ≤ Varint.maximum := by
        intro k hk
        have hnext := hfits (k + 1) (Nat.succ_lt_succ hk)
        have hsum : w + (k + 1) * n = w + n + k * n := by
          rw [Nat.succ_mul]
          omega
        rwa [hsum] at hnext
      obtain ⟨timestamp, hstamp⟩ : ∃ timestamp : Timestamp,
          Timescale.ofScale w t.sampleRate = .ok timestamp :=
        ⟨_, (ofScale_eq_ok_iff hpos).mpr ⟨rfl, hfirst⟩⟩
      have hwrite := t.lands_write data (Timeline.indexOf_ofScale hpos hrate hstamp)
        (lt_of_ofScale hpos hrate hstamp)
      rw [hlength data List.mem_cons_self] at hwrite
      rw [← hwrite.rate] at hpos hrate hlater
      obtain ⟨calls, hcalls, hlands⟩ :=
        ih hpos hrate (fun d hd => hlength d (List.mem_cons_of_mem _ hd)) hlater
      rw [hwrite.rate] at hcalls
      refine ⟨.write timestamp data :: calls, ?_, ?_⟩
      · rw [published, hstamp]
        show (published t.sampleRate n (w + n) frames).bind _ = _
        rw [hcalls]
        rfl
      · rw [List.length_cons, Nat.succ_mul, Nat.add_comm (frames.length * n)]
        exact hwrite.append hlands

/-- What a buffer accepted as its shape is a valid one. -/
theorem isValid_of_setUp {config : AudioConfig} {b : AudioBuffer}
    (h : AudioBuffer.empty.setUp config = .ok b) : config.IsValid := by
  have hmaximum := wordMaximum_eq
  rw [AudioBuffer.setUp, AudioBuffer.empty] at h
  dsimp only at h
  split at h
  · next r hring =>
    rw [Ring.ofConfig] at hring
    split at hring
    · cases hring
    split at hring
    · cases hring
    split at hring
    · cases hring
    split at hring
    · cases hring
    next hrate hchannels hlatency hword =>
    constructor
    · exact Nat.pos_of_ne_zero hrate
    · exact Nat.pos_of_ne_zero hchannels
    · exact Nat.pos_of_ne_zero hlatency
    · rw [← capacityOf_eq]
      omega
  · cases h

theorem Timeline.sampleRate_call (t : Timeline) (c : Call) :
    (t.call c).2.sampleRate = t.sampleRate := by
  have hwrite (timestamp : Timestamp) (data : List Channel) :
      (t.write timestamp data).sampleRate = t.sampleRate := by
    rw [write]
    split <;> rfl
  cases c with
  | write timestamp data => exact hwrite timestamp data
  | read outputs => rfl
  | writeFrame f =>
      rw [call]
      split
      · exact hwrite _ _
      · rfl

theorem Timeline.sampleRate_after (t : Timeline) (calls : List Call) :
    (t.after calls).sampleRate = t.sampleRate := by
  induction calls generalizing t with
  | nil => rfl
  | cons c calls ih => exact (ih (t.call c).2).trans (t.sampleRate_call c)

/-- A tone stamps a frame with the time of its position. -/
theorem ofScale_of_mediaFrame {tone : Tone} {tick : Nat} {f : MediaFrame}
    (h : tone.mediaFrame tick = .ok f) :
    Timescale.ofScale (tone.position tick) tone.sampleRate = .ok f.timestamp := by
  rw [Tone.mediaFrame] at h
  cases hstamp : (Timescale.ofScale (tone.position tick) tone.sampleRate : Except TimeError Timestamp) with
  | error e =>
      rw [hstamp] at h
      cases h
  | ok timestamp =>
      rw [hstamp] at h
      obtain rfl := Except.ok.inj h
      rfl

/-- **Sample positions survive their timestamps.** A buffer that has its shape, with at most 500000 samples a
    second, is in any state. A time that a publisher puts on a position is the time of that position, and this
    is what a tone does with each of its frames. So frames of `n` samples that are published at `w`, `w + n`,
    `w + 2 * n` and so on get their times, and they are one stretch: the write position is moved to the end
    of the last frame, the read position only as far as the capacity demands, and each sample of each frame
    that still waits is in the cell of its own position. -/
theorem frames_land_back_to_back {config : AudioConfig} {b : AudioBuffer}
    (hrate : config.sampleRate ≤ 500000) (hb : AudioBuffer.empty.setUp config = .ok b)
    (history : List Call) :
    ∃ r, (b.after history).ring = some r ∧
      (∀ w timestamp, Timescale.ofScale w config.sampleRate = .ok timestamp →
        r.positionOf timestamp = w) ∧
      (∀ (tone : Tone) tick f, tone.config = config → tone.mediaFrame tick = .ok f →
        r.positionOf f.timestamp = tone.position tick) ∧
      ∀ (n w : Nat) (frames : List (List Channel)),
        (∀ data ∈ frames, (data.head?.map Array.size).getD 0 = n) →
        (∀ k < frames.length, (w + k * n) * 1000000 / config.sampleRate ≤ Varint.maximum) →
        ∃ calls r', published config.sampleRate n w frames = .ok calls ∧
          (b.after (history ++ calls)).ring = some r' ∧ r'.capacity = r.capacity ∧
          r'.readPosition = max r.readPosition (stopBehind w (frames.length * n) - r.capacity) ∧
          r'.writePosition = max r.writePosition (stopBehind w (frames.length * n)) ∧
          ∀ (k : Nat) (data : List Channel) (c : Nat) (storage : Channel) (j : Nat),
            frames[k]? = some data → r'.channels[c]? = some storage → j < n →
            r'.readPosition ≤ w + k * n + j → w + k * n + j < stopBehind w (frames.length * n) →
            sampleAt storage ((w + k * n + j) % r.capacity) = sampleAt (data[c]?.getD #[]) j := by
  have hvalid := isValid_of_setUp hb
  obtain ⟨start, hstart, hshows⟩ := shows_start hvalid
  obtain rfl : b = ⟨some start⟩ := by
    rw [AudioBuffer.setUp, AudioBuffer.empty] at hb
    simp only [hstart] at hb
    exact (Except.ok.inj hb).symm
  obtain ⟨r, hafter, hr⟩ := hshows.after history
  have hsame : ((Timeline.start config).after history).sampleRate = config.sampleRate :=
    Timeline.sampleRate_after _ _
  have hpos : 0 < r.sampleRate := by
    rw [hr.rate, hsame]
    exact hvalid.rate_pos
  have hposition : ∀ w timestamp, Timescale.ofScale w config.sampleRate = .ok timestamp →
      r.positionOf timestamp = w := by
    intro w timestamp hstamp
    rw [← hsame, ← hr.rate] at hstamp hrate
    exact Ring.positionOf_ofScale hpos hrate hstamp
  refine ⟨r, by rw [hafter], hposition, ?_, ?_⟩
  · rintro tone tick f rfl hf
    exact hposition _ _ (ofScale_of_mediaFrame hf)
  · intro n w frames hlength hfits
    rw [hr.rate] at hpos
    rw [← hsame] at hrate hfits
    obtain ⟨calls, hcalls, hlands⟩ := Timeline.lands_published hpos hrate hlength hfits
    obtain ⟨r', hafter', hr'⟩ := hr.after calls
    have hjoined : (AudioBuffer.mk (some start)).after (history ++ calls) = ⟨some r'⟩ := by
      rw [← hafter', ← hafter]
      exact List.foldl_append
    refine ⟨calls, r', hsame ▸ hcalls, by rw [hjoined], ?_, ?_, ?_, ?_⟩
    · rw [hr'.capacity, hr.capacity, hlands.capacity]
    · rw [hr'.reading, hr.reading, hr.capacity]
      exact hlands.reading
    · rw [hr'.writing, hr.writing]
      exact hlands.writing
    · intro k data c storage j hk hstorage hj hread hlt
      have hsum : w + k * n + j = w + (k * n + j) := Nat.add_assoc _ _ _
      rw [hr'.reading, hsum] at hread
      rw [hsum] at hlt ⊢
      have hwritten : w + (k * n + j) < ((Timeline.start config).after history |>.after calls).writeIndex := by
        rw [hlands.writing]
        omega
      have hcell := hr'.cells c storage hstorage _ hread hwritten
      rw [hlands.capacity, ← hr.capacity] at hcell
      rw [hcell, hlands.new c _ hread hlt]
      exact joined_at hk hj c

/-- Five samples of room at 44100 samples a second. -/
def fiveSamples : AudioConfig := ⟨44100, 1, ⟨100000⟩⟩

/-- Two frames of three samples from position 1 on. Their times, 22 and 90 microseconds, were rounded down by
    a good half of a microsecond each; the first sample has to make room. -/
theorem frames_land_back_to_back_five :
    ∃ b, AudioBuffer.empty.setUp fiveSamples = .ok b ∧
      published 44100 3 1 [[#[⟨1⟩, ⟨2⟩, ⟨3⟩]], [#[⟨4⟩, ⟨5⟩, ⟨6⟩]]] =
        .ok [.write ⟨⟨22⟩⟩ [#[⟨1⟩, ⟨2⟩, ⟨3⟩]], .write ⟨⟨90⟩⟩ [#[⟨4⟩, ⟨5⟩, ⟨6⟩]]] ∧
      ∃ r', (b.after [.write ⟨⟨22⟩⟩ [#[⟨1⟩, ⟨2⟩, ⟨3⟩]], .write ⟨⟨90⟩⟩ [#[⟨4⟩, ⟨5⟩, ⟨6⟩]]]).ring = some r' ∧
        r'.readPosition = 2 ∧ r'.writePosition = 7 := by
  have hset : AudioBuffer.empty.setUp fiveSamples = .ok ⟨some ⟨44100,
      [#[.silence, .silence, .silence, .silence, .silence]], 5, 0, 0, true⟩⟩ := rfl
  obtain ⟨r, hr, -, -, hlands⟩ := frames_land_back_to_back (by decide) hset []
  obtain rfl := Option.some.inj hr
  obtain ⟨calls, r', hcalls, hafter, -, hread, hwrite, -⟩ :=
    hlands 3 1 [[#[⟨1⟩, ⟨2⟩, ⟨3⟩]], [#[⟨4⟩, ⟨5⟩, ⟨6⟩]]] (by decide) (by decide)
  have hstamps : published 44100 3 1 [[#[⟨1⟩, ⟨2⟩, ⟨3⟩]], [#[⟨4⟩, ⟨5⟩, ⟨6⟩]]] =
      .ok [.write ⟨⟨22⟩⟩ [#[⟨1⟩, ⟨2⟩, ⟨3⟩]], .write ⟨⟨90⟩⟩ [#[⟨4⟩, ⟨5⟩, ⟨6⟩]]] := rfl
  obtain rfl := Except.ok.inj (hstamps.symm.trans hcalls)
  exact ⟨_, hset, hstamps, r', hafter, hread, hwrite⟩

end LiveMedia.Audio
