import LiveMedia.Proofs.Audio.Timeline

/-!
# The audio ring is the timeline

A ring keeps the samples that wait to be read in storage that is indexed modulo the capacity, and no
caller can tell it from the unbounded timeline.

`Shows` relates the two. Positions, flag and shape agree, no more samples wait than the storage has
cells, and each sample that waits is in the cell of its index. Two indices of a window that is no larger
than the capacity have different cells (`eq_of_mod_eq`), so storing within the window changes exactly
the cells of the stored indices (`sampleAt_store`). Making room moves the window before anything is
stored: every later store stays inside the new window, and what was given up is overwritten or lies
outside. Writes and reads keep the relation (`Shows.write`, `Shows.read`), and with it every
observation agrees.
-/

namespace LiveMedia.Audio

open LiveMedia.Time LiveMedia.Playback

-- ── numbers ─────────────────────────────────────────────────────────

theorem positionOf_eq (r : Ring) (timestamp : Timestamp) :
    r.positionOf timestamp =
      (round ((timestamp.value : ℚ) / 10 ^ 6 * r.sampleRate)).toNat := by
  have hsum : (timestamp.value : ℚ) / 10 ^ 6 * r.sampleRate + 1 / 2 =
      ((timestamp.value * r.sampleRate + 500000 : ℕ) : ℚ) / ((1000000 : ℕ) : ℚ) := by
    push_cast
    ring
  have hmicros : timestamp.micros = timestamp.value := by
    show timestamp.value * 1000000 / 1000000 = timestamp.value
    omega
  rw [round_eq, hsum, Rat.floor_natCast_div_natCast]
  rw [Ring.positionOf, hmicros]
  omega

theorem wordMaximum_eq : Ring.wordMaximum = 2 ^ 64 - 1 := rfl

theorem capacityOf_eq (config : AudioConfig) :
    Ring.capacityOf config = ⌈(config.sampleRate * config.latency.nanos : ℚ) / 10 ^ 9⌉₊ := by
  have hcast : (config.sampleRate * config.latency.nanos : ℚ) / 10 ^ 9 =
      ((config.sampleRate * config.latency.nanos : ℕ) : ℚ) / ((1000000000 : ℕ) : ℚ) := by
    push_cast
    ring
  rw [hcast, ← Int.ceil_toNat, Rat.ceil_natCast_div_natCast]
  rw [Ring.capacityOf, Span.perSecond]
  omega

-- ── storage ─────────────────────────────────────────────────────────

/-- Indices of a window that is no larger than the capacity have different cells. -/
theorem eq_of_mod_eq {capacity base i j : Nat} (hi : base ≤ i) (hi' : i < base + capacity)
    (hj : base ≤ j) (hj' : j < base + capacity) (h : i % capacity = j % capacity) : i = j := by
  have hle : ∀ {a b : Nat}, b ≤ a → a - b < capacity → a % capacity = b % capacity → a = b := by
    intro a b hba hlt hmod
    have hzero := Nat.sub_mod_eq_zero_of_mod_eq hmod
    rw [Nat.mod_eq_of_lt hlt] at hzero
    omega
  rcases Nat.le_total j i with hji | hij
  · exact hle hji (by omega) h
  · exact (hle hij (by omega) h.symm).symm

theorem sampleAt_setIfInBounds {storage : Channel} {p : Nat} (hp : p < storage.size) (s : Sample)
    (q : Nat) : sampleAt (storage.setIfInBounds p s) q = if p = q then s else sampleAt storage q := by
  unfold sampleAt
  rw [Array.getElem?_setIfInBounds]
  by_cases hq : p = q
  · rw [if_pos hq, if_pos hq, if_pos hp]
    rfl
  · rw [if_neg hq, if_neg hq]

@[simp] theorem size_store (capacity : Nat) (f : Nat → Sample) (first n : Nat) (storage : Channel) :
    (Ring.store capacity f first n storage).size = storage.size := by
  induction n generalizing first storage with
  | zero => rfl
  | succ n ih =>
      show (Ring.store capacity f (first + 1) n _).size = _
      rw [ih, Array.size_setIfInBounds]

/-- **Storing within a window** changes the cells of the stored indices and no other cell of it. -/
theorem sampleAt_store {capacity base i first : Nat} (f : Nat → Sample) (n : Nat) {storage : Channel}
    (hsize : storage.size = capacity) (hbase : base ≤ first) (hfits : first + n ≤ base + capacity)
    (hi : base ≤ i) (hi' : i < base + capacity) :
    sampleAt (Ring.store capacity f first n storage) (i % capacity) =
      if first ≤ i ∧ i < first + n then f i else sampleAt storage (i % capacity) := by
  induction n generalizing first storage with
  | zero =>
      rw [if_neg (by omega)]
      rfl
  | succ n ih =>
      have hcell : first % capacity < storage.size := by
        rw [hsize]
        exact Nat.mod_lt _ (by omega)
      show sampleAt (Ring.store capacity f (first + 1) n _) _ = _
      rw [ih (by rw [Array.size_setIfInBounds, hsize]) (by omega) (by omega),
        sampleAt_setIfInBounds hcell]
      by_cases hfirst : first = i
      · subst hfirst
        rw [if_neg (by omega), if_pos rfl, if_pos (by omega)]
      · have hother : first % capacity ≠ i % capacity := fun h =>
          hfirst (eq_of_mod_eq hbase (by omega) hi hi' h)
        rw [if_neg hother]
        by_cases hlater : first + 1 ≤ i ∧ i < first + 1 + n
        · rw [if_pos hlater, if_pos (by omega)]
        · rw [if_neg hlater, if_neg (by omega)]

/-- A gap is filled up to `first`, and then comes what is stored up to `stop`. -/
theorem sampleAt_store_store {capacity base gap first stop i : Nat} (f g : Nat → Sample)
    {storage : Channel} (hsize : storage.size = capacity) (hgap : base ≤ gap) (hbase : base ≤ first)
    (hstop : first ≤ stop) (hgapFits : gap ≤ base + capacity) (hfits : stop ≤ base + capacity)
    (hi : base ≤ i) (hi' : i < base + capacity) :
    sampleAt (Ring.store capacity f first (stop - first)
        (Ring.store capacity g gap (first - gap) storage)) (i % capacity) =
      if first ≤ i ∧ i < stop then f i
      else if gap ≤ i ∧ i < first then g i
      else sampleAt storage (i % capacity) := by
  have hinner : (Ring.store capacity g gap (first - gap) storage).size = capacity := by
    rw [size_store, hsize]
  rw [sampleAt_store f _ hinner hbase (by omega) hi hi',
    sampleAt_store g _ hsize hgap (by omega) hi hi']
  by_cases hnew : first ≤ i ∧ i < stop
  · rw [if_pos hnew, if_pos (by omega)]
  · rw [if_neg hnew, if_neg (by omega)]
    by_cases hsilent : gap ≤ i ∧ i < first
    · rw [if_pos hsilent, if_pos (by omega)]
    · rw [if_neg hsilent, if_neg (by omega)]

-- ── the relation ────────────────────────────────────────────────────

/-- The ring holds what waits on the timeline. -/
structure Ring.Shows (r : Ring) (t : Timeline) : Prop where
  rate : r.sampleRate = t.sampleRate
  count : r.channels.length = t.channelCount
  capacity : r.capacity = t.capacity
  reading : r.readPosition = t.readIndex
  writing : r.writePosition = t.writeIndex
  refilling : r.refilling = t.refilling
  sized : ∀ storage ∈ r.channels, storage.size = t.capacity
  fits : t.writeIndex ≤ t.readIndex + t.capacity
  cells : ∀ c storage, r.channels[c]? = some storage → ∀ i, t.readIndex ≤ i → i < t.writeIndex →
    sampleAt storage (i % t.capacity) = t.sample c i

variable {r : Ring} {t : Timeline}

-- ── writing ─────────────────────────────────────────────────────────

/-- Making room moves the read position, and nothing else but the flag. -/
theorem Ring.Shows.evict (h : r.Shows t) (stop : Nat) :
    r.evict stop = { r with
      readPosition := t.readFrom stop
      refilling := t.refilling && decide (stop - t.readIndex ≤ t.capacity) } := by
  rw [Ring.evict, Timeline.readFrom, h.capacity, h.reading]
  by_cases hfull : t.capacity < stop - t.readIndex
  · rw [if_pos hfull, if_pos hfull, decide_eq_false (Nat.not_le_of_lt hfull), Bool.and_false]
  · rw [if_neg hfull, if_neg hfull, decide_eq_true (Nat.le_of_not_lt hfull), Bool.and_true,
      ← h.capacity, ← h.reading, ← h.refilling]

/-- The storage of each channel after a write. -/
theorem getElem?_storeAll (r : Ring) (data : List Channel) (origin first stop c : Nat) :
    (r.storeAll data origin first stop).channels[c]? = r.channels[c]?.map fun storage =>
      Ring.store r.capacity (fun i => sampleAt (data[c]?.getD #[]) (i - origin)) first (stop - first)
        (Ring.store r.capacity (fun _ => .silence) (max r.writePosition r.readPosition)
          (first - max r.writePosition r.readPosition) storage) := by
  simp only [Ring.storeAll, List.getElem?_map, List.getElem?_zipIdx, Option.map_map,
    Function.comp_def, Nat.zero_add]

/-- A missing sample of a missing channel is silence. -/
theorem sampleAt_getD (data : List Channel) (c i : Nat) :
    sampleAt (data[c]?.getD #[]) i = (data[c]?.bind (·[i]?)).getD .silence := by
  cases data[c]? with
  | none => rfl
  | some samples => rfl

/-- Room for everything up to `stop` is room for everything that waits. -/
theorem Ring.Shows.readFrom_fits (h : r.Shows t) (stop : Nat) :
    t.readIndex ≤ t.readFrom stop ∧ max t.writeIndex stop ≤ t.readFrom stop + t.capacity := by
  have hfits := h.fits
  rw [Timeline.readFrom]
  split
  · exact ⟨by omega, Nat.max_le.mpr ⟨by omega, by omega⟩⟩
  · exact ⟨Nat.le_refl _, Nat.max_le.mpr ⟨hfits, by omega⟩⟩

/-- **Storing new samples** puts them where the timeline has them. -/
theorem Ring.Shows.put (h : r.Shows t) (data : List Channel) {first stop : Nat}
    (hfirst : first ≤ stop) (hlate : t.readIndex < stop) :
    ((r.evict stop).storeAll data first (max first (r.evict stop).readPosition) stop).Shows
      (t.put data first stop) := by
  obtain ⟨hread, hfits⟩ := h.readFrom_fits stop
  obtain ⟨hwfits, hsfits⟩ := Nat.max_le.mp hfits
  have hstop : t.readFrom stop ≤ stop := by
    rw [Timeline.readFrom]
    split <;> omega
  rw [h.evict stop]
  refine ⟨h.rate, ?_, h.capacity, rfl, ?_, rfl, ?_, hfits, ?_⟩
  · simp only [Ring.storeAll, List.length_map, List.length_zipIdx]
    exact h.count
  · show max r.writePosition stop = max t.writeIndex stop
    rw [h.writing]
  · intro storage hmem
    simp only [Ring.storeAll] at hmem
    obtain ⟨⟨old, c⟩, hold, rfl⟩ := List.mem_map.mp hmem
    simp only [size_store]
    exact h.sized old (List.fst_mem_of_mem_zipIdx hold)
  · intro c storage hc i hi hi'
    rw [getElem?_storeAll] at hc
    obtain ⟨old, hold, rfl⟩ := Option.map_eq_some_iff.mp hc
    have hsize := h.sized old (List.mem_of_getElem? hold)
    simp only [h.capacity, h.writing]
    change t.readFrom stop ≤ i at hi
    change i < max t.writeIndex stop at hi'
    show sampleAt _ (i % t.capacity) = if _ then _ else _
    -- both stores stay in the window that begins at the new read position
    rw [sampleAt_store_store _ _ hsize (Nat.le_max_right _ _) (Nat.le_max_right _ _)
      (Nat.max_le.mpr ⟨hfirst, hstop⟩) (by omega) hsfits hi (by omega), sampleAt_getD]
    by_cases hnew : max first (t.readFrom stop) ≤ i ∧ i < stop
    · rw [if_pos hnew, if_pos hnew]
    · rw [if_neg hnew, if_neg hnew]
      by_cases hgap : max t.writeIndex (t.readFrom stop) ≤ i ∧ i < first
      · rw [if_pos hgap, if_pos (by omega)]
      · rw [if_neg hgap, if_neg (by omega)]
        exact h.cells c old hold i (by omega) (by omega)

theorem Ring.Shows.indexOf (h : r.Shows t) (timestamp : Timestamp) :
    r.positionOf timestamp = t.indexOf timestamp := by
  rw [positionOf_eq, h.rate]
  rfl

/-- **A write keeps the relation.** -/
theorem Ring.Shows.write (h : r.Shows t) (timestamp : Timestamp) (data : List Channel) :
    (r.write timestamp data).Shows (t.write timestamp data) := by
  have hfirst := h.indexOf timestamp
  simp only [Ring.write, Timeline.write, hfirst, h.reading, wordMaximum_eq]
  by_cases hignored : (data.head?.map Array.size).getD 0 = 0 ∨ 2 ^ 64 - 1 < t.indexOf timestamp
  · rw [if_pos hignored, if_pos (by omega)]
    exact h
  · rw [if_neg hignored]
    by_cases hlate : min (t.indexOf timestamp + (data.head?.map Array.size).getD 0) (2 ^ 64 - 1) ≤
        t.readIndex
    · rw [if_pos hlate, if_pos (Or.inr (Or.inr hlate))]
      exact h
    · rw [if_neg hlate, if_neg (by omega)]
      exact h.put data (by omega) (by omega)

-- ── reading ─────────────────────────────────────────────────────────

theorem Ring.Shows.readable (h : r.Shows t) (outputs : List Channel) :
    r.readable outputs = t.readable outputs := by
  rw [Ring.readable, Ring.available, Timeline.readable, h.refilling, h.writing, h.reading]

/-- A read takes no more than any output holds. -/
theorem readable_le_size (t : Timeline) {outputs : List Channel} {output : Channel}
    (h : output ∈ outputs) : t.readable outputs ≤ output.size := by
  have hmin : (outputs.map Array.size).min?.getD 0 ≤ output.size :=
    List.min?_getD_le_of_mem (List.mem_map_of_mem h)
  rw [Timeline.readable]
  split
  · exact Nat.zero_le _
  · exact Nat.le_trans (Nat.min_le_right _ _) hmin

theorem overwrite_eq_mapIdx {f : Nat → Sample} {n : Nat} {output : Channel} (h : n ≤ output.size) :
    Ring.overwrite f n output = output.mapIdx fun k sample => if k < n then f k else sample := by
  refine Array.ext ?_ ?_
  · simp only [Ring.overwrite, Array.size_append, Array.size_map, Array.size_range,
      Array.size_extract, Array.size_mapIdx]
    omega
  · intro k hk hk'
    rw [Array.getElem_mapIdx]
    by_cases hlt : k < n
    · rw [if_pos hlt]
      simp [Ring.overwrite, hlt]
    · rw [if_neg hlt]
      have hback : n + (k - n) = k := by omega
      simp [Ring.overwrite, Array.getElem_append, hlt, hback]

/-- One output of a read that takes `count` samples. -/
theorem Ring.Shows.deliver (h : r.Shows t) {count : Nat} (c : Nat) {output : Channel}
    (hout : count ≤ output.size) (hwait : t.readIndex + count ≤ t.writeIndex) :
    (match r.channels[c]? with
      | some storage =>
        Ring.overwrite (fun k => sampleAt storage ((r.readPosition + k) % r.capacity)) count output
      | none => Ring.overwrite (fun _ => .silence) count output) = t.deliver count c output := by
  have hsame : ∀ f : Nat → Sample,
      (∀ k, k < count → f k = if c < t.channelCount then t.sample c (t.readIndex + k) else .silence) →
      Ring.overwrite f count output = t.deliver count c output := by
    intro f hf
    rw [overwrite_eq_mapIdx hout]
    rw [Timeline.deliver]
    congr 1
    funext k sample
    by_cases hk : k < count
    · rw [if_pos hk, if_pos hk, hf k hk]
    · rw [if_neg hk, if_neg hk]
  cases hc : r.channels[c]? with
  | none =>
      have hno : ¬ c < t.channelCount := by
        rw [← h.count]
        exact Nat.not_lt_of_le (List.getElem?_eq_none_iff.mp hc)
      refine hsame _ fun k _ => ?_
      rw [if_neg hno]
  | some storage =>
      have hyes : c < t.channelCount := by
        rw [← h.count]
        exact (List.getElem?_eq_some_iff.mp hc).1
      refine hsame _ fun k hk => ?_
      rw [if_pos hyes, h.reading, h.capacity]
      exact h.cells c storage hc _ (Nat.le_add_right _ _) (by omega)

/-- **A read delivers what the timeline has**, and keeps the relation. -/
theorem Ring.Shows.read (h : r.Shows t) (outputs : List Channel) :
    (r.read outputs).1 = (t.read outputs).1 ∧ (r.read outputs).2.1 = (t.read outputs).2.1 ∧
      (r.read outputs).2.2.Shows (t.read outputs).2.2 := by
  have hcount := h.readable outputs
  refine ⟨hcount, ?_, ?_⟩
  · refine List.ext_getElem? fun c => ?_
    simp only [Ring.read, Timeline.read, List.getElem?_map, List.getElem?_zipIdx, List.getElem?_mapIdx]
    cases hout : outputs[c]? with
    | none => rfl
    | some output =>
        have hle := readable_le_size t (List.mem_of_getElem? hout)
        have hone := h.deliver c hle (t.readable_le outputs)
        rw [hcount, Option.map_some, Option.map_some, Option.map_some, Nat.zero_add]
        exact congrArg some hone
  · refine ⟨h.rate, h.count, h.capacity, ?_, h.writing, h.refilling, h.sized, ?_, ?_⟩
    · show r.readPosition + r.readable outputs = t.readIndex + t.readable outputs
      rw [h.reading, hcount]
    · exact Nat.le_trans h.fits (Nat.add_le_add_right (Nat.le_add_right _ _) _)
    · intro c storage hc i hi hi'
      exact h.cells c storage hc i (Nat.le_trans (Nat.le_add_right _ _) hi) hi'

-- ── calls ───────────────────────────────────────────────────────────

/-- **One call.** The answers agree, and the relation holds again. -/
theorem Ring.Shows.call (h : r.Shows t) (c : Call) :
    ∃ r', (AudioBuffer.mk (some r)).call c = ((t.call c).1, ⟨some r'⟩) ∧ r'.Shows (t.call c).2 := by
  cases c with
  | write timestamp data => exact ⟨_, rfl, h.write timestamp data⟩
  | writeFrame f =>
      simp only [AudioBuffer.call, AudioBuffer.writeFrame, AudioBuffer.ring?, Timeline.call, ← h.count,
        bind, Except.bind]
      cases hdata : decodeSamples f.bytes r.channels.length with
      | ok data => exact ⟨_, rfl, h.write f.timestamp data⟩
      | error e => exact ⟨_, rfl, h⟩
  | read outputs =>
      obtain ⟨hcount, hout, hnext⟩ := h.read outputs
      refine ⟨_, ?_, hnext⟩
      rw [Timeline.call, ← hcount, ← hout]
      rfl

theorem Ring.Shows.observe (h : r.Shows t) (calls : List Call) :
    (AudioBuffer.mk (some r)).observe calls = t.observe calls := by
  induction calls generalizing r t with
  | nil => rfl
  | cons c calls ih =>
      obtain ⟨r', hcall, hnext⟩ := h.call c
      have hsize : (AudioBuffer.mk (some r')).size =
          (t.call c).2.writeIndex - (t.call c).2.readIndex := by
        rw [← hnext.writing, ← hnext.reading]
        rfl
      have hflag : (AudioBuffer.mk (some r')).isRefilling = .ok (t.call c).2.refilling := by
        rw [← hnext.refilling]
        rfl
      rw [AudioBuffer.observe, hcall, ih hnext, hsize, hflag]
      rfl

theorem shows_start {config : AudioConfig} (h : config.IsValid) :
    ∃ r, Ring.ofConfig config = .ok r ∧ r.Shows (Timeline.start config) := by
  have hword : Ring.capacityOf config < 2 ^ 64 := by
    rw [capacityOf_eq]
    exact h.window_fits
  refine ⟨⟨config.sampleRate, List.replicate config.channelCount
    (Array.replicate (Ring.capacityOf config) .silence), Ring.capacityOf config, 0, 0, true⟩, ?_, ?_⟩
  · rw [Ring.ofConfig, if_neg (Nat.ne_of_gt h.rate_pos), if_neg (Nat.ne_of_gt h.channels_pos),
      if_neg (Nat.ne_of_gt h.latency_pos), if_neg (by rw [wordMaximum_eq]; omega)]
  · refine ⟨rfl, List.length_replicate, capacityOf_eq config, rfl, rfl, rfl, ?_, Nat.zero_le _, ?_⟩
    · intro storage hmem
      rw [List.eq_of_mem_replicate hmem, Array.size_replicate, capacityOf_eq]
      rfl
    · intro c storage _ i _ hi
      exact absurd hi (Nat.not_lt_zero i)

/-- **The ring is the timeline.** A buffer accepts every valid shape, and then no list of writes and
    reads tells it from an unbounded timeline: counts, delivered samples, sizes and the refilling flag
    are the same after every call. -/
theorem observe_eq_timeline (config : AudioConfig) (h : config.IsValid) (calls : List Call) :
    ∃ b, AudioBuffer.empty.setUp config = .ok b ∧
      b.observe calls = (Timeline.start config).observe calls := by
  obtain ⟨r, hr, hshows⟩ := shows_start h
  refine ⟨⟨some r⟩, ?_, hshows.observe calls⟩
  rw [AudioBuffer.setUp, AudioBuffer.empty]
  simp only [hr]

/-- A window of three samples in one channel, at one sample per second. -/
def threeSeconds : AudioConfig := ⟨1, 1, .ofSeconds 3⟩

theorem isValid_threeSeconds : threeSeconds.IsValid where
  rate_pos := by decide
  channels_pos := by decide
  latency_pos := by decide
  window_fits := by
    rw [← capacityOf_eq]
    decide

/-- Five samples at once overflow the window, a late one is dropped, and of two outputs that ask for more
    than there is, one has no channel. -/
theorem observe_eq_timeline_threeSeconds :
    ∃ b, AudioBuffer.empty.setUp threeSeconds = .ok b ∧
      b.observe [.write ⟨⟨0⟩⟩ [#[⟨1⟩, ⟨2⟩, ⟨3⟩, ⟨4⟩, ⟨5⟩]], .write ⟨⟨1000000⟩⟩ [#[⟨9⟩]],
          .read [#[⟨0⟩, ⟨0⟩, ⟨0⟩, ⟨0⟩], #[⟨7⟩, ⟨7⟩, ⟨7⟩, ⟨7⟩]]] =
        (Timeline.start threeSeconds).observe
          [.write ⟨⟨0⟩⟩ [#[⟨1⟩, ⟨2⟩, ⟨3⟩, ⟨4⟩, ⟨5⟩]], .write ⟨⟨1000000⟩⟩ [#[⟨9⟩]],
            .read [#[⟨0⟩, ⟨0⟩, ⟨0⟩, ⟨0⟩], #[⟨7⟩, ⟨7⟩, ⟨7⟩, ⟨7⟩]]] :=
  observe_eq_timeline threeSeconds isValid_threeSeconds _

end LiveMedia.Audio
