import LiveMedia.Proofs.Audio.Refinement
import LiveMedia.Proofs.Audio.Words

/-!
# The audio ring stays in bounds

No list of writes and reads stops a machine that counts in words, and what it then computes is the ring
of plain numbers.

One invariant carries this. `Ring.InBounds` orders the positions, puts them at most one capacity apart
and below the largest word, gives every storage a cell for each position, and ties the refilling flag to
the read position. A subtraction is never below zero because of the order, a sum never too large because
every position that is computed lies between the read position and the end of a write, and a cell is
there because of the remainder. The call lemmas `write?_eq` and `read?_eq` say that each checked call is
the plain one where the invariant holds; `InBounds.write` and `InBounds.read` keep it.
-/

namespace LiveMedia.Audio

open LiveMedia.Time LiveMedia.Playback LiveMedia.Wire

-- ── the invariant ───────────────────────────────────────────────────

/-- The positions of a ring are ordered, at most one capacity apart and words, and each of them has a
    cell. -/
structure Ring.InBounds (r : Ring) : Prop where
  capacity_pos : 0 < r.capacity
  read_le_write : r.readPosition ≤ r.writePosition
  write_le : r.writePosition ≤ r.readPosition + r.capacity
  word : r.writePosition ≤ wordMaximum
  sized : ∀ storage ∈ r.channels, storage.size = r.capacity
  refilling_iff : r.refilling = true ↔ r.readPosition = 0

/-- The end of a write that has samples and a position: behind the last sample, but no larger than a
    word. -/
def Ring.stop? (r : Ring) (timestamp : Timestamp) (data : List Channel) : Option Nat :=
  let count := (data.head?.map Array.size).getD 0
  if count = 0 ∨ wordMaximum < r.positionOf timestamp then none
  else some (min (r.positionOf timestamp + count) wordMaximum)

/-- The end of what a call writes. -/
def Ring.stopOf? (r : Ring) : Call → Option Nat
  | .write timestamp data => r.stop? timestamp data
  | .writeFrame f => match decodeSamples f.bytes r.channels.length with
    | .ok data => r.stop? f.timestamp data
    | .error _ => none
  | .read _ => none

variable {r : Ring}

theorem Ring.InBounds.available_le (h : r.InBounds) : r.available ≤ r.capacity := by
  have hwrite := h.write_le
  rw [Ring.available]
  omega

/-- A write without an end leaves the ring as it is. -/
theorem Ring.write_of_none {timestamp : Timestamp} {data : List Channel}
    (h : r.stop? timestamp data = none) : r.write timestamp data = r := by
  rw [Ring.stop?] at h
  split at h
  · next hignored => rw [Ring.write, if_pos hignored]
  · cases h

/-- A write with an end makes room up to it and stores, unless all of it was played. -/
theorem Ring.write_of_some {timestamp : Timestamp} {data : List Channel} {stop : Nat}
    (h : r.stop? timestamp data = some stop) : r.write timestamp data =
      if stop ≤ r.readPosition then r
      else (r.evict stop).storeAll data (r.positionOf timestamp)
        (max (r.positionOf timestamp) (r.evict stop).readPosition) stop := by
  rw [Ring.stop?] at h
  split at h
  · cases h
  · next hused =>
      cases h
      rw [Ring.write, if_neg hused]

/-- The end of a write lies behind its position and is a word. -/
theorem Ring.stop?_bounds {timestamp : Timestamp} {data : List Channel} {stop : Nat}
    (h : r.stop? timestamp data = some stop) :
    r.positionOf timestamp ≤ stop ∧ stop ≤ wordMaximum := by
  rw [Ring.stop?] at h
  split at h
  · cases h
  · cases h
    exact ⟨by omega, Nat.min_le_right _ _⟩

-- ── making room ─────────────────────────────────────────────────────

@[simp] theorem Ring.evict_capacity (r : Ring) (stop : Nat) :
    (r.evict stop).capacity = r.capacity := by
  rw [Ring.evict]
  split <;> rfl

@[simp] theorem Ring.evict_sampleRate (r : Ring) (stop : Nat) :
    (r.evict stop).sampleRate = r.sampleRate := by
  rw [Ring.evict]
  split <;> rfl

@[simp] theorem Ring.evict_channels (r : Ring) (stop : Nat) :
    (r.evict stop).channels = r.channels := by
  rw [Ring.evict]
  split <;> rfl

@[simp] theorem Ring.evict_writePosition (r : Ring) (stop : Nat) :
    (r.evict stop).writePosition = r.writePosition := by
  rw [Ring.evict]
  split <;> rfl

/-- Making room moves the read position forward, and not past the end. -/
theorem Ring.readPosition_evict {stop : Nat} (h : r.readPosition < stop) :
    r.readPosition ≤ (r.evict stop).readPosition ∧ (r.evict stop).readPosition ≤ stop ∧
      stop ≤ (r.evict stop).readPosition + r.capacity := by
  rw [Ring.evict]
  split
  · exact ⟨by simp only; omega, by simp only; omega, by simp only; omega⟩
  · exact ⟨Nat.le_refl _, by omega, by omega⟩

/-- The flag still says whether nothing was given up. -/
theorem Ring.InBounds.refilling_evict (h : r.InBounds) (stop : Nat) :
    (r.evict stop).refilling = true ↔ (r.evict stop).readPosition = 0 := by
  rw [Ring.evict]
  split
  · simp only [Bool.false_eq_true, false_iff]
    omega
  · exact h.refilling_iff

/-- Making room ends the refilling exactly if the samples do not fit. -/
theorem Ring.InBounds.refilling_evict_iff (h : r.InBounds) {stop : Nat} :
    (r.evict stop).refilling = true ↔ r.refilling = true ∧ stop ≤ r.capacity := by
  have hflag := h.refilling_iff
  rw [Ring.evict]
  split
  · simp only [Bool.false_eq_true, false_iff]
    rintro ⟨hrefilling, hfits⟩
    have hzero := hflag.mp hrefilling
    omega
  · constructor
    · intro hrefilling
      have hzero := hflag.mp hrefilling
      exact ⟨hrefilling, by omega⟩
    · exact And.left

-- ── writing keeps the bounds ────────────────────────────────────────

theorem Ring.InBounds.storeAll (h : r.InBounds) (data : List Channel) (origin first : Nat) {stop : Nat}
    (hlate : r.readPosition < stop) (hword : stop ≤ wordMaximum) :
    ((r.evict stop).storeAll data origin first stop).InBounds where
  capacity_pos := by
    show 0 < (r.evict stop).capacity
    rw [evict_capacity]
    exact h.capacity_pos
  read_le_write := by
    obtain ⟨-, hstop, -⟩ := readPosition_evict hlate
    exact Nat.le_trans hstop (Nat.le_max_right _ _)
  write_le := by
    obtain ⟨hread, -, hfits⟩ := readPosition_evict hlate
    have hwrite := h.write_le
    show max (r.evict stop).writePosition stop ≤ (r.evict stop).readPosition + (r.evict stop).capacity
    rw [evict_capacity, evict_writePosition]
    omega
  word := by
    show max (r.evict stop).writePosition stop ≤ wordMaximum
    rw [evict_writePosition]
    exact Nat.max_le.mpr ⟨h.word, hword⟩
  sized := by
    intro storage hmem
    show storage.size = (r.evict stop).capacity
    simp only [Ring.storeAll, evict_channels] at hmem
    obtain ⟨⟨old, c⟩, hold, rfl⟩ := List.mem_map.mp hmem
    simp only [size_store, evict_capacity]
    exact h.sized old (List.fst_mem_of_mem_zipIdx hold)
  refilling_iff := h.refilling_evict stop

theorem Ring.InBounds.write (h : r.InBounds) (timestamp : Timestamp) (data : List Channel) :
    (r.write timestamp data).InBounds := by
  cases hstop : r.stop? timestamp data with
  | none =>
      rw [write_of_none hstop]
      exact h
  | some stop =>
      rw [write_of_some hstop]
      split
      · exact h
      · exact h.storeAll data _ _ (by omega) (stop?_bounds hstop).2

/-- A write never moves a position back. -/
theorem Ring.le_write (r : Ring) (timestamp : Timestamp) (data : List Channel) :
    r.readPosition ≤ (r.write timestamp data).readPosition ∧
      r.writePosition ≤ (r.write timestamp data).writePosition := by
  cases hstop : r.stop? timestamp data with
  | none =>
      rw [write_of_none hstop]
      exact ⟨Nat.le_refl _, Nat.le_refl _⟩
  | some stop =>
      rw [write_of_some hstop]
      split
      · exact ⟨Nat.le_refl _, Nat.le_refl _⟩
      · refine ⟨(readPosition_evict (by omega)).1, ?_⟩
        show r.writePosition ≤ max (r.evict stop).writePosition stop
        rw [evict_writePosition]
        exact Nat.le_max_left _ _

/-- **Refilling ends at the first write whose end exceeds the capacity.** -/
theorem Ring.InBounds.refilling_write (h : r.InBounds) (timestamp : Timestamp) (data : List Channel) :
    (r.write timestamp data).refilling = true ↔
      r.refilling = true ∧ ∀ stop, r.stop? timestamp data = some stop → stop ≤ r.capacity := by
  cases hstop : r.stop? timestamp data with
  | none =>
      rw [write_of_none hstop]
      exact ⟨fun hrefilling => ⟨hrefilling, nofun⟩, And.left⟩
  | some stop =>
      have hfits : (∀ s, some stop = some s → s ≤ r.capacity) ↔ stop ≤ r.capacity :=
        ⟨fun hall => hall stop rfl, fun hle s hs => by cases hs; exact hle⟩
      rw [write_of_some hstop, hfits]
      split
      · next hplayed =>
          -- what was played before the ring overflowed ends at zero
          refine ⟨fun hrefilling => ⟨hrefilling, ?_⟩, And.left⟩
          have hzero := h.refilling_iff.mp hrefilling
          omega
      · exact h.refilling_evict_iff

-- ── reading keeps the bounds ────────────────────────────────────────

theorem Ring.readable_le (r : Ring) (outputs : List Channel) : r.readable outputs ≤ r.available := by
  rw [Ring.readable]
  split
  · exact Nat.zero_le _
  · exact Nat.min_le_left _ _

theorem Ring.InBounds.read (h : r.InBounds) (outputs : List Channel) :
    (r.read outputs).2.2.InBounds where
  capacity_pos := h.capacity_pos
  read_le_write := by
    have hle := r.readable_le outputs
    have hread := h.read_le_write
    show r.readPosition + r.readable outputs ≤ r.writePosition
    rw [Ring.available] at hle
    omega
  write_le := Nat.le_trans h.write_le (Nat.add_le_add_right (Nat.le_add_right _ _) _)
  word := h.word
  sized := h.sized
  refilling_iff := by
    show r.refilling = true ↔ r.readPosition + r.readable outputs = 0
    have hflag := h.refilling_iff
    rw [Ring.readable]
    split
    · exact hflag
    · next hplaying =>
        have hmoved : ¬ r.readPosition = 0 := fun hzero => hplaying (hflag.mpr hzero)
        exact ⟨fun hrefilling => absurd hrefilling hplaying, fun hzero => by omega⟩

-- ── the machine gets through ────────────────────────────────────────

theorem wordMaximum_lt : Ring.wordMaximum < 2 ^ 64 := by decide

/-- A list of steps none of which stops. -/
theorem mapM_eq_some_map {α β : Type} {f : α → Option β} {g : α → β} {l : List α}
    (h : ∀ a ∈ l, f a = some (g a)) : l.mapM f = some (l.map g) := by
  induction l with
  | nil => rfl
  | cons a l ih =>
      rw [List.mapM_cons, h a List.mem_cons_self, ih fun b hb => h b (List.mem_cons_of_mem a hb)]
      rfl

theorem fill?_eq {capacity : Nat} (hcapacity : 0 < capacity) (data : List Channel)
    (position offset : Nat) {channels : List Channel}
    (hsized : ∀ storage ∈ channels, storage.size = capacity) :
    Ring.fill? capacity data position offset channels =
      some (channels.zipIdx.map fun (storage, c) =>
        storage.setIfInBounds (position % capacity) (sampleAt (data[c]?.getD #[]) offset)) := by
  rw [Ring.fill?, Checked.mod_of_pos hcapacity]
  refine mapM_eq_some_map fun (storage, c) hmem => Checked.put_of_lt ?_ _
  rw [hsized storage (List.fst_mem_of_mem_zipIdx hmem)]
  exact Nat.mod_lt _ hcapacity

/-- **Storing position by position** is storing per channel, where every position and every offset is a
    word. -/
theorem fillFrom?_eq {capacity : Nat} (hcapacity : 0 < capacity) {data : List Channel}
    {f : Nat → Nat → Sample} (n : Nat) {position offset : Nat} {channels : List Channel}
    (hsized : ∀ storage ∈ channels, storage.size = capacity)
    (hposition : position + n ≤ Ring.wordMaximum) (hoffset : offset + n ≤ Ring.wordMaximum)
    (hf : ∀ c k, k < n → sampleAt (data[c]?.getD #[]) (offset + k) = f c (position + k)) :
    Ring.fillFrom? capacity data n position offset channels =
      some (channels.zipIdx.map fun (storage, c) => Ring.store capacity (f c) position n storage) := by
  have hmax := wordMaximum_lt
  induction n generalizing position offset channels with
  | zero =>
      show some channels = some (channels.zipIdx.map Prod.fst)
      rw [List.zipIdx_map_fst]
  | succ n ih =>
      rw [Ring.fillFrom?, fill?_eq hcapacity data position offset hsized,
        Checked.add_of_lt (by omega), Checked.add_of_lt (by omega)]
      refine (ih ?_ (by omega) (by omega) ?_).trans (congrArg some ?_)
      · intro storage hmem
        obtain ⟨⟨old, c⟩, hold, rfl⟩ := List.mem_map.mp hmem
        rw [Array.size_setIfInBounds]
        exact hsized old (List.fst_mem_of_mem_zipIdx hold)
      · intro c k hk
        have hnext := hf c (k + 1) (by omega)
        rw [Nat.add_assoc, Nat.add_assoc, Nat.add_comm 1 k]
        exact hnext
      · refine List.ext_getElem? fun c => ?_
        simp only [List.getElem?_map, List.getElem?_zipIdx, Option.map_map, Function.comp_def,
          Nat.zero_add]
        have hfirst := hf c 0 (Nat.succ_pos n)
        rw [Nat.add_zero, Nat.add_zero] at hfirst
        rw [hfirst]
        rfl

theorem Ring.skip?_eq (r : Ring) (start : Nat) :
    r.skip? start = some (max start r.readPosition - start) := by
  rw [Ring.skip?]
  split
  · rw [Checked.sub_of_le (by omega), Nat.max_eq_right (by omega)]
  · rw [Nat.max_eq_left (by omega), Nat.sub_self]

/-- Without a gap nothing is stored. -/
theorem Ring.silence?_eq (hcapacity : 0 < r.capacity)
    (hsized : ∀ storage ∈ r.channels, storage.size = r.capacity) {first : Nat}
    (hread : r.readPosition ≤ first) (hword : first ≤ wordMaximum) :
    r.silence? first = some (r.channels.zipIdx.map fun (storage, _) =>
      store r.capacity (fun _ => .silence) (max r.writePosition r.readPosition)
        (first - max r.writePosition r.readPosition) storage) := by
  rw [Ring.silence?]
  split
  · exact fillFrom?_eq hcapacity (f := fun _ _ => .silence) _ hsized (by omega) (by omega)
      fun _ _ _ => rfl
  · have hnone : first - max r.writePosition r.readPosition = 0 := by omega
    rw [hnone]
    show some r.channels = some (r.channels.zipIdx.map Prod.fst)
    rw [List.zipIdx_map_fst]

/-- **The stores of a write** have a cell for every position. -/
theorem Ring.storeAll?_eq (hcapacity : 0 < r.capacity)
    (hsized : ∀ storage ∈ r.channels, storage.size = r.capacity) (data : List Channel)
    {start stop : Nat} (hstart : start ≤ stop) (hread : r.readPosition ≤ stop)
    (hword : stop ≤ wordMaximum) :
    r.storeAll? data start stop =
      some (r.storeAll data start (max start r.readPosition) stop) := by
  rw [Ring.storeAll?, skip?_eq]
  simp only [Option.bind_eq_bind, Option.bind_some]
  rw [silence?_eq hcapacity hsized (Nat.le_max_right _ _) (by omega), Option.bind_some,
    fillFrom?_eq hcapacity (f := fun c i => sampleAt (data[c]?.getD #[]) (i - start)) _ ?_
      (by omega) (by omega) ?_, Option.bind_some]
  · refine congrArg (fun channels => some { r with
      channels := channels, writePosition := max r.writePosition stop }) ?_
    refine List.ext_getElem? fun c => ?_
    simp only [List.getElem?_map, List.getElem?_zipIdx, Option.map_map, Function.comp_def,
      Nat.zero_add]
  · intro storage hmem
    obtain ⟨⟨old, c⟩, hold, rfl⟩ := List.mem_map.mp hmem
    rw [size_store]
    exact hsized old (List.fst_mem_of_mem_zipIdx hold)
  · intro c k _
    congr 1
    omega

theorem Ring.evict?_eq {stop : Nat} (h : r.readPosition ≤ stop) :
    r.evict? stop = some (r.evict stop) := by
  rw [Ring.evict?, Ring.evict, Checked.sub_of_le h]
  simp only [Option.bind_eq_bind, Option.bind_some]
  split
  · rw [Checked.sub_of_le (by omega)]
    simp only [Option.bind_some]
    rw [Checked.sub_of_le (by omega)]
    rfl
  · rfl

/-- The position of a time fits in 128 bits on the way. -/
theorem Ring.positionOf?_eq {timestamp : Timestamp} (hrate : r.sampleRate < 2 ^ 32)
    (htime : timestamp.value ≤ Varint.maximum) :
    r.positionOf? timestamp = some (r.positionOf timestamp) := by
  have hvalue : timestamp.value < 2 ^ 62 := Nat.lt_of_le_of_lt htime (by decide)
  have hproduct : timestamp.value * r.sampleRate < 2 ^ 62 * 2 ^ 32 := Nat.mul_lt_mul'' hvalue hrate
  have hscale : timestamp.value * 1000000 / 1000000 = timestamp.value := by omega
  have hscaled : Checked.mul 128 timestamp.value 1000000 = some (timestamp.value * 1000000) :=
    Checked.mul_of_lt (by omega)
  have hmultiplied : Checked.mul 128 timestamp.value r.sampleRate =
      some (timestamp.value * r.sampleRate) := Checked.mul_of_lt (by omega)
  have hrounded : Checked.add 128 (timestamp.value * r.sampleRate) 500000 =
      some (timestamp.value * r.sampleRate + 500000) := Checked.add_of_lt (by omega)
  have hposition : r.positionOf timestamp =
      (timestamp.value * r.sampleRate + 500000) / 1000000 := by
    show (timestamp.value * 1000000 / 1000000 * r.sampleRate + 500000) / 1000000 = _
    rw [hscale]
  rw [hposition, Ring.positionOf?, hscaled, Option.bind_eq_bind, Option.bind_some, hscale,
    hmultiplied, Option.bind_some, hrounded, Option.bind_some]
  rfl

/-- Writing at a position gets through with room for what was played or given up. -/
theorem Ring.InBounds.writeAt?_eq (h : r.InBounds) (data : List Channel) {count start : Nat}
    (hstart : start ≤ wordMaximum) :
    r.writeAt? data count start =
      some (if min (start + count) wordMaximum ≤ r.readPosition then r
        else (r.evict (min (start + count) wordMaximum)).storeAll data start
          (max start (r.evict (min (start + count) wordMaximum)).readPosition)
          (min (start + count) wordMaximum)) := by
  rw [Ring.writeAt?, if_neg (Nat.not_lt_of_le hstart)]
  have hfirst : start ≤ min (start + count) wordMaximum := by omega
  have hword : min (start + count) wordMaximum ≤ wordMaximum := Nat.min_le_right _ _
  generalize min (start + count) wordMaximum = stop at hfirst hword
  show (if stop ≤ r.readPosition then some r else r.evict? stop >>= _) = _
  by_cases hplayed : stop ≤ r.readPosition
  · rw [if_pos hplayed, if_pos hplayed]
  · obtain ⟨-, hstop, -⟩ := readPosition_evict (Nat.lt_of_not_le hplayed)
    rw [if_neg hplayed, if_neg hplayed, evict?_eq (Nat.le_of_not_le hplayed), Option.bind_eq_bind,
      Option.bind_some]
    refine storeAll?_eq ?_ ?_ data hfirst hstop hword
    · rw [evict_capacity]
      exact h.capacity_pos
    · rw [evict_channels, evict_capacity]
      exact h.sized

/-- **A write never stops the machine.** -/
theorem Ring.InBounds.write?_eq (h : r.InBounds) {timestamp : Timestamp}
    (hrate : r.sampleRate < 2 ^ 32) (htime : timestamp.value ≤ Varint.maximum)
    (data : List Channel) : r.write? timestamp data = some (r.write timestamp data) := by
  rw [Ring.write?, Ring.write, positionOf?_eq hrate htime, Option.bind_eq_bind, Option.bind_some]
  by_cases hcount : (data.head?.map Array.size).getD 0 = 0
  · rw [if_pos hcount, if_pos (Or.inl hcount)]
  · rw [if_neg hcount]
    by_cases hfar : wordMaximum < r.positionOf timestamp
    · rw [Ring.writeAt?, if_pos hfar, if_pos (Or.inr hfar)]
    · rw [h.writeAt?_eq data (Nat.le_of_not_lt hfar), if_neg (not_or.mpr ⟨hcount, hfar⟩)]

/-- A sample that waits has a cell. -/
theorem Ring.InBounds.load?_eq (h : r.InBounds) {storage : Channel} (hstorage : storage ∈ r.channels)
    {place : Nat} (hplace : place < r.available) :
    r.load? storage place = some (sampleAt storage ((r.readPosition + place) % r.capacity)) := by
  have hmax := wordMaximum_lt
  have hword := h.word
  rw [Ring.available] at hplace
  have hcell : (r.readPosition + place) % r.capacity < storage.size := by
    rw [h.sized storage hstorage]
    exact Nat.mod_lt _ h.capacity_pos
  rw [Ring.load?, Checked.add_of_lt (by omega), Option.bind_eq_bind, Option.bind_some,
    Checked.mod_of_pos h.capacity_pos, Option.bind_some, sampleAt, Array.getElem?_eq_getElem hcell]
  rfl

theorem Ring.InBounds.deliver?_eq (h : r.InBounds) {count : Nat} (c : Nat) {output : Channel}
    (hcount : count ≤ r.available) (hout : count ≤ output.size) :
    r.deliver? count c output = some (match r.channels[c]? with
      | some storage =>
        overwrite (fun k => sampleAt storage ((r.readPosition + k) % r.capacity)) count output
      | none => overwrite (fun _ => .silence) count output) := by
  rw [Ring.deliver?, Checked.front_of_le hout, Option.bind_eq_bind, Option.bind_some]
  cases hc : r.channels[c]? with
  | none =>
      have hfront : (output.extract 0 count).map (fun _ => Sample.silence) =
          (Array.range count).map fun _ => Sample.silence := by
        refine Array.ext ?_ fun k _ _ => ?_
        · simp only [Array.size_map, Array.size_extract, Array.size_range]
          omega
        · rw [Array.getElem_map, Array.getElem_map]
      exact congrArg (fun front => some (front ++ output.extract count)) hfront
  | some storage =>
      have hload : ∀ k ∈ List.range count, r.load? storage k =
          some (sampleAt storage ((r.readPosition + k) % r.capacity)) := fun k hk =>
        h.load?_eq (List.mem_of_getElem? hc) (Nat.lt_of_lt_of_le (List.mem_range.mp hk) hcount)
      simp only [mapM_eq_some_map hload]
      refine congrArg (fun front => some (front ++ output.extract count)) ?_
      rw [← List.map_toArray, List.toArray_range]

theorem Ring.InBounds.deliverAll?_eq (h : r.InBounds) (outputs : List Channel) :
    r.deliverAll? (r.readable outputs) outputs = some (r.read outputs).2.1 := by
  refine mapM_eq_some_map fun (output, c) houtput => ?_
  have hmin : (outputs.map Array.size).min?.getD 0 ≤ output.size :=
    List.min?_getD_le_of_mem (List.mem_map_of_mem (List.fst_mem_of_mem_zipIdx houtput))
  refine h.deliver?_eq c (r.readable_le outputs) ?_
  rw [Ring.readable]
  split <;> omega

theorem overwrite_zero (f : Nat → Sample) (output : Channel) : Ring.overwrite f 0 output = output := by
  simp [Ring.overwrite]

/-- While the ring refills, a read takes nothing and leaves the outputs as they are. -/
theorem Ring.read_of_refilling (h : r.refilling = true) (outputs : List Channel) :
    r.read outputs = (0, outputs, r) := by
  have hnone : r.readable outputs = 0 := if_pos h
  have houtputs : (r.read outputs).2.1 = outputs := by
    refine List.ext_getElem? fun c => ?_
    simp only [Ring.read, hnone, List.getElem?_map, List.getElem?_zipIdx, Nat.zero_add]
    cases outputs[c]? with
    | none => rfl
    | some output =>
        simp only [Option.map_some]
        split <;> rw [overwrite_zero]
  show (r.readable outputs, (r.read outputs).2.1,
    { r with readPosition := r.readPosition + r.readable outputs }) = _
  rw [houtputs, hnone]
  rfl

/-- **A read never stops the machine.** -/
theorem Ring.InBounds.read?_eq (h : r.InBounds) (outputs : List Channel) :
    r.read? outputs = some (r.read outputs) := by
  have hmax := wordMaximum_lt
  have hword := h.word
  have hreadable := r.readable_le outputs
  rw [Ring.available] at hreadable
  rw [Ring.read?]
  by_cases hrefilling : r.refilling = true
  · rw [if_pos hrefilling, read_of_refilling hrefilling]
  · have hcount : min (r.writePosition - r.readPosition) ((outputs.map Array.size).min?.getD 0) =
        r.readable outputs := (if_neg hrefilling).symm
    have hread := h.read_le_write
    rw [if_neg hrefilling, Checked.sub_of_le hread, Option.bind_eq_bind, Option.bind_some, hcount]
    show (r.deliverAll? (r.readable outputs) outputs).bind _ = _
    rw [h.deliverAll?_eq, Option.bind_some, Checked.add_of_lt (by omega)]
    rfl

-- ── calls ───────────────────────────────────────────────────────────

/-- A call whose timestamp is one that the wire can carry. -/
def Call.IsTimed : Call → Prop
  | .write timestamp _ => timestamp.value ≤ Varint.maximum
  | .writeFrame f => f.timestamp.value ≤ Varint.maximum
  | .read _ => True

/-- The buffer after a list of calls. -/
def AudioBuffer.after (b : AudioBuffer) (calls : List Call) : AudioBuffer :=
  calls.foldl (fun b c => (b.call c).2) b

/-- What a ring becomes in a list of calls: it has the same shape, no position has moved back, and it
    refills exactly as long as nothing was written past the capacity. -/
structure Ring.Reaches (r : Ring) (calls : List Call) (r' : Ring) : Prop where
  inBounds : r'.InBounds
  rate : r'.sampleRate = r.sampleRate
  count : r'.channels.length = r.channels.length
  capacity : r'.capacity = r.capacity
  reading : r.readPosition ≤ r'.readPosition
  writing : r.writePosition ≤ r'.writePosition
  refilling_iff : r'.refilling = true ↔
    r.refilling = true ∧ ∀ c ∈ calls, ∀ stop, r.stopOf? c = some stop → stop ≤ r.capacity

/-- Where a call ends depends on the shape alone. -/
theorem Ring.Reaches.stopOf? {calls : List Call} {r' : Ring} (h : r.Reaches calls r') (c : Call) :
    r'.stopOf? c = r.stopOf? c := by
  have hposition : r'.positionOf = r.positionOf := by
    funext timestamp
    rw [Ring.positionOf, h.rate]
    rfl
  have hstop : r'.stop? = r.stop? := by
    funext timestamp data
    rw [Ring.stop?, hposition]
    rfl
  cases c with
  | write timestamp data => exact congrFun (congrFun hstop timestamp) data
  | writeFrame f =>
      simp only [Ring.stopOf?, h.count, hstop]
  | read outputs => rfl

theorem Ring.InBounds.reaches_nil (h : r.InBounds) : r.Reaches [] r where
  inBounds := h
  rate := rfl
  count := rfl
  capacity := rfl
  reading := Nat.le_refl _
  writing := Nat.le_refl _
  refilling_iff := ⟨fun hrefilling => ⟨hrefilling, nofun⟩, And.left⟩

theorem Ring.Reaches.append {calls calls' : List Call} {r' r'' : Ring} (h : r.Reaches calls r')
    (h' : r'.Reaches calls' r'') : r.Reaches (calls ++ calls') r'' where
  inBounds := h'.inBounds
  rate := h'.rate.trans h.rate
  count := h'.count.trans h.count
  capacity := h'.capacity.trans h.capacity
  reading := Nat.le_trans h.reading h'.reading
  writing := Nat.le_trans h.writing h'.writing
  refilling_iff := by
    rw [h'.refilling_iff, h.refilling_iff]
    simp only [h.stopOf?, h.capacity, List.forall_mem_append, and_assoc]

/-- A write changes no part of the shape. -/
theorem Ring.write_shape (r : Ring) (timestamp : Timestamp) (data : List Channel) :
    (r.write timestamp data).sampleRate = r.sampleRate ∧
      (r.write timestamp data).channels.length = r.channels.length ∧
      (r.write timestamp data).capacity = r.capacity := by
  cases hstop : r.stop? timestamp data with
  | none =>
      rw [write_of_none hstop]
      exact ⟨rfl, rfl, rfl⟩
  | some stop =>
      rw [write_of_some hstop]
      split
      · exact ⟨rfl, rfl, rfl⟩
      · simp only [Ring.storeAll, List.length_map, List.length_zipIdx, evict_sampleRate, evict_channels,
          evict_capacity, and_self]

theorem Ring.InBounds.reaches_write (h : r.InBounds) {c : Call} {timestamp : Timestamp}
    {data : List Channel} (hc : r.stopOf? c = r.stop? timestamp data) :
    r.Reaches [c] (r.write timestamp data) where
  inBounds := h.write timestamp data
  rate := (r.write_shape timestamp data).1
  count := (r.write_shape timestamp data).2.1
  capacity := (r.write_shape timestamp data).2.2
  reading := (r.le_write timestamp data).1
  writing := (r.le_write timestamp data).2
  refilling_iff := by
    rw [h.refilling_write, List.forall_mem_singleton, hc]

/-- A call that writes nothing and leaves the ring as it is. -/
theorem Ring.InBounds.reaches_same (h : r.InBounds) {c : Call} (hc : r.stopOf? c = none) :
    r.Reaches [c] r :=
  { h.reaches_nil with
    refilling_iff := by
      rw [List.forall_mem_singleton, hc]
      exact ⟨fun hrefilling => ⟨hrefilling, nofun⟩, And.left⟩ }

theorem Ring.InBounds.reaches_read (h : r.InBounds) (outputs : List Channel) :
    r.Reaches [.read outputs] (r.read outputs).2.2 where
  inBounds := h.read outputs
  rate := rfl
  count := rfl
  capacity := rfl
  reading := Nat.le_add_right _ _
  writing := Nat.le_refl _
  refilling_iff := (h.reaches_same rfl).refilling_iff

/-- **One call keeps the bounds.** -/
theorem Ring.InBounds.call (h : r.InBounds) (c : Call) :
    ∃ r', ((AudioBuffer.mk (some r)).call c).2 = ⟨some r'⟩ ∧ r.Reaches [c] r' := by
  cases c with
  | write timestamp data => exact ⟨_, rfl, h.reaches_write rfl⟩
  | writeFrame f =>
      simp only [AudioBuffer.call, AudioBuffer.writeFrame, AudioBuffer.ring?, bind, Except.bind]
      cases hdata : decodeSamples f.bytes r.channels.length with
      | ok data =>
          refine ⟨_, rfl, h.reaches_write ?_⟩
          simp only [stopOf?, hdata]
      | error e =>
          refine ⟨_, rfl, h.reaches_same ?_⟩
          simp only [stopOf?, hdata]
  | read outputs => exact ⟨_, rfl, h.reaches_read outputs⟩

/-- **One call gets through.** -/
theorem Ring.InBounds.call?_eq (h : r.InBounds) (hrate : r.sampleRate < 2 ^ 32) {c : Call}
    (htimed : c.IsTimed) :
    (AudioBuffer.mk (some r)).call? c = some ((AudioBuffer.mk (some r)).call c) := by
  cases c with
  | write timestamp data =>
      show (r.write? timestamp data).bind _ = _
      rw [h.write?_eq hrate htimed]
      rfl
  | writeFrame f =>
      simp only [AudioBuffer.call?, AudioBuffer.call, AudioBuffer.writeFrame, AudioBuffer.ring?, bind,
        Except.bind]
      cases decodeSamples f.bytes r.channels.length with
      | ok data =>
          show (r.write? f.timestamp data).bind _ = _
          rw [h.write?_eq hrate htimed]
          rfl
      | error e => rfl
  | read outputs =>
      show (r.read? outputs).bind _ = _
      rw [h.read?_eq]
      rfl

-- ── runs ────────────────────────────────────────────────────────────

theorem Ring.InBounds.after (h : r.InBounds) (calls : List Call) :
    ∃ r', (AudioBuffer.mk (some r)).after calls = ⟨some r'⟩ ∧ r.Reaches calls r' := by
  induction calls generalizing r with
  | nil => exact ⟨r, rfl, h.reaches_nil⟩
  | cons c calls ih =>
      obtain ⟨r', hcall, hfirst⟩ := h.call c
      obtain ⟨r'', hafter, hrest⟩ := ih hfirst.inBounds
      refine ⟨r'', ?_, hfirst.append hrest⟩
      rw [← hafter, ← hcall]
      rfl

theorem Ring.InBounds.observations?_eq (h : r.InBounds) (hrate : r.sampleRate < 2 ^ 32)
    {calls : List Call} (htimed : ∀ c ∈ calls, c.IsTimed) :
    (AudioBuffer.mk (some r)).observations? calls = some ((AudioBuffer.mk (some r)).observe calls) := by
  induction calls generalizing r with
  | nil => rfl
  | cons c calls ih =>
      obtain ⟨r', hcall, hfirst⟩ := h.call c
      have hlater := ih hfirst.inBounds (hfirst.rate ▸ hrate)
        fun c hc => htimed c (List.mem_cons_of_mem _ hc)
      rw [AudioBuffer.observations?, h.call?_eq hrate (htimed c List.mem_cons_self),
        AudioBuffer.observe]
      generalize (AudioBuffer.mk (some r)).call c = outcome at hcall
      obtain ⟨answer, next⟩ := outcome
      cases hcall
      rw [Option.bind_eq_bind, Option.bind_some]
      show ((AudioBuffer.mk (some r')).observations? calls).bind _ = _
      rw [hlater]
      rfl

/-- A ring that has just got its shape. -/
theorem inBounds_ofConfig {config : AudioConfig} (h : Ring.ofConfig config = .ok r) :
    r.InBounds ∧ r.sampleRate = config.sampleRate ∧ r.refilling = true := by
  rw [Ring.ofConfig] at h
  split at h
  · cases h
  split at h
  · cases h
  split at h
  · cases h
  split at h
  · cases h
  next hrate hchannels hlatency hword =>
  cases h
  have hproduct : 0 < config.sampleRate * config.latency.nanos :=
    Nat.mul_pos (Nat.pos_of_ne_zero hrate) (Nat.pos_of_ne_zero hlatency)
  refine ⟨⟨?_, Nat.le_refl _, Nat.zero_le _, Nat.zero_le _, ?_, ?_⟩, rfl, rfl⟩
  · show 0 < (config.sampleRate * config.latency.nanos + (1000000000 - 1)) / 1000000000
    omega
  · intro storage hmem
    rw [List.eq_of_mem_replicate hmem, Array.size_replicate]
  · exact ⟨fun _ => rfl, fun _ => rfl⟩

/-- **The ring stays in bounds.** A buffer that has its shape takes every list of writes and reads on a
    machine that counts in words, with the answers of the plain ring. After it the read position is at
    most the write position, which is at most one capacity ahead, and no more samples wait than the
    capacity. The ring refills exactly as long as nothing has moved the read position, and that is as long
    as no write ended past the capacity. No position is less than it was at any earlier point. -/
theorem calls_stay_in_bounds {config : AudioConfig} {b : AudioBuffer} {calls : List Call}
    (hrate : config.sampleRate < 2 ^ 32) (hb : AudioBuffer.empty.setUp config = .ok b)
    (htimed : ∀ c ∈ calls, c.IsTimed) :
    b.observations? calls = some (b.observe calls) ∧
      ∃ start r, b.ring = some start ∧ (b.after calls).ring = some r ∧
        (1 ≤ r.capacity ∧ r.readPosition ≤ r.writePosition ∧
          r.writePosition ≤ r.readPosition + r.capacity ∧ r.available ≤ r.capacity) ∧
        (r.refilling = true ↔ r.readPosition = 0) ∧
        (r.refilling = true ↔
          ∀ c ∈ calls, ∀ stop, start.stopOf? c = some stop → stop ≤ r.capacity) ∧
        ∀ earlier later, calls = earlier ++ later → ∃ r', (b.after earlier).ring = some r' ∧
          r'.readPosition ≤ r.readPosition ∧ r'.writePosition ≤ r.writePosition := by
  rw [AudioBuffer.setUp, AudioBuffer.empty] at hb
  simp only at hb
  cases hring : Ring.ofConfig config with
  | error fault =>
      rw [hring] at hb
      cases hb
  | ok start =>
      rw [hring] at hb
      cases hb
      obtain ⟨hstart, hsame, hfresh⟩ := inBounds_ofConfig hring
      obtain ⟨r, hafter, hreaches⟩ := hstart.after calls
      have hbounds := hreaches.inBounds
      refine ⟨hstart.observations?_eq (hsame ▸ hrate) htimed, start, r, rfl, ?_, ?_,
        hbounds.refilling_iff, ?_, ?_⟩
      · rw [hafter]
      · exact ⟨hbounds.capacity_pos, hbounds.read_le_write, hbounds.write_le, hbounds.available_le⟩
      · rw [hreaches.refilling_iff, hreaches.capacity]
        exact and_iff_right hfresh
      · rintro earlier later rfl
        obtain ⟨r', hearlier, hfirst⟩ := hstart.after earlier
        obtain ⟨last, hlater, hrest⟩ := hfirst.inBounds.after later
        have hlast : last = r := by
          have hjoined : (AudioBuffer.mk (some start)).after (earlier ++ later) = ⟨some last⟩ := by
            rw [← hlater, ← hearlier]
            exact List.foldl_append
          rw [hafter] at hjoined
          cases hjoined
          rfl
        subst hlast
        exact ⟨r', by rw [hearlier], hrest.reading, hrest.writing⟩

/-- Five samples at once end the refilling of a window of three, at a time whose position is no word
    nothing is written, and then there is something to read. -/
theorem calls_stay_in_bounds_threeSeconds :
    ∃ b, AudioBuffer.empty.setUp threeSeconds = .ok b ∧
      b.observations? [.write ⟨⟨0⟩⟩ [#[⟨1⟩, ⟨2⟩, ⟨3⟩, ⟨4⟩, ⟨5⟩]],
          .write ⟨⟨4611686018427387903⟩⟩ [#[⟨9⟩]], .read [#[⟨0⟩, ⟨0⟩]]] =
        some (b.observe [.write ⟨⟨0⟩⟩ [#[⟨1⟩, ⟨2⟩, ⟨3⟩, ⟨4⟩, ⟨5⟩]],
          .write ⟨⟨4611686018427387903⟩⟩ [#[⟨9⟩]], .read [#[⟨0⟩, ⟨0⟩]]]) := by
  have hset : AudioBuffer.empty.setUp threeSeconds =
      .ok ⟨some ⟨1, [#[.silence, .silence, .silence]], 3, 0, 0, true⟩⟩ := rfl
  refine ⟨_, hset, (calls_stay_in_bounds (by decide) hset ?_).1⟩
  refine List.forall_mem_cons.mpr ⟨?_, List.forall_mem_cons.mpr
    ⟨?_, List.forall_mem_singleton.mpr trivial⟩⟩
  · exact Nat.zero_le _
  · show 4611686018427387903 ≤ Varint.maximum
    decide

end LiveMedia.Audio
