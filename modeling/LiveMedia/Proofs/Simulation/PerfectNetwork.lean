import LiveMedia.Proofs.Simulation.PerfectLine
import LiveMedia.Proofs.Time.Range

/-!
# Videos on a perfect network

A network without jitter that stalls none of the groups delays nothing. If the player's budget is as long as
the whole video, nothing is given up either. Then a run plays every frame that was published, in order, and
reports it (`Video.perfect_network_delivers_everything`).

The pictures of a video (`Video.picture`) come in groups of equally many, each beginning with a keyframe, so
the groups of its track are these (`Video.runsOf_pictures`). The rest is what is true of every line without
delay.
-/

namespace LiveMedia.Simulation

open LiveMedia.Wire LiveMedia.Time LiveMedia.Live LiveMedia.Playback

/-- A count that is a product can be counted in blocks. -/
theorem range_mul (blocks size : Nat) : List.range (blocks * size) =
    (List.range blocks).flatMap fun block => (List.range size).map fun place => block * size + place := by
  induction blocks with
  | zero =>
      rw [Nat.zero_mul]
      rfl
  | succ blocks ih =>
      rw [Nat.succ_mul, List.range_add, ih, List.range_succ, List.flatMap_append]
      congr 1
      exact (List.append_nil _).symm

namespace Video

variable {v : Video}

-- ── pictures ────────────────────────────────────────────────────────

/-- The frame of a number, if its time is in range. -/
def picture (v : Video) (index : Nat) : MediaFrame :=
  .ofChunks ⟨⟨v.period.nanos * index / 1000⟩⟩ (index % v.frames == 0) [List.replicate v.size 0]

/-- All frames. -/
def pictures (v : Video) : List MediaFrame := (List.range v.total).map v.picture

theorem keyframe_picture (v : Video) (index : Nat) :
    (v.picture index).keyframe = (index % v.frames == 0) := rfl

theorem bytes_picture (v : Video) (index : Nat) : (v.picture index).bytes = List.replicate v.size 0 := by
  show ([List.replicate v.size 0].filter (· ≠ [])).flatten = _
  by_cases hempty : List.replicate v.size (0 : UInt8) = []
  · simp [hempty]
  · simp [hempty]

/-- A picture has its payload in one piece. -/
theorem joined_picture (v : Video) (index : Nat) : (v.picture index).joined = v.picture index := by
  rw [MediaFrame.joined, bytes_picture]
  rfl

theorem length_encoded_picture_le (v : Video) (index : Nat) :
    (v.picture index).encoded.length ≤ v.size + 8 := by
  have hsize : (v.picture index).timestamp.ticks.size ≤ 8 := by
    rw [Varint.size]
    split
    · decide
    · split
      · decide
      · split <;> decide
  have hencoded : (v.picture index).encoded =
      (v.picture index).timestamp.ticks.encode ++ (v.picture index).bytes := List.flatten_cons
  rw [hencoded, List.length_append, bytes_picture, List.length_replicate, Varint.length_encode]
  omega

/-- The time of every frame is in range. -/
theorem stamp_picture_le (hcount : v.total < countLimit) {index : Nat} (hindex : index < v.total) :
    v.period.nanos * index / 1000 ≤ Varint.maximum := by
  have hperiod : v.period.nanos ≤ Span.perSecond := Nat.div_le_self _ _
  have hlimit : Span.perSecond * countLimit / 1000 ≤ Varint.maximum := by decide
  have hproduct : v.period.nanos * index ≤ Span.perSecond * countLimit :=
    Nat.mul_le_mul hperiod (Nat.le_of_lt (Nat.lt_trans hindex hcount))
  exact Nat.le_trans (Nat.div_le_div_right hproduct) hlimit

theorem frame_eq (hcount : v.total < countLimit) {index : Nat} (hindex : index < v.total) :
    v.frame index = .ok (v.picture index) := by
  have hvalue : v.period.nanos * index * 1000000 / Span.perSecond = v.period.nanos * index / 1000 := by
    show _ * 1000000 / 1000000000 = _
    omega
  have hstamp : (Timescale.ofSpan ⟨v.period.nanos * index⟩ : Except TimeError Timestamp) =
      .ok ⟨⟨v.period.nanos * index / 1000⟩⟩ := by
    rw [Timescale.ofSpan, hvalue, Timescale.ofTicks_eq_ok_iff]
    exact ⟨stamp_picture_le hcount hindex, rfl⟩
  rw [frame, hstamp]
  rfl

theorem feed_gives (hcount : v.total < countLimit) (hsize : v.size + 8 ≤ Varint.compactMaximum) :
    v.feed.Gives v.pictures := by
  have hlength : v.pictures.length = v.total := by
    rw [pictures, List.length_map, List.length_range]
  have hpicture : ∀ f ∈ v.pictures, ∃ index < v.total, v.picture index = f := by
    intro f hf
    obtain ⟨index, hindex, rfl⟩ := List.mem_map.mp hf
    exact ⟨index, List.mem_range.mp hindex, rfl⟩
  have hget : ∀ (index : Nat) (f : MediaFrame), v.pictures[index]? = some f →
      index < v.total ∧ v.picture index = f := by
    intro index f hf
    obtain ⟨hlt, rfl⟩ := List.getElem?_eq_some_iff.mp hf
    refine ⟨hlength ▸ hlt, ?_⟩
    simp [pictures]
  refine ⟨fun tick => ?_, fun tick f hf => ?_, fun f hf => ?_, ?_, fun f hf => ?_, fun f hf => ?_⟩
  · rw [hlength]
    rfl
  · obtain ⟨hlt, rfl⟩ := hget tick f hf
    exact frame_eq hcount hlt
  · obtain ⟨-, rfl⟩ := hget 0 f hf
    rw [keyframe_picture, Nat.zero_mod]
    rfl
  · rw [hlength]
    exact Nat.le_trans (Nat.le_of_lt hcount) (by decide)
  · obtain ⟨index, hindex, rfl⟩ := hpicture f hf
    exact stamp_picture_le hcount hindex
  · obtain ⟨index, -, rfl⟩ := hpicture f hf
    exact Nat.le_trans (v.length_encoded_picture_le index) hsize

/-- **The groups of a video** have equally many frames. -/
theorem runsOf_pictures (hframes : 1 ≤ v.frames) : runsOf v.pictures =
    (List.range v.groups).map fun group =>
      (List.range v.frames).map fun place => v.picture (group * v.frames + place) := by
  have hflatten : v.pictures = ((List.range v.groups).map fun group =>
      (List.range v.frames).map fun place => v.picture (group * v.frames + place)).flatten := by
    rw [pictures, total, range_mul, List.map_flatMap, List.flatMap_def]
    simp only [List.map_map]
    rfl
  rw [hflatten]
  refine runsOf_flatten fun run hrun => ?_
  obtain ⟨group, -, rfl⟩ := List.mem_map.mp hrun
  obtain ⟨more, hmore⟩ : ∃ more, v.frames = more + 1 := ⟨v.frames - 1, (Nat.sub_add_cancel hframes).symm⟩
  refine ⟨v.picture (group * v.frames), (List.range more).map fun place =>
    v.picture (group * v.frames + (place + 1)), ?_, ?_, fun x hx => ?_⟩
  · rw [hmore, List.range_succ_eq_map, List.map_cons, List.map_map]
    rfl
  · rw [keyframe_picture, Nat.mul_mod_left]
    rfl
  · obtain ⟨place, hplace, rfl⟩ := List.mem_map.mp hx
    have hlt : place + 1 < v.frames := hmore ▸ Nat.succ_lt_succ (List.mem_range.mp hplace)
    rw [keyframe_picture, Nat.mul_add_mod', Nat.mod_eq_of_lt hlt]
    rfl

/-- All frames of the groups are all frames, each with the number of its group. -/
theorem framesOfRuns_pictures (hframes : 1 ≤ v.frames) : framesOfRuns (runsOf v.pictures) =
    (List.range v.total).map fun index => ⟨index / v.frames, v.picture index⟩ := by
  rw [runsOf_pictures hframes, framesOfRuns, List.length_map, List.length_range, total, range_mul,
    List.map_flatMap]
  refine List.flatMap_congr fun group hgroup => ?_
  rw [List.getElem?_map, List.getElem?_range (List.mem_range.mp hgroup), Option.map_some, Option.getD_some,
    List.map_map, List.map_map, List.map_map]
  refine List.map_congr_left fun place hplace => ?_
  have hdiv : (group * v.frames + place) / v.frames = group := by
    rw [Nat.mul_comm, Nat.mul_add_div hframes, Nat.div_eq_of_lt (List.mem_range.mp hplace), Nat.add_zero]
  show OrderedFrame.mk group (v.picture _).joined = ⟨(group * v.frames + place) / v.frames, _⟩
  rw [joined_picture, hdiv]

-- ── runs ────────────────────────────────────────────────────────────

/-- Everything that was published was played, and this is reported. -/
structure DeliversAll (v : Video) (draw : Draw) (played : List Played) : Prop where
  play : v.play draw = (played, none)
  length : played.length = v.groups * v.frames
  /-- Each frame is played as it was published, and with the number of its group. -/
  frame : ∀ index p, played[index]? = some p →
    v.frame index = .ok p.frame.frame ∧ p.frame.group = index / v.frames
  ordered : played.Pairwise fun a b =>
    a.frame.group ≤ b.frame.group ∧ a.frame.frame.timestamp < b.frame.frame.timestamp
  skipped : v.skipped played = []
  run : v.run draw = ⟨played.map frameEvent ++
    [⟨"done", [("published", toString v.groups), ("frames", toString (v.groups * v.frames)), ("skipped", "[]"),
      ("max_delay", (largestDelay played).text)]⟩], none⟩

/-- Pictures that are at least a tick apart are in the order of their times. -/
theorem timestamp_picture_lt (hperiod : 1000 ≤ v.period.nanos) {i j : Nat} (h : i < j) :
    (v.picture i).timestamp < (v.picture j).timestamp := by
  have hnext : v.period.nanos * i + v.period.nanos ≤ v.period.nanos * j := by
    rw [← Nat.mul_succ]
    exact Nat.mul_le_mul_left _ h
  show v.period.nanos * i / 1000 < v.period.nanos * j / 1000
  omega

/-- What is reported when all frames were played, each with its group. -/
theorem deliversAll_of_play {draw : Draw} {played : List Played} (hframes : 1 ≤ v.frames) (hrate : 1 ≤ v.rate)
    (hcount : v.total < countLimit) (hperiod : 1000 ≤ v.period.nanos) (hplay : v.play draw = (played, none))
    (hall : played.map Played.frame =
      (List.range v.total).map fun index => ⟨index / v.frames, v.picture index⟩) :
    v.DeliversAll draw played := by
  have hlength : played.length = v.total := by
    have hlength := congrArg List.length hall
    rwa [List.length_map, List.length_map, List.length_range] at hlength
  have hskipped : v.skipped played = [] := by
    refine List.filter_eq_nil_iff.mpr fun group hgroup => ?_
    -- the first frame of the group was played
    have hfirst : ⟨group, v.picture (group * v.frames)⟩ ∈ played.map Played.frame := by
      have hlt : group * v.frames < v.total := Nat.mul_lt_mul_of_pos_right (List.mem_range.mp hgroup) hframes
      rw [hall]
      refine List.mem_map.mpr ⟨group * v.frames, List.mem_range.mpr hlt, ?_⟩
      rw [Nat.mul_div_cancel group hframes]
    obtain ⟨p, hp, hframe⟩ := List.mem_map.mp hfirst
    have hany : (played.any fun p => p.frame.group == group) = true :=
      List.any_eq_true.mpr ⟨p, hp, beq_iff_eq.mpr (congrArg OrderedFrame.group hframe)⟩
    rw [hany]
    exact Bool.false_ne_true
  refine ⟨hplay, hlength, fun index p hp => ?_, ?_, hskipped, ?_⟩
  · have hlt : index < v.total := hlength ▸ (List.getElem?_eq_some_iff.mp hp).1
    have hget := congrArg (fun frames => frames[index]?) hall
    simp only [List.getElem?_map, hp, List.getElem?_range hlt, Option.map_some] at hget
    rw [Option.some.inj hget]
    exact ⟨frame_eq hcount hlt, rfl⟩
  · have hpairs : (played.map Played.frame).Pairwise fun a b =>
        a.group ≤ b.group ∧ a.frame.timestamp < b.frame.timestamp := by
      rw [hall, List.pairwise_map]
      exact List.pairwise_lt_range.imp fun hlt =>
        ⟨Nat.div_le_div_right (Nat.le_of_lt hlt), timestamp_picture_lt hperiod hlt⟩
    exact List.pairwise_map.mp hpairs
  · have haccepted : v.isAccepted = true :=
      Bool.and_eq_true_iff.mpr ⟨decide_eq_true hrate, decide_eq_true hframes⟩
    have hpositive : 0 < v.period.nanos := Nat.lt_of_lt_of_le (by decide) hperiod
    have hpublishable : v.isPublishable = true :=
      Bool.and_eq_true_iff.mpr ⟨decide_eq_true hpositive, decide_eq_true hcount⟩
    have hdone : v.doneEvent played = ⟨"done", [("published", toString v.groups),
        ("frames", toString (v.groups * v.frames)), ("skipped", "[]"),
        ("max_delay", (largestDelay played).text)]⟩ := by
      rw [doneEvent, hlength, hskipped]
      rfl
    rw [Video.run, haccepted, hpublishable, hplay, ← hdone]
    rfl

/-- **On a perfect network everything is delivered**, whatever is drawn, as long as the budget covers the whole
    video. What is said of the size is that a frame can be written at all: its header has room for lengths up
    to `2^53 - 1`, and no memory holds a longer payload. -/
theorem perfect_network_delivers_everything (v : Video) (draw : Draw) (hframes : 1 ≤ v.frames)
    (hrate : 1 ≤ v.rate ∧ v.rate ≤ 1000) (hcount : v.groups * v.frames < 2 ^ 32)
    (hjitter : v.network.jitter = .zero) (hstall : ∀ group < v.groups, v.network.stall ≠ some group)
    (hlatency : v.groups * v.frames * v.period.nanos ≤ v.network.latency.nanos)
    (hsize : v.size + 8 ≤ Varint.compactMaximum) : ∃ played, v.DeliversAll draw played := by
  have hperiod : 1000000 ≤ v.period.nanos := by
    show 1000000 ≤ Span.perSecond / v.rate
    rw [Nat.le_div_iff_mul_le hrate.1]
    exact Nat.mul_le_mul_left 1000000 hrate.2
  have hdelay : ∀ n < (runsOf v.pictures).length, v.network.delay draw n = .zero := by
    intro n hn
    rw [runsOf_pictures hframes, List.length_map, List.length_range] at hn
    rw [Network.delay, if_neg (hstall n hn), hjitter]
    exact congrArg Span.mk (Nat.min_zero _)
  have hbudget : ∀ x ∈ v.pictures, x.timestamp.value * 1000 ≤ v.network.latency.nanos := by
    intro x hx
    obtain ⟨index, hindex, rfl⟩ := List.mem_map.mp hx
    calc v.period.nanos * index / 1000 * 1000 ≤ v.period.nanos * index := Nat.div_mul_le_self _ _
      _ ≤ v.period.nanos * v.total := Nat.mul_le_mul_left _ (Nat.le_of_lt (List.mem_range.mp hindex))
      _ = v.groups * v.frames * v.period.nanos := Nat.mul_comm _ _
      _ ≤ v.network.latency.nanos := hlatency
  obtain ⟨f, p, hgoing⟩ := Line.Going.start v.pictures "video" v.network.latency
  have hinstant : v.feed.instant 0 = .zero := congrArg Span.mk (Nat.zero_mul _)
  have hfuel : v.pictures.length ≤ 0 + (v.total + v.groups + 1) := by
    rw [pictures, List.length_map, List.length_range]
    omega
  obtain ⟨played, hplay, hall⟩ := hgoing.runFrom (feed_gives hcount hsize) hbudget hdelay
    (Nat.lt_of_lt_of_le (by decide) hperiod) (v.total + v.groups + 1) (Nat.zero_le _) hfuel (Nat.succ_pos _)
  rw [show (Line.start "video" v.network.latency).ticks = 0 from rfl, hinstant] at hplay
  rw [List.nil_append, framesOfRuns_pictures hframes] at hall
  exact ⟨played, deliversAll_of_play hframes hrate.1 hcount (Nat.le_trans (by decide) hperiod) hplay hall⟩

/-- Two groups of three frames through a network that would stall a third group. -/
def sixFrames : Video := ⟨⟨.ofMillis 200, .zero, some 2, .ofSeconds 2⟩, 2, 3, 30, 4⟩

theorem perfect_network_delivers_everything_sixFrames :
    ∃ played, sixFrames.DeliversAll (fun group => .ofMillis group) played ∧ played.length = 6 := by
  have hstall : ∀ group < sixFrames.groups, sixFrames.network.stall ≠ some group := by decide
  obtain ⟨played, hall⟩ := perfect_network_delivers_everything sixFrames (fun group => .ofMillis group)
    (by decide) (by decide) (by decide) rfl hstall (by decide) (by decide)
  exact ⟨played, hall, hall.length⟩

end Video

end LiveMedia.Simulation
