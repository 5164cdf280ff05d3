import LiveMedia.Proofs.Live.Store

/-!
# Filling a group

One writer fills a group of its own: it appends frames one after the other and closes each before the
next. `Filling` is what holds of the store all the while. The group is open, it has the frames that were
closed and perhaps one that is being written, and all of them were made by this writer, so their
identities lie above a bound. As long as this holds none of the writer's operations fails, except a chunk
or an end that does not fit the size of the frame.

The other side of the development is how a group can end: `Complete` with the payloads of its frames, or
`Aborted`, where the frames have ended as well.
-/

namespace LiveMedia.Live

open LiveMedia.Wire

namespace Store

/-- The payloads of frames. -/
def payloads (s : Store) (ws : List FrameWriter) : List Bytes :=
  ws.map fun w => (s.frame w.frame).payload

theorem payloads_append (s : Store) (ws ws' : List FrameWriter) :
    s.payloads (ws ++ ws') = s.payloads ws ++ s.payloads ws' := List.map_append

theorem payloads_congr {s s' : Store} {ws : List FrameWriter}
    (h : ∀ w ∈ ws, s'.frame w.frame = s.frame w.frame) : s'.payloads ws = s.payloads ws := by
  refine List.map_congr_left fun w hw => ?_
  rw [h w hw]

/-- The group was closed, all its frames were closed, and these are their payloads. -/
structure Complete (s : Store) (g : GroupId) (payloads : List Bytes) : Prop where
  group : (s.group g).ending = some .complete
  frames : ∀ w ∈ (s.group g).frames, (s.frame w.frame).ending = some .complete
  payloads_eq : s.payloads (s.group g).frames = payloads

/-- A group stays complete if it and its frames stay as they are. -/
theorem Complete.congr {s s' : Store} {g : GroupId} {payloads : List Bytes} (h : s.Complete g payloads)
    (hgroup : s'.group g = s.group g)
    (hframe : ∀ w ∈ (s.group g).frames, s'.frame w.frame = s.frame w.frame) : s'.Complete g payloads where
  group := by
    rw [hgroup]
    exact h.group
  frames w hw := by
    rw [hgroup] at hw
    rw [hframe w hw]
    exact h.frames w hw
  payloads_eq := by
    rw [hgroup, payloads_congr hframe]
    exact h.payloads_eq

/-- The frames of the group have the sizes that were given. -/
def Sized (s : Store) (g : GroupId) : Prop :=
  ∀ w ∈ (s.group g).frames, (s.frame w.frame).payload.length = w.size

theorem Sized.congr {s s' : Store} {g : GroupId} (h : s.Sized g) (hgroup : s'.group g = s.group g)
    (hframe : ∀ w ∈ (s.group g).frames, s'.frame w.frame = s.frame w.frame) : s'.Sized g := by
  intro w hw
  rw [hgroup] at hw
  rw [hframe w hw]
  exact h w hw

/-- The group was aborted, and all its frames with it. -/
def Aborted (s : Store) (g : GroupId) : Prop :=
  ∃ e, (s.group g).ending = some (.aborted e) ∧
    ∀ w ∈ (s.group g).frames, (s.frame w.frame).ending = some (.aborted e)

/-- A group that one writer fills: the frames that it closed, and the one that it is writing. -/
structure Filling (base : FrameId) (s : Store) (g : GroupWriter) (ws : List FrameWriter)
    (current : Option FrameWriter) : Prop where
  base_le : base ≤ s.frames.size
  group_lt : g.group < s.groups.size
  group_eq : s.group g.group = ⟨ws ++ current.toList, none⟩
  frame_ids : ∀ w ∈ ws ++ current.toList, base ≤ w.frame ∧ w.frame < s.frames.size
  closed : ∀ w ∈ ws, (s.frame w.frame).ending = some .complete
  /-- The frame being written is open, and its bytes have been counted. -/
  writing : ∀ c, current = some c → (s.frame c.frame).ending = none ∧
    (s.frame c.frame).written = (s.frame c.frame).payload.length
  /-- The closed frames have the sizes that were given. -/
  sized : ∀ w ∈ ws, (s.frame w.frame).payload.length = w.size

namespace Filling

variable {base : FrameId} {s : Store} {g : GroupWriter} {ws : List FrameWriter} {c : FrameWriter}
  {current : Option FrameWriter}

/-- A closed frame is not the one being written. -/
theorem apart (h : Filling base s g ws (some c)) {w : FrameWriter} (hw : w ∈ ws) :
    w.frame ≠ c.frame := by
  intro heq
  have hopen := (h.writing c rfl).1
  rw [← heq, h.closed w hw] at hopen
  exact nomatch hopen

theorem current_ids (h : Filling base s g ws (some c)) :
    base ≤ c.frame ∧ c.frame < s.frames.size :=
  h.frame_ids c (List.mem_append_right ws List.mem_cons_self)

-- ── beginning ───────────────────────────────────────────────────────

/-- A group of its own, with no frame yet. -/
theorem fresh {sequence : Nat} {t : TrackWriter} {opened : Store}
    (h : s.createGroup t sequence = .ok (g, opened)) : Filling s.frames.size opened g [] none := by
  obtain ⟨rfl, rfl⟩ := createGroup_eq_ok h
  refine ⟨Nat.le_refl _, ?_, ?_, ?_, ?_, ?_, ?_⟩
  · show s.groups.size < (s.newGroup sequence).2.groups.size
    rw [size_newGroup]
    exact Nat.lt_succ_self _
  · show (s.newGroup sequence).2.group s.groups.size = _
    rw [group_newGroup, s.group_of_size_le (Nat.le_refl _)]
    rfl
  · intro w hw
    exact absurd hw List.not_mem_nil
  · intro w hw
    exact absurd hw List.not_mem_nil
  · intro c hc
    exact nomatch hc
  · intro w hw
    exact absurd hw List.not_mem_nil

/-- A frame is begun. -/
theorem createFrame (h : Filling base s g ws none) (size : Nat) :
    ∃ c s', s.createFrame g size = .ok (c, s') ∧ Filling base s' g ws (some c) ∧ c.size = size ∧
      (s'.frame c.frame).payload = [] ∧ s'.payloads ws = s.payloads ws ∧
      Confined base g.group s s' := by
  let c : FrameWriter := ⟨s.frames.size, size⟩
  let next := (s.newFrame size).2
  let s' := next.setGroup g.group ⟨ws ++ [c], none⟩
  have hgroup : s.group g.group = ⟨ws, none⟩ := by
    rw [h.group_eq, Option.toList_none, List.append_nil]
  have happend : next.appendFrame g c = .ok s' := by
    show ((s.group g.group).append c).map _ = _
    rw [hgroup]
    rfl
  have hfresh : s.frame c.frame = .fresh := s.frame_of_size_le (Nat.le_refl _)
  have hframe : ∀ i, s'.frame i = s.frame i := s.frame_newFrame size
  have hsize : s'.frames.size = s.frames.size + 1 := s.size_newFrame size
  refine ⟨c, s', ?_, ⟨?_, ?_, ?_, ?_, ?_, ?_, ?_⟩, rfl, ?_, ?_, ?_⟩
  · unfold Store.createFrame
    show (do return (c, ← next.appendFrame g c)) = _
    rw [happend]
    rfl
  · rw [hsize]
    exact Nat.le_succ_of_le h.base_le
  · exact (next.size_setGroup g.group _).symm ▸ h.group_lt
  · exact next.group_setGroup_self h.group_lt _
  · intro w hw
    rw [hsize]
    rcases List.mem_append.mp hw with hw | hw
    · obtain ⟨hlow, hlt⟩ := h.frame_ids w (List.mem_append_left _ hw)
      exact ⟨hlow, Nat.lt_succ_of_lt hlt⟩
    · obtain rfl := List.mem_singleton.mp hw
      exact ⟨h.base_le, Nat.lt_succ_self _⟩
  · intro w hw
    rw [hframe]
    exact h.closed w hw
  · intro c' hc
    obtain rfl := Option.some.inj hc
    rw [hframe, hfresh]
    exact ⟨rfl, rfl⟩
  · intro w hw
    rw [hframe]
    exact h.sized w hw
  · rw [hframe, hfresh]
    rfl
  · exact payloads_congr fun w _ => hframe w.frame
  · exact (Confined.newFrame size).trans (.setGroup _)

-- ── writing the current frame ───────────────────────────────────────

/-- The current frame is set to a value that is open and counted, or closed. -/
theorem setFrame (h : Filling base s g ws (some c)) (f : Frame) :
    (s.setFrame c.frame f).frame c.frame = f ∧
      (s.setFrame c.frame f).payloads ws = s.payloads ws ∧
      (∀ w ∈ ws, ((s.setFrame c.frame f).frame w.frame).ending = some .complete) ∧
      (∀ w ∈ ws, ((s.setFrame c.frame f).frame w.frame).payload.length = w.size) ∧
      Confined base g.group s (s.setFrame c.frame f) := by
  obtain ⟨hlow, hlt⟩ := h.current_ids
  have hother : ∀ w ∈ ws, (s.setFrame c.frame f).frame w.frame = s.frame w.frame :=
    fun w hw => s.frame_setFrame_of_ne (h.apart hw) f
  refine ⟨s.frame_setFrame_self hlt f, payloads_congr hother, fun w hw => ?_, fun w hw => ?_,
    .setFrame hlow f⟩
  · rw [hother w hw]
    exact h.closed w hw
  · rw [hother w hw]
    exact h.sized w hw

/-- A chunk that fits is written behind what is there. -/
theorem writeChunk (h : Filling base s g ws (some c)) {chunk : Bytes}
    (hfits : (s.frame c.frame).payload.length + chunk.length ≤ c.size) :
    ∃ s', s.writeChunk c chunk = .ok s' ∧ Filling base s' g ws (some c) ∧
      (s'.frame c.frame).payload = (s.frame c.frame).payload ++ chunk ∧
      s'.payloads ws = s.payloads ws ∧ Confined base g.group s s' := by
  obtain ⟨hopen, hcount⟩ := h.writing c rfl
  let f := s.frame c.frame
  let f' : Frame := ⟨f.chunks ++ [chunk], f.written + chunk.length, none⟩
  have hwrite : f.write c.size chunk = .ok f' := by
    have hroom : f.written + chunk.length ≤ c.size := hcount.symm ▸ hfits
    unfold Frame.write
    rw [hopen]
    exact if_pos hroom
  have hpayload : f'.payload = f.payload ++ chunk := by
    show (f.chunks ++ [chunk]).flatten = _
    rw [List.flatten_append, List.flatten_singleton]
    rfl
  obtain ⟨hself, hpayloads, hclosed, hsized, hconfined⟩ := h.setFrame f'
  have hsize := s.size_setFrame c.frame f'
  refine ⟨s.setFrame c.frame f', ?_, ⟨?_, h.group_lt, h.group_eq, ?_, hclosed, ?_, hsized⟩, ?_,
    hpayloads, hconfined⟩
  · unfold Store.writeChunk
    rw [hwrite]
    rfl
  · exact hsize ▸ h.base_le
  · exact hsize ▸ h.frame_ids
  · intro c' hc
    obtain rfl := Option.some.inj hc
    rw [hself]
    refine ⟨rfl, ?_⟩
    rw [hpayload, List.length_append, ← hcount]
  · rw [hself]
    exact hpayload

/-- A frame that holds all its bytes is closed. -/
theorem closeFrame (h : Filling base s g ws (some c))
    (hfull : (s.frame c.frame).payload.length = c.size) :
    ∃ s', s.closeFrame c = .ok s' ∧ Filling base s' g (ws ++ [c]) none ∧
      s'.payloads (ws ++ [c]) = s.payloads ws ++ [(s.frame c.frame).payload] ∧
      Confined base g.group s s' := by
  obtain ⟨hopen, hcount⟩ := h.writing c rfl
  let f := s.frame c.frame
  let f' : Frame := { f with ending := some .complete }
  have hclose : f.close c.size = .ok f' := by
    unfold Frame.close
    rw [hopen]
    exact if_pos (hcount.trans hfull)
  obtain ⟨hself, hpayloads, hclosed, hsized, hconfined⟩ := h.setFrame f'
  have hsize := s.size_setFrame c.frame f'
  refine ⟨s.setFrame c.frame f', ?_, ⟨?_, h.group_lt, ?_, ?_, ?_, ?_, ?_⟩, ?_, hconfined⟩
  · unfold Store.closeFrame
    rw [hclose]
    rfl
  · exact hsize ▸ h.base_le
  · rw [Option.toList_none, List.append_nil]
    exact h.group_eq
  · rw [hsize, Option.toList_none, List.append_nil]
    exact h.frame_ids
  · intro w hw
    rcases List.mem_append.mp hw with hw | hw
    · exact hclosed w hw
    · obtain rfl := List.mem_singleton.mp hw
      rw [hself]
  · intro c' hc
    cases hc
  · intro w hw
    rcases List.mem_append.mp hw with hw | hw
    · exact hsized w hw
    · obtain rfl := List.mem_singleton.mp hw
      rw [hself]
      exact hfull
  · rw [payloads_append, hpayloads]
    show _ ++ [((s.setFrame c.frame f').frame c.frame).payload] = _
    rw [hself]
    rfl

/-- Chunks that fit are written one behind the other. -/
theorem writeChunks {chunks : List Bytes} (h : Filling base s g ws (some c))
    (hfits : (s.frame c.frame).payload.length + chunks.flatten.length ≤ c.size) :
    ∃ s', s.writeChunks c chunks = .ok s' ∧ Filling base s' g ws (some c) ∧
      (s'.frame c.frame).payload = (s.frame c.frame).payload ++ chunks.flatten ∧
      s'.payloads ws = s.payloads ws ∧ Confined base g.group s s' := by
  induction chunks generalizing s with
  | nil => exact ⟨s, rfl, h, (List.append_nil _).symm, rfl, .refl s⟩
  | cons chunk chunks ih =>
      rw [List.flatten_cons, List.length_append] at hfits
      have hroom : (s.frame c.frame).payload.length + chunk.length ≤ c.size := by omega
      obtain ⟨s₁, hwrite, h₁, hpayload, hpayloads, hconfined⟩ := h.writeChunk hroom
      have hroom₁ : (s₁.frame c.frame).payload.length + chunks.flatten.length ≤ c.size := by
        rw [hpayload, List.length_append]
        omega
      obtain ⟨s₂, hrest, h₂, hpayload₂, hpayloads₂, hconfined₂⟩ := ih h₁ hroom₁
      refine ⟨s₂, ?_, h₂, ?_, hpayloads₂.trans hpayloads, hconfined.trans hconfined₂⟩
      · rw [Store.writeChunks, hwrite]
        exact hrest
      · rw [hpayload₂, hpayload, List.append_assoc, List.flatten_cons]

/-- A whole frame is begun, written and closed. -/
theorem writeFrame (h : Filling base s g ws none) (chunks : List Bytes) :
    ∃ c s', s.writeFrame g chunks = .ok s' ∧ Filling base s' g (ws ++ [c]) none ∧
      s'.payloads (ws ++ [c]) = s.payloads ws ++ [chunks.flatten] ∧ Confined base g.group s s' := by
  obtain ⟨c, s₁, hcreate, h₁, hsize, hempty, hpayloads, hconfined⟩ := h.createFrame chunks.flatten.length
  have hfull : (s₁.frame c.frame).payload.length + chunks.flatten.length = c.size := by
    rw [hempty, hsize, List.length_nil, Nat.zero_add]
  obtain ⟨s₂, hwrite, h₂, hpayload, hpayloads₂, hconfined₂⟩ := h₁.writeChunks (Nat.le_of_eq hfull)
  rw [hempty, List.nil_append] at hpayload
  obtain ⟨s₃, hclose, h₃, hpayloads₃, hconfined₃⟩ := h₂.closeFrame (by rw [hpayload, hsize])
  refine ⟨c, s₃, ?_, h₃, ?_, (hconfined.trans hconfined₂).trans hconfined₃⟩
  · simp only [Store.writeFrame, hcreate, bind, Except.bind, hwrite]
    exact hclose
  · rw [hpayloads₃, hpayloads₂, hpayloads, hpayload]

-- ── ending ──────────────────────────────────────────────────────────

theorem closeGroup (h : Filling base s g ws none) :
    ∃ s', s.closeGroup g = .ok s' ∧ Complete s' g.group (s.payloads ws) ∧
      Confined base g.group s s' := by
  have hgroup : s.group g.group = ⟨ws, none⟩ := by
    rw [h.group_eq, Option.toList_none, List.append_nil]
  let s' := s.setGroup g.group ⟨ws, some .complete⟩
  have hself : s'.group g.group = ⟨ws, some .complete⟩ := s.group_setGroup_self h.group_lt _
  refine ⟨s', ?_, ⟨?_, ?_, ?_⟩, .setGroup _⟩
  · unfold Store.closeGroup
    rw [hgroup]
    rfl
  · rw [hself]
  · rw [hself]
    exact h.closed
  · rw [hself]
    rfl

/-- Whatever the state of the frame being written, aborting the group ends all of them. -/
theorem abort_of_ids {ws : List FrameWriter} (hlt : g.group < s.groups.size)
    (hgroup : (s.group g.group).frames = ws)
    (hids : ∀ w ∈ ws, base ≤ w.frame ∧ w.frame < s.frames.size) (e : TransportError) :
    Aborted (s.abortGroup e g) g.group ∧ Confined base g.group s (s.abortGroup e g) := by
  have hconfined := s.confined_abortFrames e g.group fun w hw => (hids w hw).1
  have hself : (s.abortGroup e g).group g.group = ⟨ws, some (.aborted e)⟩ := by
    rw [Store.abortGroup, hgroup, group_setGroup_self _ (hconfined.groups_size ▸ hlt),
      group_abortFrames, Group.abort, hgroup]
  refine ⟨⟨e, ?_, ?_⟩, ?_⟩
  · rw [hself]
  · rw [hself]
    intro w hw
    rw [Store.abortGroup, frame_setGroup, hgroup]
    exact s.ending_abortFrames e (hids w hw).2 (.inl ⟨w, hw, rfl⟩)
  · rw [Store.abortGroup, hgroup]
    exact hconfined.trans (.setGroup _)

theorem abortGroup (h : Filling base s g ws current) (e : TransportError) :
    Aborted (s.abortGroup e g) g.group ∧ Confined base g.group s (s.abortGroup e g) :=
  abort_of_ids h.group_lt (by rw [h.group_eq]) h.frame_ids e

/-- The frame being written is aborted first, and then the group. -/
theorem abortFrame (h : Filling base s g ws (some c)) (e : TransportError) :
    Aborted ((s.abortFrame e c).abortGroup e g) g.group ∧
      Confined base g.group s ((s.abortFrame e c).abortGroup e g) := by
  have hframes : ((s.abortFrame e c).group g.group).frames = ws ++ [c] := by
    show (s.group g.group).frames = _
    rw [h.group_eq]
    rfl
  have hsize : (s.abortFrame e c).frames.size = s.frames.size := s.size_setFrame _ _
  obtain ⟨haborted, hconfined⟩ := abort_of_ids (s := s.abortFrame e c) h.group_lt hframes
    (fun w hw => hsize ▸ h.frame_ids w hw) e
  have hfirst : Confined base g.group s (s.abortFrame e c) := .setFrame h.current_ids.1 _
  exact ⟨haborted, hfirst.trans hconfined⟩

end Filling

end Store

end LiveMedia.Live
