import LiveMedia.Proofs.Live.Filling
import LiveMedia.Proofs.Live.Footprint

/-!
# Groups that are in one hand

Many hands work on one store. What one of them makes is safe from the others as long as nobody else names
it, and frames need some care: whoever aborts a group aborts the frames in it, and a frame may be put into
several groups. `Store.Owned` lists groups whose frames are in no other group. It is kept by every operation
that leaves the frames of these groups where they are (`Operation.Respects`), and then an operation that
names neither the group nor a frame of it leaves all of the group as it is (`Store.Owned.spares`).

`Store.Served` is the other side: what one hand does that works on a single group.
-/

namespace LiveMedia.Live

open LiveMedia.Wire

-- ── a group that is left alone ──────────────────────────────────────

namespace Store

/-- The group and its frames are as they were. -/
structure Spares (g : GroupId) (s s' : Store) : Prop where
  group : s'.group g = s.group g
  frame : ∀ w ∈ (s.group g).frames, s'.frame w.frame = s.frame w.frame
  frames_le : s.frames.size ≤ s'.frames.size
  groups_le : s.groups.size ≤ s'.groups.size

namespace Spares

variable {s s' s'' : Store} {g : GroupId}

theorem refl (g : GroupId) (s : Store) : Spares g s s :=
  ⟨rfl, fun _ _ => rfl, Nat.le_refl _, Nat.le_refl _⟩

theorem trans (h : Spares g s s') (h' : Spares g s' s'') : Spares g s s'' where
  group := h'.group.trans h.group
  frame w hw := (h'.frame w (h.group ▸ hw)).trans (h.frame w hw)
  frames_le := Nat.le_trans h.frames_le h'.frames_le
  groups_le := Nat.le_trans h.groups_le h'.groups_le

theorem payloads_eq (h : Spares g s s') {ws : List FrameWriter} (hws : ws ⊆ (s.group g).frames) :
    s'.payloads ws = s.payloads ws :=
  payloads_congr fun w hw => h.frame w (hws hw)

theorem complete (h : Spares g s s') {payloads : List Bytes} (hc : s.Complete g payloads) :
    s'.Complete g payloads := hc.congr h.group h.frame

theorem aborted (h : Spares g s s') (ha : s.Aborted g) : s'.Aborted g := by
  obtain ⟨e, hending, hframes⟩ := ha
  refine ⟨e, ?_, fun w hw => ?_⟩
  · rw [h.group]
    exact hending
  · rw [h.group] at hw
    rw [h.frame w hw]
    exact hframes w hw

theorem filling {w : GroupWriter} {base : FrameId} {ws : List FrameWriter}
    {current : Option FrameWriter} (h : Spares w.group s s')
    (hf : Filling base s w ws current) : Filling base s' w ws current := by
  have hmem : ∀ {f}, f ∈ ws ++ current.toList → f ∈ (s.group w.group).frames := by
    intro f hf'
    rw [hf.group_eq]
    exact hf'
  refine ⟨Nat.le_trans hf.base_le h.frames_le, Nat.lt_of_lt_of_le hf.group_lt h.groups_le, ?_, ?_, ?_, ?_, ?_⟩
  · rw [h.group]
    exact hf.group_eq
  · intro f hf'
    obtain ⟨hlow, hlt⟩ := hf.frame_ids f hf'
    exact ⟨hlow, Nat.lt_of_lt_of_le hlt h.frames_le⟩
  · intro f hf'
    rw [h.frame f (hmem (List.mem_append_left _ hf'))]
    exact hf.closed f hf'
  · rintro c rfl
    rw [h.frame c (hmem (List.mem_append_right _ List.mem_cons_self))]
    exact hf.writing c rfl
  · intro f hf'
    rw [h.frame f (hmem (List.mem_append_left _ hf'))]
    exact hf.sized f hf'

end Spares

-- ── frames of one's own ─────────────────────────────────────────────

/-- The groups in the list share no frame with any other group. -/
structure Owned (s : Store) (gs : List GroupId) : Prop where
  /-- Only frames that were made are in groups. -/
  listed : ∀ h, ∀ w ∈ (s.group h).frames, w.frame < s.frames.size
  known : ∀ g ∈ gs, g < s.groups.size
  apart : ∀ g ∈ gs, ∀ h ≠ g, ∀ w ∈ (s.group g).frames, ∀ w' ∈ (s.group h).frames, w.frame ≠ w'.frame

end Store

-- ── what an operation adds ──────────────────────────────────────────

theorem Group.frames_append {g x : Group} {w : FrameWriter} (h : g.append w = .ok x) :
    x.frames = g.frames ++ [w] := by
  unfold Group.append at h
  split at h
  · cases h
  · obtain rfl := Except.ok.inj h
    rfl

namespace Operation

/-- The frame that an operation writes or puts into a group. -/
def reaches? : Operation → Option FrameId
  | .appendFrame _ w => some w.frame
  | op => op.frame?

theorem reaches_of_frame {op : Operation} {id : FrameId} (h : op.frame? = some id) :
    op.reaches? = some id := by
  cases op with
  | appendFrame g w => cases h
  | _ => exact h

/-- The store has not become smaller, and a frame that is new in a group is there because the operation
    named the group and named or made the frame. -/
structure Adds (op : Operation) (s s' : Store) : Prop where
  frames_le : s.frames.size ≤ s'.frames.size
  groups_le : s.groups.size ≤ s'.groups.size
  tracks_le : s.tracks.size ≤ s'.tracks.size
  lists : ∀ h, ∀ w ∈ (s'.group h).frames, w ∈ (s.group h).frames ∨ op.group? = some h ∧
    (op.reaches? = some w.frame ∨ s.frames.size ≤ w.frame ∧ w.frame < s'.frames.size)

namespace Adds

variable {op : Operation} {s s' s'' : Store}

theorem refl (op : Operation) (s : Store) : op.Adds s s :=
  ⟨Nat.le_refl _, Nat.le_refl _, Nat.le_refl _, fun _ _ hw => .inl hw⟩

theorem trans (h : op.Adds s s') (h' : op.Adds s' s'') : op.Adds s s'' where
  frames_le := Nat.le_trans h.frames_le h'.frames_le
  groups_le := Nat.le_trans h.groups_le h'.groups_le
  tracks_le := Nat.le_trans h.tracks_le h'.tracks_le
  lists i w hw := by
    rcases h'.lists i w hw with hw | ⟨hgroup, hreach | ⟨hlow, hlt⟩⟩
    · rcases h.lists i w hw with hw | ⟨hgroup, hreach | ⟨hlow, hlt⟩⟩
      · exact .inl hw
      · exact .inr ⟨hgroup, .inl hreach⟩
      · exact .inr ⟨hgroup, .inr ⟨hlow, Nat.lt_of_lt_of_le hlt h'.frames_le⟩⟩
    · exact .inr ⟨hgroup, .inl hreach⟩
    · exact .inr ⟨hgroup, .inr ⟨Nat.le_trans h.frames_le hlow, hlt⟩⟩

theorem setFrame (id : FrameId) (f : Frame) : op.Adds s (s.setFrame id f) :=
  ⟨Nat.le_of_eq (s.size_setFrame id f).symm, Nat.le_refl _, Nat.le_refl _, fun _ _ hw => .inl hw⟩

theorem setTrack (id : TrackId) (t : Track) : op.Adds s (s.setTrack id t) :=
  ⟨Nat.le_refl _, Nat.le_refl _, Nat.le_of_eq Array.size_setIfInBounds.symm, fun _ _ hw => .inl hw⟩

/-- A group is set to one whose new frames the operation named. -/
theorem setGroup {g : GroupId} {x : Group} (h : ∀ w ∈ x.frames, w ∈ (s.group g).frames ∨
    op.group? = some g ∧ op.reaches? = some w.frame) : op.Adds s (s.setGroup g x) where
  frames_le := Nat.le_refl _
  groups_le := Nat.le_of_eq (s.size_setGroup g x).symm
  tracks_le := Nat.le_refl _
  lists i w hw := by
    by_cases hi : i = g
    · subst hi
      by_cases hlt : i < s.groups.size
      · rw [s.group_setGroup_self hlt] at hw
        exact (h w hw).imp_right fun ⟨hgroup, hreach⟩ => ⟨hgroup, .inl hreach⟩
      · -- there is no such group, and nothing is set
        have hsize : s.groups.size ≤ i := Nat.le_of_not_lt hlt
        rw [Store.group_of_size_le _ ((s.size_setGroup i x).symm ▸ hsize)] at hw
        exact absurd hw List.not_mem_nil
    · rw [s.group_setGroup_of_ne hi] at hw
      exact .inl hw

theorem newFrame (size : Nat) : op.Adds s (s.newFrame size).2 :=
  ⟨(s.size_newFrame size).symm ▸ Nat.le_succ _, Nat.le_refl _, Nat.le_refl _, fun _ _ hw => .inl hw⟩

theorem newGroup (sequence : Nat) : op.Adds s (s.newGroup sequence).2 where
  frames_le := Nat.le_refl _
  groups_le := (s.size_newGroup sequence).symm ▸ Nat.le_succ _
  tracks_le := Nat.le_refl _
  lists i w hw := by
    rw [s.group_newGroup] at hw
    exact .inl hw

theorem settled {α : Type} {x : Except TransportError α} {set : α → Store}
    (h : ∀ a, x = .ok a → op.Adds s (set a)) : op.Adds s (settled s (x.map set)) :=
  settled_map_induction (.refl op s) h

theorem abortFrames (e : TransportError) (ws : List FrameWriter) :
    op.Adds s (ws.foldl (fun s w => s.abortFrame e w) s) := by
  induction ws generalizing s with
  | nil => exact .refl op s
  | cons w ws ih => exact (setFrame w.frame _).trans ih

/-- The frame that is made is put into the group. -/
theorem createFrame {g : GroupWriter} {size : Nat} {w : FrameWriter} (hop : op.group? = some g.group)
    (h : s.createFrame g size = .ok (w, s')) : op.Adds s s' := by
  obtain ⟨rfl, group, hgroup, rfl⟩ := Store.createFrame_eq_ok h
  have hframes := Group.frames_append hgroup
  refine ⟨?_, ?_, Nat.le_refl _, fun i w hw => ?_⟩
  · exact (s.size_newFrame size).symm ▸ Nat.le_succ _
  · exact Nat.le_of_eq ((s.newFrame size).2.size_setGroup g.group group).symm
  · by_cases hi : i = g.group
    · subst hi
      by_cases hlt : g.group < s.groups.size
      · rw [(s.newFrame size).2.group_setGroup_self hlt, hframes] at hw
        rcases List.mem_append.mp hw with hw | hw
        · exact .inl hw
        · obtain rfl := List.mem_singleton.mp hw
          refine .inr ⟨hop, .inr ⟨Nat.le_refl _, ?_⟩⟩
          show s.frames.size < ((s.newFrame size).2).frames.size
          rw [s.size_newFrame]
          exact Nat.lt_succ_self _
      · have hsize : ((s.newFrame size).2.setGroup g.group group).groups.size ≤ g.group := by
          rw [Store.size_setGroup]
          exact Nat.le_of_not_lt hlt
        rw [Store.group_of_size_le _ hsize] at hw
        exact absurd hw List.not_mem_nil
    · rw [(s.newFrame size).2.group_setGroup_of_ne hi] at hw
      exact .inl hw

theorem writeChunks {w : FrameWriter} {chunks : List Bytes}
    (h : s.writeChunks w chunks = .ok s') : op.Adds s s' := by
  refine Store.writeChunks_induction (R := op.Adds) (.refl op) (fun _ _ _ h h' => h.trans h')
    (fun s _ _ hwrite => ?_) h
  obtain ⟨f, -, rfl⟩ := exists_of_map_eq_ok hwrite
  exact setFrame _ f

end Adds

/-- **What an operation adds, it names or makes.** -/
theorem adds (op : Operation) (s : Store) : op.Adds s (op.perform s) := by
  cases op with
  | newFrame size => exact .newFrame size
  | writeChunk w chunk => exact .settled fun f _ => .setFrame _ f
  | closeFrame w => exact .settled fun f _ => .setFrame _ f
  | abortFrame e w => exact .setFrame _ _
  | newGroup sequence => exact .newGroup sequence
  | appendFrame g w =>
      refine .settled fun x hx => .setGroup fun w' hw' => ?_
      rw [Group.frames_append hx] at hw'
      refine (List.mem_append.mp hw').imp_right fun hw' => ?_
      obtain rfl := List.mem_singleton.mp hw'
      exact ⟨rfl, rfl⟩
  | createFrame g size => exact .settled fun made hmade => .createFrame (w := made.1) rfl hmade
  | writeFrame g chunks =>
      refine settled_induction (.refl _ s) fun s' h => ?_
      obtain ⟨w, begun, written, hcreate, hwrite, hclose⟩ := Store.writeFrame_eq_ok h
      obtain ⟨f, -, rfl⟩ := exists_of_map_eq_ok hclose
      exact ((Adds.createFrame rfl hcreate).trans (.writeChunks hwrite)).trans (.setFrame _ f)
  | closeGroup g =>
      refine .settled fun x hx => .setGroup fun w hw => .inl ?_
      unfold Group.close at hx
      split at hx
      · cases hx
      · obtain rfl := Except.ok.inj hx
        exact hw
  | abortGroup e g =>
      refine (Adds.abortFrames e _).trans (.setGroup fun w hw => .inl ?_)
      rw [Store.group_abortFrames] at hw ⊢
      exact hw
  | newTrack info =>
      refine ⟨Nat.le_refl _, Nat.le_refl _, ?_, fun _ _ hw => .inl hw⟩
      show s.tracks.size ≤ (s.tracks.push .fresh).size
      rw [Array.size_push]
      exact Nat.le_succ _
  | createGroup t sequence =>
      refine .settled fun made hmade => ?_
      rw [(Store.createGroup_eq_ok (g := made.1) hmade).2]
      exact (Adds.newGroup sequence).trans (.setTrack _ _)
  | closeTrack t => exact .settled fun x _ => .setTrack _ x
  | abortTrack e t => exact .setTrack _ _

end Operation

-- ── operations of other hands ───────────────────────────────────────

namespace Operation

/-- The operation names neither the group nor a frame in it. -/
structure Avoids (op : Operation) (s : Store) (g : GroupId) : Prop where
  group : op.group? ≠ some g
  frame : ∀ w ∈ (s.group g).frames, op.reaches? ≠ some w.frame

/-- The operation names a frame that was made, and puts no frame into one of the groups or out of it. -/
structure Respects (op : Operation) (s : Store) (gs : List GroupId) : Prop where
  made : ∀ id, op.reaches? = some id → id < s.frames.size
  home : ∀ id h, op.reaches? = some id → op.group? = some h → ∀ g ∈ gs,
    (∃ w ∈ (s.group g).frames, w.frame = id) ↔ h = g

/-- The operation is one of another hand: it names none of the groups and no frame in them, and a frame
    that it names was made. -/
structure Elsewhere (op : Operation) (s : Store) (gs : List GroupId) : Prop where
  avoids : ∀ g ∈ gs, op.Avoids s g
  made : ∀ id, op.reaches? = some id → id < s.frames.size

section

variable (op : Operation) (s : Store)

instance (g : GroupId) : Decidable (op.Avoids s g) :=
  decidable_of_iff (op.group? ≠ some g ∧ ∀ w ∈ (s.group g).frames, op.reaches? ≠ some w.frame)
    ⟨fun h => ⟨h.1, h.2⟩, fun h => ⟨h.group, h.frame⟩⟩

instance (gs : List GroupId) : Decidable (op.Elsewhere s gs) :=
  decidable_of_iff ((∀ g ∈ gs, op.Avoids s g) ∧ ∀ id ∈ op.reaches?, id < s.frames.size)
    ⟨fun h => ⟨h.1, h.2⟩, fun h => ⟨h.avoids, h.made⟩⟩

end

namespace Elsewhere

variable {op : Operation} {s : Store} {gs : List GroupId}

theorem respects (h : op.Elsewhere s gs) : op.Respects s gs where
  made := h.made
  home id i hid hi g hg := by
    have havoids := h.avoids g hg
    refine ⟨fun ⟨w, hw, heq⟩ => absurd (heq ▸ hid) (havoids.frame w hw), fun heq => ?_⟩
    exact absurd (heq ▸ hi) havoids.group

/-- An operation on a track. -/
theorem of_track (op : Operation) (hgroup : op.group? = none) (hreach : op.reaches? = none) :
    op.Elsewhere s gs := by
  refine ⟨fun g _ => ⟨?_, fun w _ => ?_⟩, fun id hid => ?_⟩
  · rw [hgroup]
    exact (Option.some_ne_none g).symm
  · rw [hreach]
    exact (Option.some_ne_none _).symm
  · rw [hreach] at hid
    cases hid

end Elsewhere

/-- The operation works on the group and the frames in it, if it works on a group or a frame that
    exists. -/
structure Serves (op : Operation) (s : Store) (g : GroupId) : Prop where
  group : ∀ h, op.group? = some h → h = g
  frame : ∀ id, op.reaches? = some id → ∃ w ∈ (s.group g).frames, w.frame = id
  track : op.track? = none

namespace Serves

variable {op : Operation} {s : Store} {g : GroupId}

/-- An operation on the group itself. -/
theorem of_group (hgroup : op.group? = some g) (hreach : op.reaches? = none)
    (htrack : op.track? = none) : op.Serves s g where
  group i hi := Option.some.inj (hi.symm.trans hgroup)
  frame id hid := by
    rw [hreach] at hid
    cases hid
  track := htrack

/-- An operation on a frame of the group. -/
theorem of_frame {w : FrameWriter} (hw : w ∈ (s.group g).frames) (hgroup : op.group? = none)
    (hreach : op.reaches? = some w.frame) (htrack : op.track? = none) : op.Serves s g where
  group i hi := by
    rw [hgroup] at hi
    cases hi
  frame id hid := ⟨w, hw, Option.some.inj (hreach.symm.trans hid)⟩
  track := htrack

end Serves

end Operation

namespace Store

variable {s s' : Store} {gs : List GroupId} {g : GroupId} {op : Operation}

namespace Owned

/-- **An operation that respects the groups leaves their frames to them.** -/
theorem perform (h : s.Owned gs) (hop : op.Respects s gs) : (op.perform s).Owned gs := by
  have hadds := op.adds s
  refine ⟨fun i w hw => ?_, fun i hi => Nat.lt_of_lt_of_le (h.known i hi) hadds.groups_le, ?_⟩
  · rcases hadds.lists i w hw with hw | ⟨-, hreach | ⟨-, hlt⟩⟩
    · exact Nat.lt_of_lt_of_le (h.listed i w hw) hadds.frames_le
    · exact Nat.lt_of_lt_of_le (hop.made _ hreach) hadds.frames_le
    · exact hlt
  · intro g hg i hi w hw w' hw' heq
    rcases hadds.lists g w hw with hw | ⟨hgroup, hnew⟩
    · rcases hadds.lists i w' hw' with hw' | ⟨hgroup, hreach | ⟨hlow, -⟩⟩
      · exact h.apart g hg i hi w hw w' hw' heq
      · -- the other group was given a frame of this one
        exact hi ((hop.home _ i hreach hgroup g hg).mp ⟨w, hw, heq⟩)
      · exact absurd (h.listed g w hw) (Nat.not_lt.mpr (heq ▸ hlow))
    · rcases hadds.lists i w' hw' with hw' | ⟨hgroup', -⟩
      · rcases hnew with hreach | ⟨hlow, -⟩
        · -- the frame was in this group before
          obtain ⟨v, hv, hframe⟩ := (hop.home _ g hreach hgroup g hg).mpr rfl
          exact h.apart g hg i hi v hv w' hw' (hframe.trans heq)
        · exact absurd (h.listed i w' hw') (Nat.not_lt.mpr (heq ▸ hlow))
      · exact hi (Option.some.inj (hgroup'.symm.trans hgroup))

/-- An operation of another hand leaves a group alone. -/
theorem spares (h : s.Owned gs) (hg : g ∈ gs) (hop : op.Avoids s g) : Spares g s (op.perform s) := by
  have hleaves := op.leaves s
  have hadds := op.adds s
  refine ⟨hleaves.group g hop.group, fun w hw => ?_, hadds.frames_le, hadds.groups_le⟩
  refine hleaves.frame w.frame (h.listed g w hw) (fun heq => ?_) ?_
  · exact hop.frame w hw (Operation.reaches_of_frame heq)
  · -- whoever aborts the frame names it, or a group that has it
    unfold Operation.abortsFrame?
    split
    · next e w' =>
      refine if_neg fun heq => hop.frame w hw ?_
      rw [← heq]
      rfl
    · next e g' =>
      refine if_neg fun hany => ?_
      obtain ⟨w', hw', heq⟩ := List.any_eq_true.mp hany
      have hne : g'.group ≠ g := fun heq => hop.group (congrArg some heq)
      exact h.apart g hg g'.group hne w hw w' hw' (beq_iff_eq.mp heq).symm
    · rfl

/-- **An operation of another hand leaves all of the groups alone.** -/
theorem elsewhere (h : s.Owned gs) (hop : op.Elsewhere s gs) :
    (op.perform s).Owned gs ∧ ∀ g ∈ gs, Spares g s (op.perform s) :=
  ⟨h.perform hop.respects, fun g hg => h.spares hg (hop.avoids g hg)⟩

/-- What serves one of the groups respects them all. -/
theorem respects (h : s.Owned gs) (hg : g ∈ gs) (hop : op.Serves s g) : op.Respects s gs where
  made id hid := by
    obtain ⟨w, hw, rfl⟩ := hop.frame id hid
    exact h.listed g w hw
  home id i hid hi g' hg' := by
    obtain ⟨w, hw, rfl⟩ := hop.frame id hid
    obtain rfl := hop.group i hi
    refine ⟨fun ⟨v, hv, heq⟩ => ?_, fun heq => ?_⟩
    · by_cases hne : i = g'
      · exact hne
      · exact absurd heq (h.apart g' hg' i hne v hv w hw)
    · subst heq
      exact ⟨w, hw, rfl⟩

/-- What serves one of the groups avoids the others. -/
theorem avoids {g' : GroupId} (h : s.Owned gs) (hg' : g' ∈ gs) (hne : g' ≠ g)
    (hop : op.Serves s g) : op.Avoids s g' where
  group heq := hne (hop.group g' heq)
  frame w hw hreach := by
    obtain ⟨v, hv, heq⟩ := hop.frame _ hreach
    exact h.apart g' hg' g hne.symm w hw v hv heq.symm

/-- A group that is made on a track has no frames yet. -/
theorem createGroup {t : TrackWriter} {sequence : Nat} {w : GroupWriter} (h : s.Owned gs)
    (hmade : s.createGroup t sequence = .ok (w, s')) : s'.Owned (gs ++ [w.group]) := by
  obtain ⟨rfl, rfl⟩ := createGroup_eq_ok hmade
  have hgroup : ∀ i track, ((s.newGroup sequence).2.setTrack t.track track).group i = s.group i :=
    fun i _ => s.group_newGroup sequence i
  have hempty : ∀ w, w ∉ (s.group s.groups.size).frames := by
    rw [s.group_of_size_le (Nat.le_refl _)]
    exact fun _ => List.not_mem_nil
  refine ⟨fun i w hw => ?_, fun i hi => ?_, ?_⟩
  · rw [hgroup] at hw
    exact h.listed i w hw
  · show i < (s.newGroup sequence).2.groups.size
    rw [s.size_newGroup]
    rcases List.mem_append.mp hi with hi | hi
    · exact Nat.lt_succ_of_lt (h.known i hi)
    · obtain rfl := List.mem_singleton.mp hi
      exact Nat.lt_succ_self _
  · intro g hg i hi w hw w' hw'
    rw [hgroup] at hw hw'
    rcases List.mem_append.mp hg with hg | hg
    · exact h.apart g hg i hi w hw w' hw'
    · obtain rfl := List.mem_singleton.mp hg
      exact absurd hw (hempty w)

end Owned

-- ── one hand at work ────────────────────────────────────────────────

/-- The store after operations that serve one group. -/
inductive Served (g : GroupId) (s : Store) : Store → Prop where
  | refl : Served g s s
  | step {s' : Store} {op : Operation} : Served g s s' → op.Serves s' g → Served g s (op.perform s')

namespace Served

/-- One operation that succeeds. -/
theorem single (op : Operation) (hop : op.Serves s g) (h : op.perform s = s') : Served g s s' :=
  h ▸ .step .refl hop

theorem trans {s'' : Store} (h : Served g s s') (h' : Served g s' s'') : Served g s s'' := by
  induction h' with
  | refl => exact h
  | step _ hop ih => exact .step ih hop

theorem grows (h : Served g s s') : s.Grows s' := by
  induction h with
  | refl => exact .refl s
  | @step s' op _ _ ih => exact ih.trans (op.grows s')

theorem track (h : Served g s s') (t : TrackId) : s'.track t = s.track t := by
  induction h with
  | refl => rfl
  | @step s' op _ hop ih =>
      have hnone : op.track? ≠ some t := by
        rw [hop.track]
        exact Option.some_ne_none t |>.symm
      rw [(op.leaves s').track t hnone, ih]

theorem tracks_le (h : Served g s s') : s.tracks.size ≤ s'.tracks.size := by
  induction h with
  | refl => exact Nat.le_refl _
  | @step s' op _ _ ih => exact Nat.le_trans ih (op.adds s').tracks_le

/-- **A hand that works on one of the groups leaves the others alone.** -/
theorem owned (h : Served g s s') (howned : s.Owned gs) (hg : g ∈ gs) :
    s'.Owned gs ∧ ∀ g' ∈ gs, g' ≠ g → Spares g' s s' := by
  induction h with
  | refl => exact ⟨howned, fun g' _ _ => .refl g' s⟩
  | @step s' op _ hop ih =>
      obtain ⟨hafter, hspares⟩ := ih
      refine ⟨hafter.perform (hafter.respects hg hop), fun g' hg' hne => ?_⟩
      exact (hspares g' hg' hne).trans (hafter.spares hg' (hafter.avoids hg' hne hop))

end Served

end Store

end LiveMedia.Live
