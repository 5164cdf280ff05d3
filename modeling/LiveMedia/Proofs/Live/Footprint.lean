import LiveMedia.Proofs.Live.Growth

/-!
# What an operation touches

An operation names at most one frame, one group and one track, and leaves all others as they are. There
is one way to reach a frame without naming it: aborting a group aborts the frames that it has
(`Operation.abortsFrame?`). Frames that the operation makes itself are new, so they are none of those
that there were.
-/

namespace LiveMedia.Live

open LiveMedia.Wire

variable {s s' : Store}

-- ── operations within a group ───────────────────────────────────────

namespace Store

/-- A frame that is begun is new, so it lies above all frames that there were. -/
theorem confined_createFrame {g : GroupWriter} {size : Nat} {w : FrameWriter}
    (h : s.createFrame g size = .ok (w, s')) : Confined s.frames.size g.group s s' := by
  obtain ⟨-, group, -, rfl⟩ := createFrame_eq_ok h
  exact (Confined.newFrame size).trans (.setGroup group)

theorem confined_writeChunk {base : FrameId} {g : GroupId} {w : FrameWriter} {chunk : Bytes}
    (hw : base ≤ w.frame) (h : s.writeChunk w chunk = .ok s') : Confined base g s s' := by
  obtain ⟨f, -, rfl⟩ := exists_of_map_eq_ok h
  exact .setFrame hw f

theorem confined_writeChunks {base : FrameId} {g : GroupId} {w : FrameWriter} {chunks : List Bytes}
    (hw : base ≤ w.frame) (h : s.writeChunks w chunks = .ok s') : Confined base g s s' :=
  writeChunks_induction (R := Confined base g) .refl (fun _ _ _ h h' => h.trans h')
    (fun _ _ _ hwrite => confined_writeChunk hw hwrite) h

/-- So does one that is written whole. -/
theorem confined_writeFrame {g : GroupWriter} {chunks : List Bytes}
    (h : s.writeFrame g chunks = .ok s') : Confined s.frames.size g.group s s' := by
  obtain ⟨w, begun, written, hcreate, hwrite, hclose⟩ := writeFrame_eq_ok h
  have hw : s.frames.size ≤ w.frame :=
    Nat.le_of_eq (congrArg FrameWriter.frame (createFrame_eq_ok hcreate).1).symm
  obtain ⟨f, -, rfl⟩ := exists_of_map_eq_ok hclose
  exact ((confined_createFrame hcreate).trans (confined_writeChunks hw hwrite)).trans (.setFrame hw f)

@[simp] theorem track_newTrack (info : TrackInfo) (i : TrackId) :
    (s.newTrack info).2.track i = s.track i := by
  show ((s.tracks.push .fresh)[i]?).getD .fresh = (s.tracks[i]?).getD .fresh
  rw [Array.getElem?_push]
  split
  · next h => simp [h]
  · rfl

@[simp] theorem track_setGroup (id : GroupId) (g : Group) (i : TrackId) :
    (s.setGroup id g).track i = s.track i := rfl

/-- Aborting frames does not touch the tracks. -/
theorem track_abortFrames (e : TransportError) (ws : List FrameWriter) (i : TrackId) :
    (ws.foldl (fun s w => s.abortFrame e w) s).track i = s.track i := by
  induction ws generalizing s with
  | nil => rfl
  | cons w ws ih => exact ih

/-- Frames that are aborted one after the other: each of them is, and no other. -/
theorem frame_abortFrames (e : TransportError) (ws : List FrameWriter) {i : FrameId}
    (hi : i < s.frames.size) : (ws.foldl (fun s w => s.abortFrame e w) s).frame i =
      if ws.any (fun w => w.frame == i) then (s.frame i).abort e else s.frame i := by
  induction ws generalizing s with
  | nil => rfl
  | cons w ws ih =>
      have hsize : (s.abortFrame e w).frames.size = s.frames.size := s.size_setFrame _ _
      show (ws.foldl _ (s.abortFrame e w)).frame i = _
      rw [ih (hsize ▸ hi), List.any_cons]
      by_cases hw : w.frame = i
      · subst hw
        have hself : (s.abortFrame e w).frame w.frame = (s.frame w.frame).abort e :=
          s.frame_setFrame_self hi _
        rw [hself, beq_self_eq_true, Bool.true_or, if_pos rfl]
        split <;> rfl
      · have hother : (s.abortFrame e w).frame i = s.frame i :=
          s.frame_setFrame_of_ne (Ne.symm hw) _
        rw [hother, beq_eq_false_iff_ne.mpr hw, Bool.false_or]

end Store

-- ── what an operation names ─────────────────────────────────────────

namespace Operation

/-- The frame that an operation names. -/
def frame? : Operation → Option FrameId
  | .writeChunk w _ => some w.frame
  | .closeFrame w => some w.frame
  | .abortFrame _ w => some w.frame
  | _ => none

/-- The group that an operation names. -/
def group? : Operation → Option GroupId
  | .appendFrame g _ => some g.group
  | .createFrame g _ => some g.group
  | .writeFrame g _ => some g.group
  | .closeGroup g => some g.group
  | .abortGroup _ g => some g.group
  | _ => none

/-- The track that an operation names. -/
def track? : Operation → Option TrackId
  | .createGroup t _ => some t.track
  | .closeTrack t => some t.track
  | .abortTrack _ t => some t.track
  | _ => none

/-- The error that an operation aborts a frame with: the frame itself, or a group that has it. -/
def abortsFrame? (s : Store) (id : FrameId) : Operation → Option TransportError
  | .abortFrame e w => if w.frame = id then some e else none
  | .abortGroup e g => if (s.group g.group).frames.any (fun w => w.frame == id) then some e else none
  | _ => none

/-- The error that an operation aborts a group with. -/
def abortsGroup? (id : GroupId) : Operation → Option TransportError
  | .abortGroup e g => if g.group = id then some e else none
  | _ => none

/-- The error that an operation aborts a track with. -/
def abortsTrack? (id : TrackId) : Operation → Option TransportError
  | .abortTrack e t => if t.track = id then some e else none
  | _ => none

/-- The stores agree on everything that the operation does not name. -/
structure Leaves (op : Operation) (s s' : Store) : Prop where
  frame : ∀ id < s.frames.size, op.frame? ≠ some id → op.abortsFrame? s id = none →
    s'.frame id = s.frame id
  group : ∀ id, op.group? ≠ some id → s'.group id = s.group id
  track : ∀ id, op.track? ≠ some id → s'.track id = s.track id

namespace Leaves

variable {op : Operation}

theorem refl (op : Operation) (s : Store) : op.Leaves s s :=
  ⟨fun _ _ _ _ => rfl, fun _ _ => rfl, fun _ _ => rfl⟩

theorem setFrame {w : FrameWriter} (h : op.frame? = some w.frame) (f : Frame) :
    op.Leaves s (s.setFrame w.frame f) where
  frame id _ hname _ := s.frame_setFrame_of_ne (fun heq : id = w.frame => hname (heq ▸ h)) f
  group _ _ := rfl
  track _ _ := rfl

theorem setGroup {g : GroupWriter} (h : op.group? = some g.group) (x : Group) :
    op.Leaves s (s.setGroup g.group x) where
  frame _ _ _ _ := rfl
  group id hname := s.group_setGroup_of_ne (fun heq : id = g.group => hname (heq ▸ h)) x
  track _ _ := rfl

theorem setTrack {t : TrackWriter} (h : op.track? = some t.track) (x : Track) :
    op.Leaves s (s.setTrack t.track x) where
  frame _ _ _ _ := rfl
  group _ _ := rfl
  track id hname := s.track_setTrack_of_ne (fun heq : id = t.track => hname (heq ▸ h)) x

/-- New frames and one group. -/
theorem confined {g : GroupId} (h : op.group? = some g)
    (hs : Store.Confined s.frames.size g s s') : op.Leaves s s' where
  frame id hid _ _ := hs.frames id hid
  group id hname := hs.groups id fun heq => hname (heq ▸ h)
  track id _ := by
    rw [Store.track, hs.tracks]
    rfl

theorem settled {α : Type} {x : Except TransportError α} {set : α → Store}
    (h : ∀ a, x = .ok a → op.Leaves s (set a)) : op.Leaves s (settled s (x.map set)) :=
  settled_map_induction (.refl op s) h

/-- An abort of a group aborts its frames first, and these are the ones that it had. -/
theorem abortGroup (e : TransportError) (g : GroupWriter) :
    (Operation.abortGroup e g).Leaves s (s.abortGroup e g) where
  frame id hid _ habort := by
    have hnot : ¬ (s.group g.group).frames.any (fun w => w.frame == id) = true := fun hany => by
      rw [abortsFrame?, if_pos hany] at habort
      cases habort
    rw [Store.abortGroup, Store.frame_setGroup, Store.frame_abortFrames e _ hid, if_neg hnot]
  group id hname := by
    rw [Store.abortGroup, Store.group_setGroup_of_ne _ (fun heq => hname (congrArg some heq.symm)),
      Store.group_abortFrames]
  track id _ := by
    show (Store.setGroup _ _ _).track id = _
    rw [Store.track_setGroup, Store.track_abortFrames]

end Leaves

/-- **An operation leaves alone what it does not name.** -/
theorem leaves (op : Operation) (s : Store) : op.Leaves s (op.perform s) := by
  cases op with
  | newFrame size =>
      exact ⟨fun id _ _ _ => s.frame_newFrame size id, fun _ _ => rfl, fun _ _ => rfl⟩
  | writeChunk w chunk => exact .settled fun f _ => .setFrame rfl f
  | closeFrame w => exact .settled fun f _ => .setFrame rfl f
  | abortFrame e w => exact .setFrame rfl _
  | newGroup sequence =>
      exact ⟨fun _ _ _ _ => rfl, fun id _ => s.group_newGroup sequence id, fun _ _ => rfl⟩
  | appendFrame g w => exact .settled fun x _ => .setGroup rfl x
  | createFrame g size =>
      exact .settled fun made hmade => .confined rfl (Store.confined_createFrame (w := made.1) hmade)
  | writeFrame g chunks =>
      exact settled_induction (.refl _ s) fun s' h => .confined rfl (Store.confined_writeFrame h)
  | closeGroup g => exact .settled fun x _ => .setGroup rfl x
  | abortGroup e g => exact .abortGroup e g
  | newTrack info =>
      exact ⟨fun _ _ _ _ => rfl, fun _ _ => rfl, fun id _ => s.track_newTrack info id⟩
  | createGroup t sequence =>
      refine .settled fun made hmade => ?_
      rw [(Store.createGroup_eq_ok (g := made.1) hmade).2]
      exact ⟨fun _ _ _ _ => rfl, fun id _ => s.group_newGroup sequence id,
        fun id hname => Store.track_setTrack_of_ne _ (fun heq => hname (congrArg some heq.symm)) _⟩
  | closeTrack t => exact .settled fun x _ => .setTrack rfl x
  | abortTrack e t => exact .setTrack rfl _

end Operation

end LiveMedia.Live
