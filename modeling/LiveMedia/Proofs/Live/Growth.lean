import LiveMedia.Live.Holding
import LiveMedia.Proofs.Live.Store

/-!
# What was written stays

Writers only add. The chunks of a frame and the frames of a group are lists that grow at their end until
they have ended; from then on the list is fixed, and all that can still happen to a list that was closed
is that it is aborted. `Extends` says so of one list, `Store.Grows` of everything in a store, and every
operation of a publisher makes the store grow (`Operation.grows`). So a reader that stands somewhere in a
list finds the same things there whenever it looks; `Looks` is what it is told.
-/

namespace LiveMedia.Live

open LiveMedia.Wire

-- ── lists that end ──────────────────────────────────────────────────

section Lists

variable {α : Type} {xs ys zs : List α} {e e' e'' : Option Ending}

/-- The list `xs` that had ended as `e` says may be the list `ys` with the end `e'` later. -/
structure Extends (xs : List α) (e : Option Ending) (ys : List α) (e' : Option Ending) : Prop where
  front : xs <+: ys
  frozen : e ≠ none → ys = xs
  ended : e ≠ none → e' ≠ none
  /-- What was aborted is not closed any more. -/
  complete : e' = some .complete → e ≠ none → e = some .complete

namespace Extends

theorem refl (xs : List α) (e : Option Ending) : Extends xs e xs e :=
  ⟨List.prefix_refl xs, fun _ => rfl, id, fun h _ => h⟩

theorem trans (h : Extends xs e ys e') (h' : Extends ys e' zs e'') : Extends xs e zs e'' where
  front := h.front.trans h'.front
  frozen he := (h'.frozen (h.ended he)).trans (h.frozen he)
  ended he := h'.ended (h.ended he)
  complete he'' he := h.complete (h'.complete he'' (h.ended he)) he

/-- Something is added at the end of a list that is open. -/
theorem append (xs ys : List α) : Extends xs none (xs ++ ys) none :=
  ⟨List.prefix_append xs ys, fun h => absurd rfl h, id, fun _ h => absurd rfl h⟩

/-- An open list is closed as it is. -/
theorem close (xs : List α) : Extends xs none xs (some .complete) :=
  ⟨List.prefix_refl xs, fun _ => rfl, fun h => absurd rfl h, fun _ h => absurd rfl h⟩

/-- A list is aborted as it is, whether it has ended or not. -/
theorem abort (xs : List α) (e : Option Ending) (err : TransportError) :
    Extends xs e xs (some (.aborted err)) :=
  ⟨List.prefix_refl xs, fun _ => rfl, (fun _ h => nomatch h), fun h _ => nomatch h⟩

/-- What stands at a position stays there. -/
theorem getElem? (h : Extends xs e ys e') {i : Nat} {x : α} (hx : xs[i]? = some x) :
    ys[i]? = some x := by
  obtain ⟨more, rfl⟩ := h.front
  obtain ⟨hlt, -⟩ := List.getElem?_eq_some_iff.mp hx
  rw [List.getElem?_append_left hlt]
  exact hx

/-- The position behind the last of a list that was closed is behind the last for good. -/
theorem length_le (h : Extends xs e ys e') (he : e = some .complete) {i : Nat}
    (hi : xs.length ≤ i) : ys.length ≤ i := by
  rw [h.frozen fun hnone => nomatch he.symm.trans hnone]
  exact hi

end Extends

end Lists

/-- What a frame may become. -/
def Frame.Grows (f f' : Frame) : Prop := Extends f.chunks f.ending f'.chunks f'.ending

/-- What a group may become, its frames apart. -/
def Group.Grows (g g' : Group) : Prop := Extends g.frames g.ending g'.frames g'.ending

/-- A chunk is added only to a frame that is open. -/
theorem Frame.grows_write {f f' : Frame} {size : Nat} {chunk : Bytes}
    (h : f.write size chunk = .ok f') : f.Grows f' := by
  obtain ⟨chunks, written, ending⟩ := f
  unfold Frame.write at h
  cases ending with
  | some ending => exact nomatch h
  | none =>
      dsimp only at h
      split at h
      · obtain rfl := Except.ok.inj h
        exact .append chunks [chunk]
      · exact nomatch h

/-- A frame is closed only when it is open. -/
theorem Frame.grows_close {f f' : Frame} {size : Nat} (h : f.close size = .ok f') : f.Grows f' := by
  obtain ⟨chunks, written, ending⟩ := f
  unfold Frame.close at h
  cases ending with
  | some ending => exact nomatch h
  | none =>
      dsimp only at h
      split at h
      · obtain rfl := Except.ok.inj h
        exact .close chunks
      · exact nomatch h

/-- A frame is added only to a group that is open. -/
theorem Group.grows_append {g g' : Group} {w : FrameWriter} (h : g.append w = .ok g') :
    g.Grows g' := by
  obtain ⟨frames, ending⟩ := g
  cases ending with
  | some ending => exact nomatch h
  | none =>
      obtain rfl := Except.ok.inj h
      exact .append frames [w]

theorem Group.grows_close {g g' : Group} (h : g.close = .ok g') : g.Grows g' := by
  obtain ⟨frames, ending⟩ := g
  cases ending with
  | some ending => exact nomatch h
  | none =>
      obtain rfl := Except.ok.inj h
      exact .close frames

-- ── stores ──────────────────────────────────────────────────────────

namespace Store

/-- All frames and groups of the store grow. -/
structure Grows (s s' : Store) : Prop where
  frame : ∀ i, (s.frame i).Grows (s'.frame i)
  group : ∀ i, (s.group i).Grows (s'.group i)

namespace Grows

variable {s s' s'' : Store}

theorem refl (s : Store) : s.Grows s := ⟨fun _ => .refl _ _, fun _ => .refl _ _⟩

theorem trans (h : s.Grows s') (h' : s'.Grows s'') : s.Grows s'' :=
  ⟨fun i => (h.frame i).trans (h'.frame i), fun i => (h.group i).trans (h'.group i)⟩

/-- Frames and groups are as they were. -/
theorem same (hframe : ∀ i, s'.frame i = s.frame i) (hgroup : ∀ i, s'.group i = s.group i) :
    s.Grows s' := by
  refine ⟨fun i => ?_, fun i => ?_⟩
  · rw [hframe]
    exact .refl _ _
  · rw [hgroup]
    exact .refl _ _

/-- Setting one frame to what it may become lets the store grow. -/
theorem setFrame {id : FrameId} {f : Frame} (h : (s.frame id).Grows f) :
    s.Grows (s.setFrame id f) := by
  refine ⟨fun i => ?_, fun i => .refl _ _⟩
  by_cases hi : i = id
  · subst hi
    by_cases hlt : i < s.frames.size
    · rw [s.frame_setFrame_self hlt]
      exact h
    · -- there is no such frame, and nothing is set
      have hsize : s.frames.size ≤ i := Nat.le_of_not_lt hlt
      rw [frame_of_size_le _ hsize, frame_of_size_le _ ((s.size_setFrame i f).symm ▸ hsize)]
      exact .refl _ _
  · rw [s.frame_setFrame_of_ne hi]
    exact .refl _ _

/-- Setting one group to what it may become lets the store grow. -/
theorem setGroup {id : GroupId} {g : Group} (h : (s.group id).Grows g) :
    s.Grows (s.setGroup id g) := by
  refine ⟨fun i => .refl _ _, fun i => ?_⟩
  by_cases hi : i = id
  · subst hi
    by_cases hlt : i < s.groups.size
    · rw [s.group_setGroup_self hlt]
      exact h
    · have hsize : s.groups.size ≤ i := Nat.le_of_not_lt hlt
      rw [group_of_size_le _ hsize, group_of_size_le _ ((s.size_setGroup i g).symm ▸ hsize)]
      exact .refl _ _
  · rw [s.group_setGroup_of_ne hi]
    exact .refl _ _

-- ── operations ──────────────────────────────────────────────────────

theorem newFrame (size : Nat) : s.Grows (s.newFrame size).2 :=
  same (s.frame_newFrame size) (fun _ => rfl)

theorem newGroup (sequence : Nat) : s.Grows (s.newGroup sequence).2 :=
  same (fun _ => rfl) (s.group_newGroup sequence)

/-- An operation that sets one frame or group to what it may become. -/
theorem map {α : Type} {x : Except TransportError α} {set : α → Store}
    (h : ∀ a, x = .ok a → s.Grows (set a)) (hok : x.map set = .ok s') : s.Grows s' := by
  cases x with
  | error e => exact nomatch hok
  | ok a =>
      obtain rfl := Except.ok.inj hok
      exact h a rfl

theorem writeChunk {w : FrameWriter} {chunk : Bytes} (h : s.writeChunk w chunk = .ok s') :
    s.Grows s' :=
  map (fun _ hf => setFrame (Frame.grows_write hf)) h

theorem closeFrame {w : FrameWriter} (h : s.closeFrame w = .ok s') : s.Grows s' :=
  map (fun _ hf => setFrame (Frame.grows_close hf)) h

theorem abortFrame (e : TransportError) (w : FrameWriter) : s.Grows (s.abortFrame e w) :=
  setFrame (.abort _ _ e)

theorem appendFrame {g : GroupWriter} {w : FrameWriter} (h : s.appendFrame g w = .ok s') :
    s.Grows s' :=
  map (fun _ hg => setGroup (Group.grows_append hg)) h

/-- The frame itself is new, so only the group has something to become. -/
theorem createFrame {g : GroupWriter} {size : Nat} {w : FrameWriter}
    (h : s.createFrame g size = .ok (w, s')) : s.Grows s' := by
  obtain ⟨-, group, hgroup, rfl⟩ := createFrame_eq_ok h
  exact (newFrame size).trans (setGroup (Group.grows_append hgroup))

theorem writeChunks {w : FrameWriter} {chunks : List Bytes}
    (h : s.writeChunks w chunks = .ok s') : s.Grows s' :=
  writeChunks_induction .refl (fun _ _ _ h h' => h.trans h') (fun _ _ _ => writeChunk) h

theorem writeFrame {g : GroupWriter} {chunks : List Bytes}
    (h : s.writeFrame g chunks = .ok s') : s.Grows s' := by
  obtain ⟨w, begun, written, hcreate, hwrite, hclose⟩ := writeFrame_eq_ok h
  exact ((createFrame hcreate).trans (writeChunks hwrite)).trans (closeFrame hclose)

theorem closeGroup {g : GroupWriter} (h : s.closeGroup g = .ok s') : s.Grows s' :=
  map (fun _ hg => setGroup (Group.grows_close hg)) h

/-- Frames are aborted one by one. -/
theorem abortFrames (e : TransportError) (ws : List FrameWriter) :
    s.Grows (ws.foldl (fun s w => s.abortFrame e w) s) := by
  induction ws generalizing s with
  | nil => exact refl s
  | cons w ws ih => exact (abortFrame e w).trans ih

theorem abortGroup (e : TransportError) (g : GroupWriter) : s.Grows (s.abortGroup e g) := by
  have hframes : s.Grows _ := abortFrames e (s.group g.group).frames
  exact hframes.trans (setGroup (.abort _ _ e))

theorem createGroup {t : TrackWriter} {sequence : Nat} {g : GroupWriter}
    (h : s.createGroup t sequence = .ok (g, s')) : s.Grows s' := by
  obtain ⟨-, rfl⟩ := createGroup_eq_ok h
  exact (newGroup sequence).trans (same (fun _ => rfl) (fun _ => rfl))

end Grows

end Store

-- ── readers ─────────────────────────────────────────────────────────

section Readers

variable {α : Type}

/-- What a reader at a position of a list is told: what stands there, or that the list is closed and the
    position behind it, or that it has to wait, or that the list was aborted or is written by nobody. -/
inductive Looks (xs : List α) (e : Option Ending) (position : Nat) (isWritten : Bool) :
    Attempt TransportError (Option α) → Prop where
  | item {x : α} : xs[position]? = some x → Looks xs e position isWritten (.ok (some x))
  | ended : e = some .complete → xs.length ≤ position → Looks xs e position isWritten (.ok none)
  | pending : e = none → Looks xs e position isWritten (.error .pending)
  | failed {err : TransportError} : e ≠ some .complete → (e = none → isWritten = false) →
      Looks xs e position isWritten (.error (.failed err))

/-- In an open list a reader finds an item or waits, unless nobody writes the list any more. -/
theorem Looks.of_open {xs : List α} {position : Nat} {attempt : Attempt TransportError (Option α)}
    (hsome : ∀ x, xs[position]? = some x → attempt = .ok (some x))
    (hnone : xs[position]? = none → attempt = .error .pending) (isWritten : Bool) :
    Looks xs none position isWritten (orDropped attempt isWritten) := by
  cases hx : xs[position]? with
  | some x =>
      rw [hsome x hx]
      exact .item hx
  | none =>
      rw [hnone hx]
      cases isWritten with
      | true => exact .pending rfl
      | false => exact .failed (fun h => nomatch h) fun _ => rfl

/-- In a closed list a reader finds an item or the end, whoever may still hold a writer. -/
theorem Looks.of_closed (xs : List α) (position : Nat) (isWritten : Bool) :
    Looks xs (some .complete) position isWritten (orDropped (.ok xs[position]?) isWritten) := by
  cases hx : xs[position]? with
  | some x => exact .item hx
  | none => exact .ended rfl (List.getElem?_eq_none_iff.mp hx)

/-- What a reader of a frame is told. -/
theorem Frame.looks (f : Frame) (position : Nat) (isWritten : Bool) :
    Looks f.chunks f.ending position isWritten (orDropped (f.nextChunk position) isWritten) := by
  obtain ⟨chunks, written, ending⟩ := f
  cases ending with
  | none =>
      refine .of_open (fun x hx => ?_) (fun hx => ?_) isWritten
      · simp only [nextChunk, hx]
      · simp only [nextChunk, hx, Attempt.pending]
  | some ending =>
      cases ending with
      | complete => exact .of_closed chunks position isWritten
      | aborted e => exact .failed (fun h => nomatch h) (fun h => nomatch h)

/-- What a reader of a group is told. -/
theorem Group.looks (g : Group) (position : Nat) (isWritten : Bool) :
    Looks g.frames g.ending position isWritten (orDropped (g.nextFrame position) isWritten) := by
  obtain ⟨frames, ending⟩ := g
  cases ending with
  | none =>
      refine .of_open (fun x hx => ?_) (fun hx => ?_) isWritten
      · simp only [nextFrame, hx]
      · simp only [nextFrame, hx, Attempt.pending]
  | some ending =>
      cases ending with
      | complete => exact .of_closed frames position isWritten
      | aborted e => exact .failed (fun h => nomatch h) (fun h => nomatch h)

-- What is true of all readers in a list stays so when another one is made, when one is copied, and when
-- one of them reads.

section Followers

variable {ρ : Type} {P : ρ → Prop} {rs : List ρ}

theorem forall_mem_subscribe (h : ∀ r ∈ rs, P r) {new : ρ} (hnew : P new) :
    ∀ r ∈ rs ++ [new], P r := by
  intro r hr
  rcases List.mem_append.mp hr with hr | hr
  · exact h r hr
  · obtain rfl := List.mem_singleton.mp hr
    exact hnew

theorem forall_mem_copy (h : ∀ r ∈ rs, P r) (i : Nat) : ∀ r ∈ rs ++ rs[i]?.toList, P r := by
  intro r hr
  rcases List.mem_append.mp hr with hr | hr
  · exact h r hr
  · exact h r (List.mem_of_getElem? (Option.mem_toList.mp hr))

theorem forall_mem_modify (h : ∀ r ∈ rs, P r) (i : Nat) {read : ρ → ρ}
    (hread : ∀ r, P r → P (read r)) : ∀ r ∈ rs.modify i read, P r := by
  intro r hr
  obtain ⟨j, hj⟩ := List.mem_iff_getElem?.mp hr
  rw [List.getElem?_modify] at hj
  obtain ⟨r', hr', heq⟩ := Option.map_eq_some_iff.mp hj
  have hkept : P r' := h r' (List.mem_of_getElem? hr')
  split at heq
  · exact heq ▸ hread r' hkept
  · exact heq ▸ hkept

end Followers

/-- The frame is in a group that somebody holds. -/
def Store.Keeps (s : Store) (held : Holdings) (id : FrameId) : Prop :=
  ∃ g, (∃ w ∈ (s.group g).frames, w.frame = id) ∧ s.groupIsHeld held g = true

/-- A frame counts as written while somebody has a writer of it or holds a group that has it. -/
theorem Store.frameIsWritten_iff {s : Store} {held : Holdings} {id : FrameId} :
    s.frameIsWritten held id = true ↔ .frameWriter id ∈ held ∨ s.Keeps held id := by
  rw [Store.frameIsWritten, Bool.or_eq_true, List.contains_iff_mem]
  refine or_congr_right ?_
  constructor
  · intro h
    obtain ⟨g, -, hg⟩ := List.any_eq_true.mp h
    obtain ⟨hframe, hheld⟩ := Bool.and_eq_true_iff.mp hg
    obtain ⟨w, hw, heq⟩ := List.any_eq_true.mp hframe
    exact ⟨g, ⟨w, hw, beq_iff_eq.mp heq⟩, hheld⟩
  · rintro ⟨g, ⟨w, hw, rfl⟩, hheld⟩
    have hframe : ((s.group g).frames.any fun w' => w'.frame == w.frame) = true :=
      List.any_eq_true.mpr ⟨w, hw, beq_self_eq_true _⟩
    refine List.any_eq_true.mpr ⟨g, List.mem_range.mpr (s.lt_size_of_mem_frames hw), ?_⟩
    exact Bool.and_eq_true_iff.mpr ⟨hframe, hheld⟩

/-- Somebody who reads a group keeps the frames that it has. -/
theorem Store.keeps_of_cursor {s : Store} {held : Holdings} {g : GroupId} {w : FrameWriter}
    (hw : w ∈ (s.group g).frames) (hheld : .groupCursor g ∈ held) : s.Keeps held w.frame := by
  refine ⟨g, ⟨w, hw, rfl⟩, ?_⟩
  rw [Store.groupIsHeld, List.contains_iff_mem.mpr hheld, Bool.or_true, Bool.true_or]

/-- A frame counts as written as long as somebody reads a group that has it. -/
theorem Store.frameIsWritten_of_cursor {s : Store} {held : Holdings} {g : GroupId} {w : FrameWriter}
    (hw : w ∈ (s.group g).frames) (hheld : .groupCursor g ∈ held) :
    s.frameIsWritten held w.frame = true :=
  Store.frameIsWritten_iff.mpr (.inr (Store.keeps_of_cursor hw hheld))

end Readers

-- ── publishers ──────────────────────────────────────────────────────

/-- One thing that a publisher does to frames, groups and tracks. -/
inductive Operation where
  | newFrame (size : Nat)
  | writeChunk (w : FrameWriter) (chunk : Bytes)
  | closeFrame (w : FrameWriter)
  | abortFrame (e : TransportError) (w : FrameWriter)
  | newGroup (sequence : Nat)
  | appendFrame (g : GroupWriter) (w : FrameWriter)
  | createFrame (g : GroupWriter) (size : Nat)
  | writeFrame (g : GroupWriter) (chunks : List Bytes)
  | closeGroup (g : GroupWriter)
  | abortGroup (e : TransportError) (g : GroupWriter)
  | newTrack (info : TrackInfo)
  | createGroup (t : TrackWriter) (sequence : Nat)
  | closeTrack (t : TrackWriter)
  | abortTrack (e : TransportError) (t : TrackWriter)

namespace Operation

/-- The store after a call that changes nothing when it fails. -/
def settled (s : Store) : Except TransportError Store → Store
  | .ok s' => s'
  | .error _ => s

/-- The store after an operation. -/
def perform (s : Store) : Operation → Store
  | .newFrame size => (s.newFrame size).2
  | .writeChunk w chunk => settled s (s.writeChunk w chunk)
  | .closeFrame w => settled s (s.closeFrame w)
  | .abortFrame e w => s.abortFrame e w
  | .newGroup sequence => (s.newGroup sequence).2
  | .appendFrame g w => settled s (s.appendFrame g w)
  | .createFrame g size => settled s ((s.createFrame g size).map Prod.snd)
  | .writeFrame g chunks => settled s (s.writeFrame g chunks)
  | .closeGroup g => settled s (s.closeGroup g)
  | .abortGroup e g => s.abortGroup e g
  | .newTrack info => (s.newTrack info).2
  | .createGroup t sequence => settled s ((s.createGroup t sequence).map Prod.snd)
  | .closeTrack t => settled s (s.closeTrack t)
  | .abortTrack e t => s.abortTrack e t

variable {s s' : Store}

-- An operation that succeeds leaves what its call returns.

theorem perform_writeChunk {w : FrameWriter} {chunk : Bytes} (h : s.writeChunk w chunk = .ok s') :
    (writeChunk w chunk).perform s = s' := congrArg (settled s) h

theorem perform_closeFrame {w : FrameWriter} (h : s.closeFrame w = .ok s') :
    (closeFrame w).perform s = s' := congrArg (settled s) h

theorem perform_createFrame {g : GroupWriter} {size : Nat} {made : FrameWriter × Store}
    (h : s.createFrame g size = .ok made) : (createFrame g size).perform s = made.2 := by
  rw [perform, h]
  rfl

theorem perform_writeFrame {g : GroupWriter} {chunks : List Bytes}
    (h : s.writeFrame g chunks = .ok s') : (writeFrame g chunks).perform s = s' :=
  congrArg (settled s) h

theorem perform_closeGroup {g : GroupWriter} (h : s.closeGroup g = .ok s') :
    (closeGroup g).perform s = s' := congrArg (settled s) h

theorem perform_createGroup {t : TrackWriter} {sequence : Nat} {made : GroupWriter × Store}
    (h : s.createGroup t sequence = .ok made) : (createGroup t sequence).perform s = made.2 := by
  rw [perform, h]
  rfl

theorem perform_closeTrack {t : TrackWriter} (h : s.closeTrack t = .ok s') :
    (closeTrack t).perform s = s' := congrArg (settled s) h

/-- What holds of the store as it was and of what a call returns holds of the store afterwards. -/
theorem settled_induction {P : Store → Prop} {x : Except TransportError Store} (hsame : P s)
    (h : ∀ s', x = .ok s' → P s') : P (settled s x) := by
  cases x with
  | error e => exact hsame
  | ok s' => exact h s' rfl

/-- The same for a call whose result is put into the store. -/
theorem settled_map_induction {α : Type} {P : Store → Prop} {x : Except TransportError α}
    {set : α → Store} (hsame : P s) (h : ∀ a, x = .ok a → P (set a)) : P (settled s (x.map set)) := by
  cases x with
  | error e => exact hsame
  | ok a => exact h a rfl

theorem grows_settled {x : Except TransportError Store} (h : ∀ s', x = .ok s' → s.Grows s') :
    s.Grows (settled s x) := settled_induction (.refl s) h

/-- **Every operation makes the store grow.** -/
theorem grows (op : Operation) (s : Store) : s.Grows (op.perform s) := by
  cases op with
  | newFrame size => exact .newFrame size
  | writeChunk w chunk => exact grows_settled fun _ => .writeChunk
  | closeFrame w => exact grows_settled fun _ => .closeFrame
  | abortFrame e w => exact .abortFrame e w
  | newGroup sequence => exact .newGroup sequence
  | appendFrame g w => exact grows_settled fun _ => .appendFrame
  | createFrame g size =>
      exact grows_settled fun _ => .map (fun made hmade => .createFrame (w := made.1) hmade)
  | writeFrame g chunks => exact grows_settled fun _ => .writeFrame
  | closeGroup g => exact grows_settled fun _ => .closeGroup
  | abortGroup e g => exact .abortGroup e g
  | newTrack info => exact .same (fun _ => rfl) (fun _ => rfl)
  | createGroup t sequence =>
      exact grows_settled fun _ => .map (fun made hmade => .createGroup (g := made.1) hmade)
  | closeTrack t => exact grows_settled fun _ => .map fun _ _ => .same (fun _ => rfl) (fun _ => rfl)
  | abortTrack e t => exact .same (fun _ => rfl) (fun _ => rfl)

end Operation

end LiveMedia.Live
