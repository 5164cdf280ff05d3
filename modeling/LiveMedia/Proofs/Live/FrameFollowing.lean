import LiveMedia.Proofs.Live.Growth

/-!
# Readers follow a frame

Writers and readers of one frame, in any order: chunks are written, among them empty ones, the frame is
closed, and readers are made, are cloned, and take the next chunk or all the rest. `accepted` are the
chunks that writers were not refused. A reader that has to wait gives up and changes nothing, so a read
that waits is a read that is tried later.

The frame holds the accepted chunks and nothing else, and it is closed only when they fill it
(`Frame.Holds`). A reader was given the chunks before its position, in whatever portions, and once it was
told the end its position is behind the last of them (`FrameFollows`). Both are kept by every move
(`FrameFollowing.Sound.after?`): a writer that is refused changes nothing, and one that is not refused adds
to a frame that is open, of which no reader was told the end.

A chunk whose bytes cannot be counted any more has no answer, and nothing is said of what comes behind it.
So a run has a result only if all chunks in it could be counted. When a chunk cannot is a part of the
result, and one that fits always can.
-/

namespace LiveMedia.Live

open LiveMedia.Wire

-- ── writers ─────────────────────────────────────────────────────────

namespace Frame

variable {f f' : Frame} {size : Nat} {chunk : Bytes} {accepted : List Bytes}

theorem write_eq_ok_iff : f.write size chunk = .ok f' ↔
    f.ending = none ∧ f.written + chunk.length ≤ size ∧
      f' = { f with chunks := f.chunks ++ [chunk], written := f.written + chunk.length } := by
  rw [write]
  cases hending : f.ending with
  | some ending => simp
  | none =>
      by_cases hfits : f.written + chunk.length ≤ size
      · simp [hfits, eq_comm]
      · simp [hfits]

theorem write?_eq_none_iff : f.write? size chunk = none ↔
    f.ending = none ∧ countLimit ≤ f.written + chunk.length := by
  rw [write?]
  cases hending : f.ending with
  | some ending => simp
  | none =>
      dsimp only
      split
      · next hlimit => simp [hlimit]
      · next hlimit => split <;> simp [hlimit]

/-- A chunk that can be counted is written or refused as if there were no word. -/
theorem write?_eq_some {x : Except TransportError Frame} (h : f.write? size chunk = some x) :
    f.write size chunk = x := by
  rw [write?] at h
  rw [write]
  cases hending : f.ending with
  | some ending =>
      rw [hending] at h
      exact Option.some.inj h
  | none =>
      rw [hending] at h
      dsimp only at h ⊢
      split at h
      · cases h
      · split at h
        · next hfits =>
          rw [if_pos hfits]
          exact Option.some.inj h
        · next hfits =>
          rw [if_neg hfits]
          exact Option.some.inj h

theorem close_eq_ok_iff : f.close size = .ok f' ↔
    f.ending = none ∧ f.written = size ∧ f' = { f with ending := some .complete } := by
  rw [close]
  cases hending : f.ending with
  | some ending => simp
  | none =>
      by_cases hfull : f.written = size
      · simp [hfull, eq_comm]
      · simp [hfull]

/-- The frame holds the accepted chunks, which fit, and was closed only if they fill it. -/
structure Holds (f : Frame) (size : Nat) (accepted : List Bytes) : Prop where
  chunks_eq : f.chunks = accepted
  written_eq : f.written = accepted.flatten.length
  written_le : f.written ≤ size
  ending : f.ending = none ∨ (f.ending = some .complete ∧ f.written = size)

theorem Holds.fresh (size : Nat) : Frame.fresh.Holds size [] :=
  ⟨rfl, rfl, Nat.zero_le size, Or.inl rfl⟩

theorem Holds.write (h : f.Holds size accepted) (hw : f.write size chunk = .ok f') :
    f'.Holds size (accepted ++ [chunk]) := by
  obtain ⟨hopen, hfits, rfl⟩ := write_eq_ok_iff.mp hw
  refine ⟨congrArg (· ++ [chunk]) h.chunks_eq, ?_, hfits, Or.inl hopen⟩
  show f.written + chunk.length = _
  rw [h.written_eq, List.flatten_concat, List.length_append]

theorem Holds.close (h : f.Holds size accepted) (hc : f.close size = .ok f') :
    f'.Holds size accepted := by
  obtain ⟨-, hfull, rfl⟩ := close_eq_ok_iff.mp hc
  exact ⟨h.chunks_eq, h.written_eq, h.written_le, Or.inr ⟨rfl, hfull⟩⟩

end Frame

namespace Store

variable {s s' : Store} {w : FrameWriter} {chunk : Bytes}

theorem writeChunk_eq_ok_iff : s.writeChunk w chunk = .ok s' ↔
    ∃ f, (s.frame w.frame).write w.size chunk = .ok f ∧ s' = s.setFrame w.frame f := by
  rw [writeChunk]
  cases (s.frame w.frame).write w.size chunk with
  | ok f => simp [Except.map, eq_comm]
  | error e => simp [Except.map]

theorem closeFrame_eq_ok_iff : s.closeFrame w = .ok s' ↔
    ∃ f, (s.frame w.frame).close w.size = .ok f ∧ s' = s.setFrame w.frame f := by
  rw [closeFrame]
  cases (s.frame w.frame).close w.size with
  | ok f => simp [Except.map, eq_comm]
  | error e => simp [Except.map]

/-- A chunk has no answer exactly if the frame is open and its bytes cannot be counted with it. -/
theorem writeChunk?_eq_none_iff : s.writeChunk? w chunk = none ↔
    (s.frame w.frame).ending = none ∧
      Frame.countLimit ≤ (s.frame w.frame).written + chunk.length := by
  rw [writeChunk?, Option.map_eq_none_iff, Frame.write?_eq_none_iff]

theorem writeChunk?_eq_some {x : Except TransportError Store} (h : s.writeChunk? w chunk = some x) :
    s.writeChunk w chunk = x := by
  obtain ⟨result, hresult, rfl⟩ := Option.map_eq_some_iff.mp h
  rw [writeChunk, Frame.write?_eq_some hresult]

/-- A chunk is accepted exactly if the frame is open and the chunk fits. -/
theorem writeChunk?_isOk_iff (hsize : w.size < Frame.countLimit) :
    (∃ s', s.writeChunk? w chunk = some (.ok s')) ↔
      (s.frame w.frame).ending = none ∧ (s.frame w.frame).written + chunk.length ≤ w.size := by
  constructor
  · rintro ⟨s', hs⟩
    obtain ⟨f, hf, -⟩ := writeChunk_eq_ok_iff.mp (writeChunk?_eq_some hs)
    obtain ⟨hopen, hfits, -⟩ := Frame.write_eq_ok_iff.mp hf
    exact ⟨hopen, hfits⟩
  · rintro ⟨hopen, hfits⟩
    cases hwrite : s.writeChunk? w chunk with
    | none => exact absurd (writeChunk?_eq_none_iff.mp hwrite).2 (by omega)
    | some x =>
        have hplain : s.writeChunk w chunk = .ok _ :=
          writeChunk_eq_ok_iff.mpr ⟨_, Frame.write_eq_ok_iff.mpr ⟨hopen, hfits, rfl⟩, rfl⟩
        exact ⟨_, congrArg some ((writeChunk?_eq_some hwrite).symm.trans hplain)⟩

/-- A frame is closed exactly if it is open and full. -/
theorem closeFrame_isOk_iff : (∃ s', s.closeFrame w = .ok s') ↔
    (s.frame w.frame).ending = none ∧ (s.frame w.frame).written = w.size := by
  constructor
  · rintro ⟨s', hs⟩
    obtain ⟨f, hf, -⟩ := closeFrame_eq_ok_iff.mp hs
    obtain ⟨hopen, hfull, -⟩ := Frame.close_eq_ok_iff.mp hf
    exact ⟨hopen, hfull⟩
  · rintro ⟨hopen, hfull⟩
    exact ⟨_, closeFrame_eq_ok_iff.mpr ⟨_, Frame.close_eq_ok_iff.mpr ⟨hopen, hfull, rfl⟩, rfl⟩⟩

end Store

-- ── reading all the rest ────────────────────────────────────────────

namespace Store

variable {s : Store} {held : Holdings} {c c' : FrameCursor}

theorem readAll_fst (s : Store) (held : Holdings) (c : FrameCursor) :
    (s.readAll held c).1 =
      orDropped ((s.frame c.frame).remainder c.position) (s.frameIsWritten held c.frame) := by
  rw [Store.readAll]
  split
  · next h => exact h.symm
  · rfl

/-- All the rest is there once the frame was closed. -/
theorem readAll_eq_ok {bs : Bytes} (h : s.readAll held c = (.ok bs, c')) :
    (s.frame c.frame).ending = some .complete ∧
      bs = ((s.frame c.frame).chunks.drop c.position).flatten ∧
      c' = { c with position := (s.frame c.frame).chunks.length } := by
  rw [Store.readAll, Frame.remainder] at h
  cases hending : (s.frame c.frame).ending with
  | none =>
      rw [hending] at h
      cases hwritten : s.frameIsWritten held c.frame <;> rw [hwritten] at h <;>
        cases (Prod.mk.inj h).1
  | some ending =>
      rw [hending] at h
      cases ending with
      | complete =>
          obtain ⟨hbs, hc⟩ := Prod.mk.inj h
          exact ⟨rfl, (Except.ok.inj hbs).symm, hc.symm⟩
      | aborted e => cases (Prod.mk.inj h).1

/-- A call that gets nothing of a frame leaves its reader where it is. -/
theorem readAll_error {h : Halt TransportError} (hread : s.readAll held c = (.error h, c')) :
    c' = c := by
  rw [Store.readAll] at hread
  split at hread
  · exact nomatch hread
  · exact (Prod.mk.inj hread).2.symm

end Store

-- ── followers ───────────────────────────────────────────────────────

/-- A cursor of a frame, and what it was given, a portion for each read; a clone was given what the other
    had been given before. -/
structure FrameFollower where
  cursor : FrameCursor
  given : List Bytes
  /-- It was told that there are no more chunks, or was given all the rest. -/
  ended : Bool
deriving DecidableEq, Repr

namespace FrameFollower

/-- The follower asks for the next chunk, and gives up if it has to wait. -/
def readChunk (r : FrameFollower) (s : Store) (held : Holdings) : FrameFollower :=
  match s.readChunk held r.cursor with
  | (.ok (some chunk), cursor) => ⟨cursor, r.given ++ [chunk], r.ended⟩
  | (.ok none, cursor) => ⟨cursor, r.given, true⟩
  | (.error _, cursor) => ⟨cursor, r.given, r.ended⟩

/-- The follower asks for all the rest, and gives up if it has to wait. -/
def readAll (r : FrameFollower) (s : Store) (held : Holdings) : FrameFollower :=
  match s.readAll held r.cursor with
  | (.ok bs, cursor) => ⟨cursor, r.given ++ [bs], true⟩
  | (.error _, cursor) => ⟨cursor, r.given, r.ended⟩

end FrameFollower

/-- A frame with its followers. -/
structure FrameFollowing where
  store : Store
  /-- The chunks that were written and not refused. -/
  accepted : List Bytes
  followers : List FrameFollower

/-- What a follower was given are the chunks before its position. -/
structure FrameFollows (id : FrameId) (s : Store) (r : FrameFollower) : Prop where
  frame_eq : r.cursor.frame = id
  position_le : r.cursor.position ≤ (s.frame id).chunks.length
  given : r.given.flatten = ((s.frame id).chunks.take r.cursor.position).flatten
  ended : r.ended = true → (s.frame id).ending = some .complete ∧
    r.cursor.position = (s.frame id).chunks.length

namespace FrameFollows

variable {id : FrameId} {s s' : Store} {r : FrameFollower}

theorem fresh (w : FrameWriter) (s : Store) : FrameFollows w.frame s ⟨w.cursor, [], false⟩ where
  frame_eq := rfl
  position_le := Nat.zero_le _
  given := by
    show [] = (List.take 0 _).flatten
    rw [List.take_zero]
    rfl
  ended h := nomatch h

/-- What is added to an open frame changes nothing for its followers. -/
theorem later (hr : FrameFollows id s r) (hgrows : s.Grows s') (hopen : (s.frame id).ending = none) :
    FrameFollows id s' r := by
  obtain ⟨more, hmore⟩ := (hgrows.frame id).front
  refine ⟨hr.frame_eq, ?_, ?_, ?_⟩
  · exact Nat.le_trans hr.position_le (hgrows.frame id).front.length_le
  · rw [hr.given, ← hmore, List.take_append_of_le_length hr.position_le]
  · intro hended
    cases hopen.symm.trans (hr.ended hended).1

/-- **A follower that asks for a chunk** is given the one at its position, or is told the end behind the
    last one. -/
theorem readChunk (hr : FrameFollows id s r) (held : Holdings) :
    FrameFollows id s (r.readChunk s held) := by
  obtain rfl := hr.frame_eq
  have hlooks := (s.frame r.cursor.frame).looks r.cursor.position
    (s.frameIsWritten held r.cursor.frame)
  rw [FrameFollower.readChunk, Store.readChunk]
  generalize orDropped ((s.frame r.cursor.frame).nextChunk r.cursor.position)
    (s.frameIsWritten held r.cursor.frame) = x at hlooks
  cases hlooks with
  | @item chunk hchunk =>
      obtain ⟨hlt, -⟩ := List.getElem?_eq_some_iff.mp hchunk
      refine ⟨rfl, hlt, ?_, ?_⟩
      · show (r.given ++ [chunk]).flatten = (List.take (r.cursor.position + 1) _).flatten
        rw [List.take_add_one, hchunk, List.flatten_append, List.flatten_append, hr.given]
        rfl
      · intro hended
        exact absurd (hr.ended hended).2 (Nat.ne_of_lt hlt)
  | ended hcomplete hlength =>
      exact ⟨rfl, hr.position_le, hr.given, fun _ => ⟨hcomplete, Nat.le_antisymm hr.position_le hlength⟩⟩
  | pending _ => exact ⟨rfl, hr.position_le, hr.given, hr.ended⟩
  | failed _ _ => exact ⟨rfl, hr.position_le, hr.given, hr.ended⟩

/-- **A follower that asks for all the rest** has the whole payload then, if it is given anything. -/
theorem readAll (hr : FrameFollows id s r) (held : Holdings) :
    FrameFollows id s (r.readAll s held) := by
  rw [FrameFollower.readAll]
  cases hread : s.readAll held r.cursor with
  | mk attempt c =>
      cases attempt with
      | ok bs =>
          obtain rfl := hr.frame_eq
          obtain ⟨hcomplete, rfl, rfl⟩ := Store.readAll_eq_ok hread
          refine ⟨rfl, Nat.le_refl _, ?_, fun _ => ⟨hcomplete, rfl⟩⟩
          show (r.given ++ [_]).flatten =
            (List.take (s.frame r.cursor.frame).chunks.length _).flatten
          rw [List.flatten_concat, hr.given, ← List.flatten_append, List.take_append_drop,
            List.take_length]
      | error h =>
          obtain rfl := Store.readAll_error hread
          exact hr

/-- When the frame was closed, no read waits or fails, and all the rest is what is still missing. -/
theorem answers (hr : FrameFollows id s r) (hcomplete : (s.frame id).ending = some .complete)
    (held : Holdings) : (∃ item, (s.readChunk held r.cursor).1 = .ok item) ∧
      (s.readAll held r.cursor).1 = .ok ((s.frame id).chunks.drop r.cursor.position).flatten := by
  obtain rfl := hr.frame_eq
  constructor
  · have hchunk : (s.frame r.cursor.frame).nextChunk r.cursor.position =
        .ok (s.frame r.cursor.frame).chunks[r.cursor.position]? := by
      rw [Frame.nextChunk, hcomplete]
    rw [Store.readChunk, hchunk]
    cases (s.frame r.cursor.frame).chunks[r.cursor.position]? with
    | none => exact ⟨none, rfl⟩
    | some chunk => exact ⟨some chunk, rfl⟩
  · rw [Store.readAll, Frame.remainder, hcomplete]
    rfl

end FrameFollows

-- ── runs ────────────────────────────────────────────────────────────

namespace FrameFollowing

/-- One thing that happens to a frame with its followers. -/
inductive Move where
  | write (chunk : Bytes)
  | close
  /-- A writer makes a new follower. -/
  | subscribe
  | clone (follower : Nat)
  | readChunk (follower : Nat) (held : Holdings)
  | readAll (follower : Nat) (held : Holdings)

/-- A new frame of the given size, with no follower yet. -/
def start (s : Store) (size : Nat) : FrameFollowing := ⟨(s.newFrame size).2, [], []⟩

/-- What a move leads to; `none` when it writes a chunk that cannot be counted. -/
def after? (f : FrameFollowing) (w : FrameWriter) : Move → Option FrameFollowing
  | .write chunk => match f.store.writeChunk? w chunk with
    | none => none
    | some (.ok store) => some { f with store, accepted := f.accepted ++ [chunk] }
    | some (.error _) => some f
  | .close => match f.store.closeFrame w with
    | .ok store => some { f with store }
    | .error _ => some f
  | .subscribe => some { f with followers := f.followers ++ [⟨w.cursor, [], false⟩] }
  | .clone i => some { f with followers := f.followers ++ f.followers[i]?.toList }
  | .readChunk i held =>
    some { f with followers := f.followers.modify i (·.readChunk f.store held) }
  | .readAll i held => some { f with followers := f.followers.modify i (·.readAll f.store held) }

def run? (f : FrameFollowing) (w : FrameWriter) : List Move → Option FrameFollowing
  | [] => some f
  | m :: ms => (f.after? w m).bind fun f => f.run? w ms

variable {f f' : FrameFollowing} {w : FrameWriter}

theorem after?_write_of_error {chunk : Bytes} {e : TransportError}
    (h : f.store.writeChunk? w chunk = some (.error e)) : f.after? w (.write chunk) = some f := by
  rw [after?, h]

theorem after?_close_of_error {e : TransportError} (h : f.store.closeFrame w = .error e) :
    f.after? w .close = some f := by
  rw [after?, h]

theorem after?_write_eq_none_iff {chunk : Bytes} : f.after? w (.write chunk) = none ↔
    (f.store.frame w.frame).ending = none ∧
      Frame.countLimit ≤ (f.store.frame w.frame).written + chunk.length := by
  rw [← Store.writeChunk?_eq_none_iff, after?]
  cases f.store.writeChunk? w chunk with
  | none => simp
  | some result => cases result <;> simp

/-- The frame holds what was accepted, and every follower follows it. -/
structure Sound (w : FrameWriter) (f : FrameFollowing) : Prop where
  inStore : w.frame < f.store.frames.size
  holds : (f.store.frame w.frame).Holds w.size f.accepted
  follows : ∀ r ∈ f.followers, FrameFollows w.frame f.store r

theorem sound_start (s : Store) (size : Nat) : Sound (s.newFrame size).1 (start s size) where
  inStore := by
    show s.frames.size < (s.newFrame size).2.frames.size
    rw [s.size_newFrame]
    exact Nat.lt_succ_self _
  holds := by
    show ((s.newFrame size).2.frame s.frames.size).Holds size []
    rw [s.frame_newFrame, s.frame_of_size_le (Nat.le_refl _)]
    exact .fresh size
  follows _ hr := absurd hr List.not_mem_nil

/-- Writers change the frame only while it is open, when no follower was told the end. -/
theorem Sound.setFrame (hf : Sound w f) {frame : Frame} {accepted : List Bytes}
    (hopen : (f.store.frame w.frame).ending = none)
    (hgrows : f.store.Grows (f.store.setFrame w.frame frame)) (hholds : frame.Holds w.size accepted) :
    Sound w { f with store := f.store.setFrame w.frame frame, accepted } where
  inStore := by
    rw [Store.size_setFrame]
    exact hf.inStore
  holds := by
    rw [Store.frame_setFrame_self _ hf.inStore]
    exact hholds
  follows r hr := (hf.follows r hr).later hgrows hopen

theorem Sound.write (hf : Sound w f) {chunk : Bytes} (h : f.after? w (.write chunk) = some f') :
    Sound w f' := by
  rw [after?] at h
  split at h
  · cases h
  · next s hwrite =>
      obtain rfl := Option.some.inj h
      have hwrite := Store.writeChunk?_eq_some hwrite
      have hgrows := Store.Grows.writeChunk hwrite
      obtain ⟨frame, hframe, rfl⟩ := Store.writeChunk_eq_ok_iff.mp hwrite
      exact hf.setFrame (Frame.write_eq_ok_iff.mp hframe).1 hgrows (hf.holds.write hframe)
  · obtain rfl := Option.some.inj h
    exact hf

theorem Sound.close (hf : Sound w f) (h : f.after? w .close = some f') : Sound w f' := by
  rw [after?] at h
  split at h
  · next s hclose =>
      obtain rfl := Option.some.inj h
      have hgrows := Store.Grows.closeFrame hclose
      obtain ⟨frame, hframe, rfl⟩ := Store.closeFrame_eq_ok_iff.mp hclose
      exact hf.setFrame (Frame.close_eq_ok_iff.mp hframe).1 hgrows (hf.holds.close hframe)
  · obtain rfl := Option.some.inj h
    exact hf

/-- **Every move keeps what is held and what was given in agreement.** -/
theorem Sound.after? (hf : Sound w f) {m : Move} (h : f.after? w m = some f') : Sound w f' := by
  cases m with
  | write chunk => exact hf.write h
  | close => exact hf.close h
  | subscribe =>
      obtain rfl := Option.some.inj h
      exact ⟨hf.inStore, hf.holds, forall_mem_subscribe hf.follows (.fresh w f.store)⟩
  | clone i =>
      obtain rfl := Option.some.inj h
      exact ⟨hf.inStore, hf.holds, forall_mem_copy hf.follows i⟩
  | readChunk i held =>
      obtain rfl := Option.some.inj h
      exact ⟨hf.inStore, hf.holds, forall_mem_modify hf.follows i fun _ hr => hr.readChunk held⟩
  | readAll i held =>
      obtain rfl := Option.some.inj h
      exact ⟨hf.inStore, hf.holds, forall_mem_modify hf.follows i fun _ hr => hr.readAll held⟩

theorem Sound.run? (hf : Sound w f) {ms : List Move} (h : f.run? w ms = some f') : Sound w f' := by
  induction ms generalizing f with
  | nil => exact Option.some.inj h ▸ hf
  | cons m ms ih =>
      obtain ⟨next, hnext, hrest⟩ := Option.bind_eq_some_iff.mp h
      exact ih (hf.after? hnext) hrest

/-- **Writers and readers of a frame agree on size and bytes.** The size is a word. After any moves in
    which the bytes could be counted:

    * the frame holds the accepted chunks, the bytes written are those of the accepted chunks, and they
      never exceed the size;
    * a chunk is accepted exactly if the frame is open and the chunk fits, and the frame is closed exactly
      if it is open and full; a writer that is refused changes nothing;
    * a chunk has no answer exactly if the frame is open and the bytes with it are too many for a word;
    * what a reader was given is a front of the accepted bytes, and all of them, as many as the size says,
      once it was told the end or was given all the rest;
    * once the frame was closed no read waits or fails, and all the rest is what is still missing. -/
theorem writers_and_readers_agree (s : Store) (size : Nat) (hword : size < Frame.countLimit)
    (ms : List Move) (f : FrameFollowing)
    (hrun : (start s size).run? (s.newFrame size).1 ms = some f) :
    let w := (s.newFrame size).1
    let frame := f.store.frame w.frame
    (frame.chunks = f.accepted ∧ frame.written = f.accepted.flatten.length ∧ frame.written ≤ size) ∧
    ((∀ chunk, (∃ s', f.store.writeChunk? w chunk = some (.ok s')) ↔
        frame.ending = none ∧ frame.written + chunk.length ≤ size) ∧
      ((∃ s', f.store.closeFrame w = .ok s') ↔ frame.ending = none ∧ frame.written = size) ∧
      (∀ chunk e, f.store.writeChunk? w chunk = some (.error e) →
        f.after? w (.write chunk) = some f) ∧
      (∀ e, f.store.closeFrame w = .error e → f.after? w .close = some f) ∧
      ∀ chunk, f.after? w (.write chunk) = none ↔
        frame.ending = none ∧ Frame.countLimit ≤ frame.written + chunk.length) ∧
    ∀ r ∈ f.followers, r.given.flatten <+: f.accepted.flatten ∧
      (r.ended = true → r.given.flatten = f.accepted.flatten ∧ f.accepted.flatten.length = size) ∧
      (frame.ending = some .complete → ∀ held,
        (∃ item, (f.store.readChunk held r.cursor).1 = .ok item) ∧
        ∃ rest, (f.store.readAll held r.cursor).1 = .ok rest ∧
          r.given.flatten ++ rest = f.accepted.flatten) := by
  intro w frame
  have hf : Sound w f := (sound_start s size).run? hrun
  refine ⟨⟨hf.holds.chunks_eq, hf.holds.written_eq, hf.holds.written_le⟩,
    ⟨fun _ => Store.writeChunk?_isOk_iff hword, Store.closeFrame_isOk_iff,
      fun _ _ => after?_write_of_error, fun _ => after?_close_of_error,
      fun _ => after?_write_eq_none_iff⟩, ?_⟩
  intro r hr
  have hfollows := hf.follows r hr
  have hgiven : r.given.flatten = (f.accepted.take r.cursor.position).flatten := by
    rw [hfollows.given, hf.holds.chunks_eq]
  have hrest : r.given.flatten ++ (f.accepted.drop r.cursor.position).flatten = f.accepted.flatten := by
    rw [hgiven, ← List.flatten_append, List.take_append_drop]
  refine ⟨⟨_, hrest⟩, ?_, ?_⟩
  · intro hended
    obtain ⟨hcomplete, hposition⟩ := hfollows.ended hended
    constructor
    · rw [hgiven, hposition, hf.holds.chunks_eq, List.take_length]
    · rcases hf.holds.ending with hopen | ⟨-, hfull⟩
      · cases hopen.symm.trans hcomplete
      · exact hf.holds.written_eq.symm.trans hfull
  · intro hcomplete held
    obtain ⟨hitem, hall⟩ := hfollows.answers hcomplete held
    rw [hf.holds.chunks_eq] at hall
    exact ⟨hitem, _, hall, hrest⟩

/-- A frame of 4 bytes, one chunk of it empty and one too long. One reader takes a chunk and then all the
    rest, and its clone takes chunks until it is told the end. -/
def mixedReads : List Move :=
  [.subscribe, .write [1, 2], .readChunk 0 [.frameWriter 0], .clone 0, .write [], .close,
    .write [3, 4, 5], .write [3, 4], .readAll 0 [.frameWriter 0], .close, .readAll 0 [], .readChunk 1 [],
    .readChunk 1 [], .readChunk 1 []]

theorem writers_and_readers_agree_mixed :
    let f : FrameFollowing := ⟨⟨#[⟨[[1, 2], [], [3, 4]], 4, some .complete⟩], #[], #[], #[]⟩,
      [[1, 2], [], [3, 4]],
      [⟨⟨0, 4, 3⟩, [[1, 2], [3, 4]], true⟩, ⟨⟨0, 4, 3⟩, [[1, 2], [], [3, 4]], true⟩]⟩
    4 < Frame.countLimit ∧ (start Store.empty 4).run? ⟨0, 4⟩ mixedReads = some f ∧
      (∀ r ∈ f.followers, r.given.flatten = f.accepted.flatten) ∧ f.accepted.flatten.length = 4 := by
  intro f
  have hword : 4 < Frame.countLimit := by decide
  have hrun : (start Store.empty 4).run? ⟨0, 4⟩ mixedReads = some f := rfl
  obtain ⟨-, -, hreads⟩ := writers_and_readers_agree Store.empty 4 hword mixedReads f hrun
  have hended : ∀ r ∈ f.followers, r.ended = true := by decide
  exact ⟨hword, hrun, fun r hr => ((hreads r hr).2.1 (hended r hr)).1, rfl⟩

end FrameFollowing

end LiveMedia.Live
