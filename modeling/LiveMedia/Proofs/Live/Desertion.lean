import LiveMedia.Proofs.Live.GroupFollowing
import LiveMedia.Session.Perform

/-!
# Groups that nobody writes any more

Writers may go away at any point, with a group that is open and frames that are not finished. `Deserted`
says that nobody has a writer of the group or of one of its frames. A reader that would wait for the group
is told so, and so is a reader of a frame that stands alone.

A group itself counts as a writer of its frames, though, as long as anybody holds the group, and who reads a
group holds it. Such a frame is `Stranded`: it was not finished, nobody can finish it, and its readers
wait. There is no other wait: a deserted group leaves a reader waiting exactly if one of its frames is
stranded.
-/

namespace LiveMedia.Live

-- ── waiting ─────────────────────────────────────────────────────────

theorem ok_ne_pending {α : Type} (a : α) :
    (.ok a : Attempt TransportError α) ≠ Attempt.pending := by
  intro h
  cases h

theorem failure_ne_pending {α : Type} (e : TransportError) :
    (Attempt.failure e : Attempt TransportError α) ≠ Attempt.pending := by
  intro h
  cases h

/-- Who waits is one to whom there is nothing to say, while somebody can still write. -/
theorem orDropped_eq_pending_iff {α : Type} {attempt : Attempt TransportError α} {isWritten : Bool} :
    orDropped attempt isWritten = .pending ↔ attempt = .pending ∧ isWritten = true := by
  cases attempt with
  | ok a => exact iff_of_false (ok_ne_pending a) fun h => ok_ne_pending a h.1
  | error h =>
      cases h with
      | failed e => exact iff_of_false (failure_ne_pending e) fun h => failure_ne_pending e h.1
      | pending =>
          cases isWritten with
          | true => exact iff_of_true rfl ⟨rfl, rfl⟩
          | false =>
              exact iff_of_false (failure_ne_pending .dropped) fun h => Bool.false_ne_true h.2

/-- Who would wait for nobody is told that the writers went away. -/
theorem orDropped_of_pending {α : Type} {attempt : Attempt TransportError α} {isWritten : Bool}
    (h : attempt = .pending) (hwritten : isWritten = false) :
    orDropped attempt isWritten = .failure .dropped := by
  rw [h, hwritten]
  rfl

theorem orDropped_false_ne_pending {α : Type} (attempt : Attempt TransportError α) :
    orDropped attempt false ≠ .pending :=
  fun h => Bool.false_ne_true (orDropped_eq_pending_iff.mp h).2

namespace Frame

variable {f : Frame}

theorem nextChunk_eq_pending_iff {position : Nat} :
    f.nextChunk position = .pending ↔ f.ending = none ∧ f.chunks[position]? = none := by
  obtain ⟨chunks, written, ending⟩ := f
  rcases ending with _ | (_ | e)
  · rw [nextChunk]
    dsimp only
    cases chunks[position]? with
    | none => exact iff_of_true rfl ⟨rfl, rfl⟩
    | some chunk => exact iff_of_false (ok_ne_pending _) fun h => Option.some_ne_none _ h.2
  · exact iff_of_false (ok_ne_pending _) fun h => Option.some_ne_none _ h.1
  · exact iff_of_false (failure_ne_pending e) fun h => Option.some_ne_none _ h.1

theorem remainder_eq_pending_iff {position : Nat} :
    f.remainder position = .pending ↔ f.ending = none := by
  obtain ⟨chunks, written, ending⟩ := f
  rcases ending with _ | (_ | e)
  · exact iff_of_true rfl rfl
  · exact iff_of_false (ok_ne_pending _) (Option.some_ne_none _)
  · exact iff_of_false (failure_ne_pending e) (Option.some_ne_none _)

theorem outcome_eq_pending_iff : f.outcome = .pending ↔ f.ending = none := by
  obtain ⟨chunks, written, ending⟩ := f
  rcases ending with _ | (_ | e)
  · exact iff_of_true rfl rfl
  · exact iff_of_false (ok_ne_pending _) (Option.some_ne_none _)
  · exact iff_of_false (failure_ne_pending e) (Option.some_ne_none _)

end Frame

namespace Store

variable {s : Store} {held : Holdings}

theorem readChunk_fst (s : Store) (held : Holdings) (c : FrameCursor) : (s.readChunk held c).1 =
    orDropped ((s.frame c.frame).nextChunk c.position) (s.frameIsWritten held c.frame) := by
  rw [readChunk]
  split
  · next h => exact h.symm
  · rfl

/-- Who asks for a whole frame waits for its turn, or for the rest of the frame. -/
theorem readFrame_eq_pending_iff {c : GroupCursor} : (s.readFrame held c).1 = .pending ↔
    (s.nextFrame held c).1 = .pending ∨
      ∃ frame, (s.nextFrame held c).1 = .ok (some frame) ∧ (s.readAll held frame).1 = .pending := by
  rw [readFrame]
  rcases s.nextFrame held c with ⟨(e | _) | (_ | frame), c'⟩
  · refine iff_of_false (failure_ne_pending e) ?_
    rintro (h | ⟨_, h, -⟩) <;> cases h
  · exact iff_of_true rfl (.inl rfl)
  · refine iff_of_false (ok_ne_pending none) ?_
    rintro (h | ⟨_, h, -⟩) <;> cases h
  · -- the answer of the frame is passed on
    dsimp only
    rcases hread : s.readAll held frame with ⟨(e | _) | payload, c''⟩
    · refine iff_of_false (failure_ne_pending e) ?_
      rintro (h | ⟨_, h, hpending⟩) <;> cases h
      rw [hread] at hpending
      cases hpending
    · exact iff_of_true rfl (.inr ⟨frame, rfl, congrArg Prod.fst hread⟩)
    · refine iff_of_false (ok_ne_pending _) ?_
      rintro (h | ⟨_, h, hpending⟩) <;> cases h
      rw [hread] at hpending
      cases hpending

/-- A group is looked at without waiting once nobody writes it. -/
theorem nextFrame_ne_pending {c : GroupCursor} (h : held.writesGroup c.group = false) :
    (s.nextFrame held c).1 ≠ .pending := by
  rw [nextFrame, h]
  cases c.active with
  | some frame => exact ok_ne_pending _
  | none =>
      have hnot := orDropped_false_ne_pending ((s.group c.group).nextFrame c.position)
      dsimp only
      generalize orDropped ((s.group c.group).nextFrame c.position) false = x at hnot ⊢
      rcases x with (e | _) | (_ | w)
      · exact failure_ne_pending e
      · exact absurd rfl hnot
      · exact ok_ne_pending none
      · exact ok_ne_pending _

-- ── what a held group does to its frames ────────────────────────────

/-- The frame was not finished, and a group that somebody holds keeps it from being given up. -/
def Stranded (s : Store) (held : Holdings) (id : FrameId) : Prop :=
  (s.frame id).ending = none ∧ s.Keeps held id

end Store

-- ── deserted groups ─────────────────────────────────────────────────

/-- Nobody writes the group any more, or one of its frames. -/
structure Deserted (s : Store) (held : Holdings) (g : GroupId) : Prop where
  group : .groupWriter g ∉ held
  frames : ∀ w ∈ (s.group g).frames, .frameWriter w.frame ∉ held

namespace Deserted

variable {s : Store} {held : Holdings} {g : GroupId} {w : FrameWriter} {c : FrameCursor}

theorem writesGroup_eq_false (h : Deserted s held g) : held.writesGroup g = false := by
  rw [Holdings.writesGroup, List.contains_eq_mem]
  exact decide_eq_false h.group

theorem frameIsWritten_iff (h : Deserted s held g) (hw : w ∈ (s.group g).frames) :
    s.frameIsWritten held w.frame = true ↔ s.Keeps held w.frame :=
  Store.frameIsWritten_iff.trans (or_iff_right (h.frames w hw))

-- The reads of a frame that the group has.

theorem readChunk_eq_pending_iff (h : Deserted s held g) (hw : w ∈ (s.group g).frames)
    (hc : c.frame = w.frame) : (s.readChunk held c).1 = .pending ↔
      s.Stranded held w.frame ∧ (s.frame w.frame).chunks[c.position]? = none := by
  rw [Store.readChunk_fst, orDropped_eq_pending_iff, Frame.nextChunk_eq_pending_iff, hc,
    h.frameIsWritten_iff hw]
  exact and_right_comm

theorem readAll_eq_pending_iff (h : Deserted s held g) (hw : w ∈ (s.group g).frames)
    (hc : c.frame = w.frame) : (s.readAll held c).1 = .pending ↔ s.Stranded held w.frame := by
  rw [Store.readAll_fst, orDropped_eq_pending_iff, Frame.remainder_eq_pending_iff, hc,
    h.frameIsWritten_iff hw]
  exact Iff.rfl

theorem frameOutcome_eq_pending_iff (h : Deserted s held g) (hw : w ∈ (s.group g).frames)
    (hc : c.frame = w.frame) : s.frameOutcome held c = .pending ↔ s.Stranded held w.frame := by
  rw [Store.frameOutcome, orDropped_eq_pending_iff, Frame.outcome_eq_pending_iff, hc,
    h.frameIsWritten_iff hw]
  exact Iff.rfl

/-- Who reads a frame that is not kept is told that its writers went away, behind what they wrote. -/
theorem dropped_of_not_keeps (h : Deserted s held g) (hw : w ∈ (s.group g).frames)
    (hopen : (s.frame w.frame).ending = none) (hkeeps : ¬ s.Keeps held w.frame)
    (hc : c.frame = w.frame) :
    s.frameOutcome held c = .failure .dropped ∧ (s.readAll held c).1 = .failure .dropped ∧
      ((s.frame w.frame).chunks[c.position]? = none →
        (s.readChunk held c).1 = .failure .dropped) := by
  have hwritten : s.frameIsWritten held c.frame = false := by
    rw [hc, ← Bool.not_eq_true, h.frameIsWritten_iff hw]
    exact hkeeps
  have hended : (s.frame c.frame).ending = none := hc ▸ hopen
  refine ⟨?_, ?_, ?_⟩
  · exact orDropped_of_pending (Frame.outcome_eq_pending_iff.mpr hended) hwritten
  · rw [Store.readAll_fst]
    exact orDropped_of_pending (Frame.remainder_eq_pending_iff.mpr hended) hwritten
  · intro hlast
    rw [Store.readChunk_fst]
    exact orDropped_of_pending (Frame.nextChunk_eq_pending_iff.mpr ⟨hended, hc ▸ hlast⟩) hwritten

-- The reads of the group.

theorem groupOutcome_ne_pending (h : Deserted s held g) {c : GroupCursor} (hc : c.group = g) :
    s.groupOutcome held c ≠ .pending := by
  rw [Store.groupOutcome, hc, h.writesGroup_eq_false]
  exact orDropped_false_ne_pending _

/-- Who was given all frames of a group that was not closed is told that its writers went away. -/
theorem dropped_of_open (h : Deserted s held g) (hopen : (s.group g).ending = none)
    {r : GroupFollower} (hr : GroupFollows g s r) :
    s.groupOutcome held r.cursor = .failure .dropped ∧
      (r.given.length = (s.group g).frames.length →
        s.nextFrame held r.cursor = (.failure .dropped, r.cursor) ∧
        s.readFrame held r.cursor = (.failure .dropped, r.cursor)) := by
  refine ⟨?_, ?_⟩
  · have houtcome : (s.group r.cursor.group).outcome = .pending := by
      rw [hr.group_eq, Group.outcome, hopen]
    exact orDropped_of_pending houtcome (hr.group_eq ▸ h.writesGroup_eq_false)
  · intro hall
    obtain ⟨hactive, hend⟩ := hr.at_end hall
    have hpending : (s.group g).nextFrame r.cursor.position = .pending := by
      rw [Group.nextFrame, hopen, hend]
    have hnext : s.nextFrame held r.cursor = (.failure .dropped, r.cursor) := by
      rw [Store.nextFrame, hactive]
      dsimp only
      rw [hr.group_eq, orDropped_of_pending hpending h.writesGroup_eq_false]
      rfl
    refine ⟨hnext, ?_⟩
    rw [Store.readFrame, hnext]
    rfl

end Deserted

/-- Somebody who reads the group, or one of its frames, has to wait. -/
def GroupFollowing.Waits (f : GroupFollowing) (g : GroupId) (held : Holdings) : Prop :=
  (∃ r ∈ f.followers, (f.store.nextFrame held r.cursor).1 = .pending ∨
    (f.store.readFrame held r.cursor).1 = .pending ∨
    f.store.groupOutcome held r.cursor = .pending) ∨
  ∃ w ∈ (f.store.group g).frames, ∃ c : FrameCursor, c.frame = w.frame ∧
    ((f.store.readChunk held c).1 = .pending ∨ (f.store.readAll held c).1 = .pending ∨
      f.store.frameOutcome held c = .pending)

namespace GroupFollowing

/-- A whole frame is waited for exactly if the next frame is stranded. -/
theorem readFrame_eq_pending_iff {s : Store} {held : Holdings} {g : GroupId} {r : GroupFollower}
    (hd : Deserted s held g) (hr : GroupFollows g s r) : (s.readFrame held r.cursor).1 = .pending ↔
      ∃ c, (s.nextFrame held r.cursor).1 = .ok (some c) ∧ s.Stranded held c.frame := by
  have hgroup : held.writesGroup r.cursor.group = false := hr.group_eq ▸ hd.writesGroup_eq_false
  rw [Store.readFrame_eq_pending_iff, or_iff_right (Store.nextFrame_ne_pending hgroup)]
  refine exists_congr fun c => and_congr_right fun hc => ?_
  obtain ⟨w, hw, rfl⟩ := hr.reader_is_next hc
  exact hd.readAll_eq_pending_iff (List.mem_of_getElem? hw) rfl

theorem waits_iff {f : GroupFollowing} {g : GroupWriter} {held : Holdings} (hf : Sound g f)
    (hd : Deserted f.store held g.group) :
    f.Waits g.group held ↔ ∃ w ∈ (f.store.group g.group).frames, f.store.Stranded held w.frame := by
  constructor
  · rintro (⟨r, hr, hnext | hread | houtcome⟩ | ⟨w, hw, c, hc, hchunk | hall | houtcome⟩)
    · have hgroup : held.writesGroup r.cursor.group = false :=
        (hf r hr).group_eq ▸ hd.writesGroup_eq_false
      exact absurd hnext (Store.nextFrame_ne_pending hgroup)
    · obtain ⟨c, hc, hstranded⟩ := (readFrame_eq_pending_iff hd (hf r hr)).mp hread
      obtain ⟨w, hw, rfl⟩ := (hf r hr).reader_is_next hc
      exact ⟨w, List.mem_of_getElem? hw, hstranded⟩
    · exact absurd houtcome (hd.groupOutcome_ne_pending (hf r hr).group_eq)
    · exact ⟨w, hw, ((hd.readChunk_eq_pending_iff hw hc).mp hchunk).1⟩
    · exact ⟨w, hw, (hd.readAll_eq_pending_iff hw hc).mp hall⟩
    · exact ⟨w, hw, (hd.frameOutcome_eq_pending_iff hw hc).mp houtcome⟩
  · rintro ⟨w, hw, hstranded⟩
    exact .inr ⟨w, hw, w.cursor, rfl, .inr (.inl ((hd.readAll_eq_pending_iff hw rfl).mpr hstranded))⟩

/-- **A deserted group leaves a reader waiting exactly if one of its frames is stranded.** After any moves,
    when nobody has a writer of the group or of one of its frames: a read waits only for a frame that was
    not finished, as long as somebody holds a group that has it; whoever reads the group does. A reader of
    any other frame that was not finished, and a reader at the end of a group that was not closed, is told
    that the writers went away. -/
theorem deserted_waits_iff_stranded (s : Store) (g : GroupWriter) (ms : List Move) (held : Holdings)
    (hd : Deserted ((start s).run g ms).store held g.group) :
    let f := (start s).run g ms
    let group := f.store.group g.group
    (f.Waits g.group held ↔ ∃ w ∈ group.frames, f.store.Stranded held w.frame) ∧
      (∀ r ∈ f.followers,
        ((f.store.readFrame held r.cursor).1 = .pending ↔ ∃ c,
          (f.store.nextFrame held r.cursor).1 = .ok (some c) ∧ f.store.Stranded held c.frame) ∧
        (group.ending = none → f.store.groupOutcome held r.cursor = .failure .dropped ∧
          (r.given.length = group.frames.length →
            f.store.nextFrame held r.cursor = (.failure .dropped, r.cursor) ∧
            f.store.readFrame held r.cursor = (.failure .dropped, r.cursor)))) ∧
      ∀ w ∈ group.frames, (f.store.frame w.frame).ending = none →
        (.groupCursor g.group ∈ held → f.store.Stranded held w.frame) ∧
        (¬ f.store.Stranded held w.frame → ∀ c : FrameCursor, c.frame = w.frame →
          f.store.frameOutcome held c = .failure .dropped ∧
          (f.store.readAll held c).1 = .failure .dropped ∧
          ((f.store.frame w.frame).chunks[c.position]? = none →
            (f.store.readChunk held c).1 = .failure .dropped)) := by
  intro f group
  have hf : Sound g f := (sound_start g s).run ms
  refine ⟨waits_iff hf hd, ?_, ?_⟩
  · intro r hr
    exact ⟨readFrame_eq_pending_iff hd (hf r hr), fun hopen => hd.dropped_of_open hopen (hf r hr)⟩
  · intro w hw hopen
    refine ⟨fun hheld => ⟨hopen, Store.keeps_of_cursor hw hheld⟩, ?_⟩
    intro hstranded c hc
    exact hd.dropped_of_not_keeps hw hopen (fun hkeeps => hstranded ⟨hopen, hkeeps⟩) hc

/-- Half of a frame is written, and a reader is given a reader of the frame. -/
def halfWritten : List Move :=
  [.write (.createFrame ⟨0, 1⟩ 4), .subscribe, .write (.writeChunk ⟨0, 4⟩ [97, 98]),
    .nextFrame 0 [.groupWriter 0, .frameWriter 0]]

/-- When all have gone but the reader of the frame, it is told so. -/
theorem deserted_waits_iff_stranded_dropped :
    let f := (start (Store.empty.newGroup 1).2).run ⟨0, 1⟩ halfWritten
    Deserted f.store [] 0 ∧ ¬ f.Waits 0 [] ∧
      f.store.readChunk [] ⟨0, 4, 0⟩ = (.ok (some [97, 98]), ⟨0, 4, 1⟩) ∧
      (f.store.readChunk [] ⟨0, 4, 1⟩).1 = .failure .dropped := by
  intro f
  have hd : Deserted f.store [] 0 := ⟨List.not_mem_nil, fun _ _ => List.not_mem_nil⟩
  obtain ⟨hwaits, -, hframes⟩ :=
    deserted_waits_iff_stranded (Store.empty.newGroup 1).2 ⟨0, 1⟩ halfWritten [] hd
  have hnot : ∀ id, ¬ f.store.Stranded [] id := by
    rintro id ⟨-, g, -, hheld⟩
    simp [Store.groupIsHeld, Store.trackIsHeld] at hheld
  have hw : ⟨0, 4⟩ ∈ (f.store.group 0).frames := by decide +kernel
  obtain ⟨-, hdropped⟩ := hframes ⟨0, 4⟩ hw rfl
  refine ⟨hd, ?_, rfl, (hdropped (hnot 0) ⟨0, 4, 1⟩ rfl).2.2 rfl⟩
  rw [hwaits]
  rintro ⟨w, -, hstranded⟩
  exact hnot w.frame hstranded

end GroupFollowing

/-- A group with a frame of four bytes, of which all writers go away; then its reader asks for the frame. -/
def desertedScript : List Session.Step :=
  [.newGroup 1 (some "g") (some "c"), .createFrame "g" 4 (some "f"), .drop "f", .drop "g",
    .readFrame "c"]

/-- **A deserted reader waits**: it is not told that the writers went away. -/
theorem deserted_reader_waits :
    let ran := Session.start.run desertedScript
    ran.1 = [.done, .size (some 4), .done, .done, .pending] ∧
      Deserted ran.2.store ran.2.holdings 0 := by
  intro ran
  have hholdings : ran.2.holdings = [.groupCursor 0] := rfl
  refine ⟨rfl, ?_⟩
  rw [hholdings]
  refine ⟨?_, ?_⟩
  · exact fun h => nomatch List.mem_singleton.mp h
  · exact fun _ _ h => nomatch List.mem_singleton.mp h

end LiveMedia.Live
