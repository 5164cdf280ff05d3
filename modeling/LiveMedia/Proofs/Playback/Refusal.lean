import LiveMedia.Proofs.Live.Ownership
import LiveMedia.Proofs.Playback.Grouping
import Mathlib.Data.List.Induction

/-!
# Writes that fail

A publisher has the group that it fills for itself, but its track may be closed or aborted by another hand at
any time. `Reached` is all that can happen to a publisher: it writes, it closes, and in between the store
changes in any way that spares the group being filled. What such a publisher answers to a frame is one of the
five cases of `Answers` (`Standing.answers`).

A failed write should leave everything as it was. That is so of every frame but one: a keyframe first ends the
current group, and only then finds that the track takes no other. The ended group does not come back, so every
later frame is refused for want of a keyframe, although keyframes were written before. Whether there is a
group is told by the log of what was done (`KeyframeHolds`), which is the invariant of a run
(`Reached.standing`).
-/

namespace LiveMedia.Playback.Publisher

open LiveMedia.Wire LiveMedia.Live

-- ── what was done ───────────────────────────────────────────────────

/-- One call of a publisher, with the answer to a frame. -/
inductive Deed where
  | write (f : MediaFrame) (answer : Except MediaError Unit)
  | close

/-- A keyframe was written. -/
inductive Deed.Begins : Deed → Prop where
  | keyframe {f : MediaFrame} : f.keyframe = true → Begins (.write f (.ok ()))

/-- A keyframe was refused, or the track was to be closed. -/
inductive Deed.Ends : Deed → Prop where
  | refused {f : MediaFrame} {e : MediaError} : f.keyframe = true → Ends (.write f (.error e))
  | close : Ends .close

theorem Deed.not_ends_of_begins {d : Deed} (h : d.Begins) : ¬ d.Ends := by
  cases h with
  | keyframe _ => intro h; cases h

/-- Some keyframe was written, and none was refused and nothing was closed since then. -/
def KeyframeHolds (log : List Deed) : Prop :=
  ∃ before d after, log = before ++ d :: after ∧ d.Begins ∧ ∀ d' ∈ after, ¬ d'.Ends

theorem not_keyframeHolds_nil : ¬ KeyframeHolds [] := by
  rintro ⟨before, d, after, heq, -, -⟩
  exact List.append_ne_nil_of_right_ne_nil _ (List.cons_ne_nil d after) heq.symm

/-- The last call decides, unless it says nothing. -/
theorem keyframeHolds_append_iff {log : List Deed} {d : Deed} :
    KeyframeHolds (log ++ [d]) ↔ d.Begins ∨ (¬ d.Ends ∧ KeyframeHolds log) := by
  constructor
  · rintro ⟨before, d', after, heq, hbegins, hafter⟩
    -- the call that begins is the last one, or it is in the log that was there before
    induction after using List.reverseRecOn with
    | nil =>
        obtain ⟨-, hd⟩ := List.append_inj' heq rfl
        obtain rfl := List.singleton_inj.mp hd
        exact .inl hbegins
    | append_singleton after last _ =>
        rw [← List.cons_append, ← List.append_assoc] at heq
        obtain ⟨rfl, hd⟩ := List.append_inj' heq rfl
        obtain rfl := List.singleton_inj.mp hd
        refine .inr ⟨hafter d (List.mem_append_right _ List.mem_cons_self), before, d', after, rfl, hbegins, ?_⟩
        exact fun d'' hd'' => hafter d'' (List.mem_append_left _ hd'')
  · rintro (hbegins | ⟨hends, before, d', after, rfl, hbegins, hafter⟩)
    · exact ⟨log, d, [], rfl, hbegins, fun d' hd' => absurd hd' List.not_mem_nil⟩
    · refine ⟨before, d', after ++ [d], by rw [List.append_assoc, List.cons_append], hbegins, ?_⟩
      intro d'' hd''
      rcases List.mem_append.mp hd'' with hmem | hmem
      · exact hafter d'' hmem
      · exact List.mem_singleton.mp hmem ▸ hends

theorem not_keyframeHolds_append {log : List Deed} {d : Deed} (h : d.Ends) :
    ¬ KeyframeHolds (log ++ [d]) := by
  intro hholds
  rcases keyframeHolds_append_iff.mp hholds with hbegins | ⟨hends, -⟩
  · exact Deed.not_ends_of_begins hbegins h
  · exact hends h

/-- A frame that is no keyframe says nothing. -/
theorem keyframeHolds_append_other_iff {log : List Deed} {f : MediaFrame} (hf : f.keyframe = false)
    (answer : Except MediaError Unit) : KeyframeHolds (log ++ [.write f answer]) ↔ KeyframeHolds log := by
  have hbegins : ¬ (Deed.write f answer).Begins := by
    intro h
    cases h with
    | keyframe hkey => cases hf.symm.trans hkey
  have hends : ¬ (Deed.write f answer).Ends := by
    intro h
    cases h with
    | refused hkey => cases hf.symm.trans hkey
  rw [keyframeHolds_append_iff, or_iff_right hbegins, and_iff_right hends]

-- ── where a publisher stands ────────────────────────────────────────

/-- A publisher after these calls, at a store that others may change as well. They cannot reach the group
    that is being filled. -/
inductive Reached (t : TrackWriter) : List Deed → Store → Publisher → Prop where
  | start (s : Store) : Reached t [] s (.start t)
  | write {log : List Deed} {s s' : Store} {p p' : Publisher} {f : MediaFrame}
      {answer : Except MediaError Unit} : Reached t log s p → p.write? s f = some (answer, p', s') →
      Reached t (log ++ [.write f answer]) s' p'
  | close {log : List Deed} {s s' : Store} {p p' : Publisher} {answer : Except MediaError Unit} :
      Reached t log s p → p.close s = (answer, p', s') → Reached t (log ++ [.close]) s' p'
  | others {log : List Deed} {s s' : Store} {p : Publisher} : Reached t log s p →
      (∀ g ∈ p.current, Store.Spares g.group s s') → Reached t log s' p

/-- Whatever becomes of a track, the groups are spared. -/
theorem Reached.setTrack {t : TrackWriter} {log : List Deed} {s : Store} {p : Publisher}
    (h : Reached t log s p) (id : TrackId) (x : Track) : Reached t log (s.setTrack id x) p :=
  h.others fun _ _ => ⟨rfl, fun _ _ => rfl, Nat.le_refl _, Nat.le_refl _⟩

/-- There is a group just if a keyframe holds, and it is being filled. -/
inductive Standing (log : List Deed) (s : Store) : Publisher → Prop where
  | idle {t : TrackWriter} : ¬ KeyframeHolds log → Standing log s ⟨t, none⟩
  | filling {t : TrackWriter} {g : GroupWriter} {base : FrameId} {ws : List FrameWriter} :
      KeyframeHolds log → Store.Filling base s g ws none → Standing log s ⟨t, some g⟩

/-- The answers to a frame. -/
inductive Answers (s : Store) (p : Publisher) (f : MediaFrame) :
    Option (Except MediaError Unit × Publisher × Store) → Prop where
  | unnumbered : f.keyframe = true → Answers s p f none
  | missing : f.keyframe = false → p.current = none → Answers s p f (some (.error .missingKeyframe, p, s))
  | added {g : GroupWriter} {base : FrameId} {ws : List FrameWriter} {s' : Store} : f.keyframe = false →
      p.current = some g → Store.Filling base s' g ws none → Answers s p f (some (.ok (), p, s'))
  | begun {g : GroupWriter} {base : FrameId} {ws : List FrameWriter} {s' : Store} : f.keyframe = true →
      Store.Filling base s' g ws none → Answers s p f (some (.ok (), ⟨p.track, some g⟩, s'))
  /-- The current group was ended, and the track took no other. -/
  | refused {e : TransportError} {s' : Store} : f.keyframe = true →
      p.endGroup s = (.ok s', ⟨p.track, none⟩) → s'.appendGroup? p.track = some (.error e) →
      Answers s p f (some (.error (.transport e), ⟨p.track, none⟩, s'))

section Writing

variable {log : List Deed} {s s' : Store} {p p' : Publisher} {f : MediaFrame}

/-- The end of a group that is being filled does not fail. -/
theorem Standing.endGroup (h : Standing log s p) : ∃ s', p.endGroup s = (.ok s', ⟨p.track, none⟩) := by
  cases h with
  | idle _ => exact ⟨s, rfl⟩
  | filling _ hfilling =>
      obtain ⟨s', hclose, -, -⟩ := hfilling.closeGroup
      refine ⟨s', ?_⟩
      rw [Publisher.endGroup]
      dsimp only
      rw [hclose]
      rfl

/-- **A frame is written, or refused for one of two reasons**: there is no keyframe before it, or it is one
    and the track takes no group. -/
theorem Standing.answers (h : Standing log s p) (f : MediaFrame) : Answers s p f (p.write? s f) := by
  cases hf : f.keyframe with
  | true =>
      obtain ⟨s₁, hend⟩ := h.endGroup
      rw [Publisher.write?, if_pos hf, hend]
      dsimp only
      rw [Publisher.beginGroup?]
      dsimp only
      cases happend : s₁.appendGroup? p.track with
      | none => exact .unnumbered hf
      | some made =>
          cases made with
          | error e => exact .refused hf hend happend
          | ok made =>
              obtain ⟨g, s₂⟩ := made
              obtain ⟨sequence, -, hcreate⟩ := Option.map_eq_some_iff.mp happend
              -- nobody else has the new group, so its first frame is written
              obtain ⟨c, s₃, hwrite, hfilling, -, -⟩ := (Store.Filling.fresh hcreate).writeFrame f.chunks
              dsimp only [Publisher.writeCurrent, Publisher.writeTo]
              rw [hwrite]
              exact .begun hf hfilling
  | false =>
      rw [Publisher.write?, hf, if_neg Bool.false_ne_true]
      cases h with
      | idle _ => exact .missing hf rfl
      | filling _ hfilling =>
          obtain ⟨c, s', hwrite, hfilling', -, -⟩ := hfilling.writeFrame f.chunks
          dsimp only [Publisher.writeCurrent, Publisher.writeTo]
          rw [hwrite]
          exact .added hf rfl hfilling'

theorem Standing.write {answer : Except MediaError Unit} (h : Standing log s p)
    (hwrite : p.write? s f = some (answer, p', s')) : Standing (log ++ [.write f answer]) s' p' := by
  have hanswers := h.answers f
  rw [hwrite] at hanswers
  cases hanswers with
  | missing hf hnone =>
      cases h with
      | idle hnot => exact .idle fun hholds => hnot ((keyframeHolds_append_other_iff hf _).mp hholds)
      | filling _ _ => cases hnone
  | added hf hsome hfilling =>
      cases h with
      | idle _ => cases hsome
      | filling hholds _ =>
          obtain rfl := Option.some.inj hsome
          exact .filling ((keyframeHolds_append_other_iff hf _).mpr hholds) hfilling
  | begun hf hfilling => exact .filling (keyframeHolds_append_iff.mpr (.inl (.keyframe hf))) hfilling
  | refused hf _ _ => exact .idle (not_keyframeHolds_append (.refused hf))

theorem Standing.close {answer : Except MediaError Unit} (h : Standing log s p)
    (hclose : p.close s = (answer, p', s')) : Standing (log ++ [.close]) s' p' := by
  have hnot : ¬ KeyframeHolds (log ++ [.close]) := not_keyframeHolds_append .close
  obtain ⟨s₁, hend⟩ := h.endGroup
  rw [Publisher.close, hend] at hclose
  dsimp only at hclose
  cases htrack : s₁.closeTrack p.track with
  | error e =>
      rw [htrack] at hclose
      obtain ⟨-, rfl, -⟩ := by simpa only [Prod.mk.injEq] using hclose
      exact .idle hnot
  | ok s₂ =>
      rw [htrack] at hclose
      obtain ⟨-, rfl, -⟩ := by simpa only [Prod.mk.injEq] using hclose
      exact .idle hnot

/-- Others do not reach the group. -/
theorem Standing.others (h : Standing log s p) (hspares : ∀ g ∈ p.current, Store.Spares g.group s s') :
    Standing log s' p := by
  cases h with
  | idle hnot => exact .idle hnot
  | filling hholds hfilling => exact .filling hholds ((hspares _ rfl).filling hfilling)

/-- **There is a group just as long as a keyframe holds**, whatever others do to the track. -/
theorem Reached.standing {t : TrackWriter} (h : Reached t log s p) : Standing log s p := by
  induction h with
  | start s => exact .idle not_keyframeHolds_nil
  | write _ hwrite ih => exact ih.write hwrite
  | close _ hclose ih => exact ih.close hclose
  | others _ hspares ih => exact ih.others hspares

end Writing

-- ── what a failed write changes ─────────────────────────────────────

section Failing

variable {log : List Deed} {s s' : Store} {p p' : Publisher}

/-- The group that is ended is complete with the frames that it has, and nothing else is touched. -/
theorem Standing.endGroup_eq {g : GroupWriter} {q : Publisher} (h : Standing log s p)
    (hg : p.current = some g) (hend : p.endGroup s = (.ok s', q)) :
    s' = s.setGroup g.group { s.group g.group with ending := some .complete } := by
  cases h with
  | idle _ => cases hg
  | @filling t g' base ws hholds hfilling =>
      obtain rfl : g' = g := Option.some.inj hg
      have hclosed : (s.group g'.group).close =
          .ok { s.group g'.group with ending := some .complete } := by
        rw [hfilling.group_eq]
        rfl
      rw [Publisher.endGroup] at hend
      dsimp only at hend
      rw [Store.closeGroup, hclosed] at hend
      exact (Except.ok.inj (Prod.mk.inj hend).1).symm

/-- As long as there is a group every frame that is no keyframe goes to it. -/
theorem Standing.exists_added {g : GroupWriter} {d : MediaFrame} (h : Standing log s p)
    (hg : p.current = some g) (hd : d.keyframe = false) : ∃ s', p.write? s d = some (.ok (), p, s') := by
  have hanswers := h.answers d
  generalize p.write? s d = answered at hanswers
  cases hanswers with
  | unnumbered hkey => cases hd.symm.trans hkey
  | missing _ hnone => cases hg.symm.trans hnone
  | @added _ _ _ s' _ _ _ => exact ⟨s', rfl⟩
  | begun hkey _ => cases hd.symm.trans hkey
  | refused hkey _ _ => cases hd.symm.trans hkey

theorem write?_missing {d : MediaFrame} (hnone : p.current = none) (hd : d.keyframe = false) (s : Store) :
    p.write? s d = some (.error .missingKeyframe, p, s) := by
  rw [write?, hd, if_neg Bool.false_ne_true, writeCurrent, hnone]

/-- **A failed write changes nothing, unless it was a keyframe behind a group.** Whatever a publisher did, and
    whatever others did to its track, its failures are these.

    A frame that is no keyframe is refused if no keyframe holds: none was written, or since the last one a
    keyframe was refused or the track was to be closed. A keyframe is refused if the track takes no group.
    In both cases everything is as it was, except that the second closes the group that was being filled.
    Then the publisher has none: every frame that would have gone to it is refused from now on. -/
theorem failed_write_changes_nothing_iff {t : TrackWriter} (h : Reached t log s p) {f : MediaFrame}
    {e : MediaError} (hwrite : p.write? s f = some (.error e, p', s')) :
    ((p', s') = (p, s) ↔ f.keyframe = false ∨ p.current = none) ∧
    (∀ g : GroupWriter, p.current = some g → f.keyframe = true → p' = ⟨p.track, none⟩ ∧
      s' = s.setGroup g.group { s.group g.group with ending := some .complete } ∧
      ∀ d : MediaFrame, d.keyframe = false → (∃ added, p.write? s d = some (.ok (), p, added)) ∧
        p'.write? s' d = some (.error .missingKeyframe, p', s')) ∧
    (f.keyframe = false → e = .missingKeyframe ∧ ¬ KeyframeHolds log) ∧
    (f.keyframe = true → ∃ refusal, e = .transport refusal ∧
      s'.appendGroup? p.track = some (.error refusal)) := by
  have hstanding := h.standing
  have hanswers := hstanding.answers f
  rw [hwrite] at hanswers
  cases hanswers with
  | missing hf hnone =>
      refine ⟨iff_of_true rfl (.inl hf), fun g hg => ?_, fun _ => ⟨rfl, ?_⟩, fun hkey => ?_⟩
      · cases hnone.symm.trans hg
      · cases hstanding with
        | idle hnot => exact hnot
        | filling _ _ => cases hnone
      · cases hf.symm.trans hkey
  | @refused refusal _ hf hend happend =>
      have hdelta : ¬ f.keyframe = false := fun hdelta => by cases hf.symm.trans hdelta
      refine ⟨⟨fun hsame => ?_, fun hnone => ?_⟩, fun g hg _ => ⟨rfl, hstanding.endGroup_eq hg hend, ?_⟩,
        fun h => absurd h hdelta, fun _ => ⟨refusal, rfl, happend⟩⟩
      · exact .inr (congrArg (fun x => x.1.current) hsame).symm
      · have hnone := hnone.resolve_left hdelta
        obtain ⟨track, current⟩ := p
        obtain rfl : current = none := hnone
        rw [Except.ok.inj (Prod.mk.inj hend).1]
      · exact fun d hd => ⟨hstanding.exists_added hg hd, write?_missing rfl hd s'⟩

end Failing

-- ── a keyframe that is refused ──────────────────────────────────────

/-- A frame with one byte. -/
def sample (keyframe : Bool) : MediaFrame := ⟨⟨⟨0⟩⟩, keyframe, [[1]]⟩

/-- A publisher wrote a keyframe, another hand aborted the track, and the next keyframe was refused. -/
theorem failed_write_changes_nothing_iff_aborted :
    ∃ p s p' s', Reached ⟨0, ⟨"video", 0⟩⟩ [.write (sample true) (.ok ())] s p ∧
      p.write? s (sample true) = some (.error (.transport .cancel), p', s') ∧ (p', s') ≠ (p, s) ∧
      p'.write? s' (sample false) = some (.error .missingKeyframe, p', s') := by
  have hfirst : (start ⟨0, ⟨"video", 0⟩⟩).write? (Store.empty.newTrack ⟨"video", 0⟩).2 (sample true) =
      some (.ok (), _, _) := rfl
  have hreached := ((Reached.start _).write hfirst).setTrack 0 ⟨[⟨0, 0⟩], some 0, some (.aborted .cancel)⟩
  obtain ⟨hsame, hforgets, -, -⟩ := failed_write_changes_nothing_iff hreached
    (rfl : Publisher.write? _ _ (sample true) = some (.error (.transport .cancel), _, _))
  obtain ⟨-, -, hnext⟩ := hforgets ⟨0, 0⟩ rfl rfl
  refine ⟨_, _, _, _, hreached, rfl, fun heq => ?_, (hnext (sample false) rfl).2⟩
  rcases hsame.mp heq with hdelta | hnone
  · cases hdelta
  · cases hnone

/-- **A refused keyframe makes the publisher forget the last.** The track was closed by another hand while a
    group was filled. The next frame would have gone to this group; behind a refused keyframe it does not. -/
theorem refused_keyframe_forgets_the_last :
    let (t, s₀) := Store.empty.newTrack ⟨"video", 0⟩
    ∃ p s₁ s₂ p₃ s₃, (Publisher.start t).write? s₀ (sample true) = some (.ok (), p, s₁) ∧
      s₁.closeTrack t = .ok s₂ ∧
      (∃ s, p.write? s₂ (sample false) = some (.ok (), p, s)) ∧
      p.write? s₂ (sample true) = some (.error (.transport .closed), p₃, s₃) ∧
      p₃.write? s₃ (sample false) = some (.error .missingKeyframe, p₃, s₃) :=
  ⟨_, _, _, _, _, rfl, rfl, ⟨_, rfl⟩, rfl, rfl⟩

end LiveMedia.Playback.Publisher
