import LiveMedia.Proofs.Playback.History
import LiveMedia.Proofs.Playback.Publishing

/-!
# What the task of a group reports

The task of a group reads frames as they come. `Reads` is where it stands: it has reported the first frames
of the run that its group will hold in the end (`Foretold`), and what it reports next are the next of them.
As long as somebody writes the group, or it is complete, no read fails (`Reads.answer`), so the task ends at
the end of the group and not before, and when the group is complete it does end (`Reads.readGroup`).
-/

namespace LiveMedia.Live

open LiveMedia.Wire

-- ── groups that are written ─────────────────────────────────────────

/-- Who holds the writer of a group keeps the frames that it has. -/
theorem Store.frameIsWritten_of_writer {s : Store} {held : Holdings} {g : GroupId} {w : FrameWriter}
    (hw : w ∈ (s.group g).frames) (hheld : .groupWriter g ∈ held) :
    s.frameIsWritten held w.frame = true := by
  refine Store.frameIsWritten_iff.mpr (.inr ⟨g, ⟨w, hw, rfl⟩, ?_⟩)
  rw [Store.groupIsHeld, List.contains_iff_mem.mpr hheld, Bool.true_or, Bool.true_or]

/-- A wait is pending as long as something is written, unless it was aborted. -/
theorem Store.readAll_ne_failed {s : Store} {held : Holdings} {c : FrameCursor}
    (halive : ∀ e, (s.frame c.frame).ending ≠ some (.aborted e))
    (hwritten : s.frameIsWritten held c.frame = true) (err : TransportError) :
    (s.readAll held c).1 ≠ .error (.failed err) := by
  rw [Store.readAll_fst, hwritten, Frame.remainder]
  cases hending : (s.frame c.frame).ending with
  | none =>
      intro h
      cases h
  | some ending =>
      cases ending with
      | complete =>
          intro h
          cases h
      | aborted e => exact absurd hending (halive e)

/-- **No read of a group fails** that somebody writes, unless it or a frame of it was aborted. -/
theorem GroupFollows.readFrame_ne_failed {g : GroupId} {s : Store} {r : GroupFollower} {held : Holdings}
    (hr : GroupFollows g s r) (hheld : .groupWriter g ∈ held)
    (halive : ∀ e, (s.group g).ending ≠ some (.aborted e))
    (hframes : ∀ w ∈ (s.group g).frames, ∀ e, (s.frame w.frame).ending ≠ some (.aborted e))
    (err : TransportError) : (s.readFrame held r.cursor).1 ≠ .error (.failed err) := by
  cases hnext : (s.group g).frames[r.given.length]? with
  | some w =>
      have hw := List.mem_of_getElem? hnext
      have hread := Store.readAll_ne_failed (c := w.cursor) (hframes w hw)
        (Store.frameIsWritten_of_writer hw hheld) err
      rw [Store.readFrame, hr.nextFrame_eq_some held halive hnext]
      dsimp only
      cases hall : s.readAll held w.cursor with
      | mk attempt c =>
          rw [hall] at hread
          cases attempt with
          | ok payload =>
              intro h
              cases h
          | error h => exact fun heq => hread (congrArg Except.error (Except.error.inj heq))
  | none =>
      have hall := Nat.le_antisymm hr.length_given (List.getElem?_eq_none_iff.mp hnext)
      obtain ⟨hactive, hend⟩ := hr.at_end hall
      have hwrites : held.writesGroup g = true := List.contains_iff_mem.mpr hheld
      rw [Store.readFrame, Store.nextFrame, hactive]
      dsimp only
      rw [hr.group_eq, hwrites, Group.nextFrame]
      cases hending : (s.group g).ending with
      | none =>
          rw [hend]
          intro h
          cases h
      | some ending =>
          cases ending with
          | complete =>
              rw [hend]
              intro h
              cases h
          | aborted e => exact absurd hending (halive e)

end LiveMedia.Live

namespace LiveMedia.Playback

open LiveMedia.Wire LiveMedia.Live

-- ── what a group will hold ──────────────────────────────────────────

/-- The group will be complete with a run of frames. -/
def Foretold (s : Store) (e : GroupEntry) (run : List MediaFrame) : Prop :=
  ∃ fin, s.Grows fin ∧ fin.Complete e.group (run.map MediaFrame.encoded)

namespace Foretold

variable {s : Store} {e : GroupEntry} {run : List MediaFrame} {w : FrameWriter} {k : Nat}

theorem alive (h : Foretold s e run) (err : TransportError) :
    (s.group e.group).ending ≠ some (.aborted err) := by
  obtain ⟨fin, hgrows, hcomplete⟩ := h
  intro haborted
  have hending := (hgrows.group e.group).complete hcomplete.group (haborted ▸ Option.some_ne_none _)
  cases haborted.symm.trans hending

theorem frame_alive (h : Foretold s e run) (hw : w ∈ (s.group e.group).frames) (err : TransportError) :
    (s.frame w.frame).ending ≠ some (.aborted err) := by
  obtain ⟨fin, hgrows, hcomplete⟩ := h
  intro haborted
  have hthere := hcomplete.frames w ((hgrows.group e.group).front.mem hw)
  have hending := (hgrows.frame w.frame).complete hthere (haborted ▸ Option.some_ne_none _)
  cases haborted.symm.trans hending

/-- A frame that is there and has ended is the frame of its place in the run. -/
theorem payload_eq (h : Foretold s e run) (hw : (s.group e.group).frames[k]? = some w)
    (hended : (s.frame w.frame).ending ≠ none) :
    ∃ f, run[k]? = some f ∧ f.encoded = (s.frame w.frame).payload := by
  obtain ⟨fin, hgrows, hcomplete⟩ := h
  have hholds : Holds fin e run := hcomplete.payloads_eq
  obtain ⟨f, hf, hpayload⟩ := hholds.payload_eq ((hgrows.group e.group).getElem? hw)
  refine ⟨f, hf, hpayload.trans ?_⟩
  exact congrArg List.flatten ((hgrows.frame w.frame).frozen hended)

/-- A group that is closed now has all frames of the run. -/
theorem length_eq (h : Foretold s e run) (hended : (s.group e.group).ending ≠ none) :
    (s.group e.group).frames.length = run.length := by
  obtain ⟨fin, hgrows, hcomplete⟩ := h
  have hholds : Holds fin e run := hcomplete.payloads_eq
  rw [← hholds.length_eq, (hgrows.group e.group).frozen hended]

end Foretold

-- ── one read ────────────────────────────────────────────────────────

/-- Where the task of a group stands: it has reported the first frames of the run. -/
structure Reads (s : Store) (e : GroupEntry) (run before : List MediaFrame) (r : GroupReader) : Prop where
  follows : MediaFollower.Follows s e before ⟨r, before.map MediaFrame.joined⟩
  begins : before <+: run
  /-- Whatever its reader gives comes behind what was reported. -/
  gives : ∀ more, r.Gives more →
    (GroupReader.start e.cursor).Gives (before.map MediaFrame.joined ++ more)

/-- What the task of a group is told. -/
inductive Reads.Answer (s : Store) (e : GroupEntry) (run before : List MediaFrame) :
    Attempt MediaError (Option MediaFrame) × GroupReader → Prop where
  | frame {f : MediaFrame} {r : GroupReader} : run[before.length]? = some f →
      Reads s e run (before ++ [f]) r → Answer s e run before (.ok (some f.joined), r)
  | ended {r : GroupReader} : (s.group e.group).ending = some .complete →
      (s.group e.group).frames.length = before.length → Answer s e run before (.ok none, r)
  | pending {r : GroupReader} : (∀ payloads, ¬s.Complete e.group payloads) → Reads s e run before r →
      Answer s e run before (.error .pending, r)

/-- The task of a group is over: it has reported all frames that the group has, and these are the first
    frames of the run. -/
structure Over (s : Store) (e : GroupEntry) (run before : List MediaFrame) : Prop where
  ended : (s.group e.group).ending = some .complete
  length_eq : (s.group e.group).frames.length = before.length
  begins : before <+: run
  gives : (GroupReader.start e.cursor).Gives (before.map MediaFrame.joined)

namespace Reads

variable {s s' : Store} {e : GroupEntry} {run run' before : List MediaFrame} {r : GroupReader}
  {held : Holdings}

theorem start (s : Store) (e : GroupEntry) (run : List MediaFrame) :
    Reads s e run [] (.start e.cursor) :=
  ⟨.fresh s e, List.nil_prefix, fun _ h => h⟩

theorem later (h : Reads s e run before r) (hgrows : s.Grows s') (hlonger : run <+: run') :
    Reads s' e run' before r :=
  ⟨h.follows.later hgrows, h.begins.trans hlonger, h.gives⟩

theorem length_le (h : Reads s e run before r) : before.length ≤ (s.group e.group).frames.length := by
  have hlength := h.follows.group.length_given
  rwa [List.length_map] at hlength

/-- The next frame of the run is there. -/
theorem take {f : MediaFrame} {w : FrameWriter} (h : Reads s e run before r)
    (hf : run[before.length]? = some f) (hpayload : f.encoded = (s.frame w.frame).payload)
    (hw : (s.group r.cursor.group).frames[(before.map fun f => FrameGift.whole f.encoded).length]? = some w)
    (hcomplete : (s.frame w.frame).ending = some .complete) :
    let cursor := { r.cursor with
      position := (before.map fun f => FrameGift.whole f.encoded).length + 1
      active := none }
    r.readFrame s held = (.ok (some f.joined), ⟨cursor, r.count + 1⟩) →
      Reads s e run (before ++ [f]) ⟨cursor, r.count + 1⟩ := by
  intro cursor hread
  have hgift : FrameGift.Of s w (.whole f.encoded) :=
    ⟨(fun hnone => nomatch hcomplete.symm.trans hnone), hpayload⟩
  refine ⟨⟨rfl, ?_, ?_, ?_⟩, ?_, fun more hmore => ?_⟩
  · rw [List.length_append]
    exact congrArg (· + 1) h.follows.count_eq
  · exact h.follows.sequence_eq
  · simp only [List.map_append]
    exact h.follows.group.take hw hgift
  · rw [List.prefix_iff_eq_take, List.length_append, List.length_singleton, List.take_add_one, hf,
      ← List.prefix_iff_eq_take.mp h.begins]
    rfl
  · rw [List.map_append, List.append_assoc]
    exact h.gives _ (.frame s held hread hmore)

/-- The reader has to wait. -/
theorem wait {cursor : GroupCursor} (h : Reads s e run before r)
    (hstands : GroupFollows e.group s ⟨cursor, before.map fun f => .whole f.encoded⟩)
    (hsequence : cursor.sequence = r.cursor.sequence)
    (hread : r.readFrame s held = (.pending, { r with cursor })) :
    Reads s e run before { r with cursor } :=
  ⟨⟨rfl, h.follows.count_eq, hsequence.trans h.follows.sequence_eq, hstands⟩, h.begins,
    fun more hmore => h.gives more (.wait s held hread hmore)⟩

/-- A call that gets nothing has to wait, and only while the group is not complete. -/
theorem pending_of_error (h : Reads s e run before r) (hforetold : Foretold s e run)
    (hwritten : .groupWriter e.group ∈ held ∨ ∃ payloads, s.Complete e.group payloads)
    (halt : Halt TransportError) (herror : (s.readFrame held r.cursor).1 = .error halt) :
    halt = .pending ∧ ∀ payloads, ¬s.Complete e.group payloads := by
  have hgroup := h.follows.group
  have hnot : ∀ payloads, ¬s.Complete e.group payloads := fun _ hcomplete =>
    hgroup.readFrame_ne_error held hcomplete.group hcomplete.frames halt herror
  refine ⟨?_, hnot⟩
  cases halt with
  | pending => rfl
  | failed err =>
      refine absurd herror (hgroup.readFrame_ne_failed (hwritten.resolve_right ?_) hforetold.alive
        (fun w hw => hforetold.frame_alive hw) err)
      exact fun ⟨payloads, hcomplete⟩ => hnot payloads hcomplete

/-- **No read fails**, and the next frame of the run is the next that is given. -/
theorem answer (h : Reads s e run before r) (hforetold : Foretold s e run) (hrun : Readable run)
    (hwritten : .groupWriter e.group ∈ held ∨ ∃ payloads, s.Complete e.group payloads) :
    Answer s e run before (r.readFrame s held) := by
  obtain ⟨cursor, count⟩ := r
  obtain rfl : count = before.length := h.follows.count_eq
  have hlength : (before.map fun f => FrameGift.whole f.encoded).length = before.length :=
    List.length_map _
  have hgroup := h.follows.group
  have hsame : ∀ {w : FrameWriter},
      (s.group cursor.group).frames[(before.map fun f => FrameGift.whole f.encoded).length]? = some w →
      (s.group e.group).frames[before.length]? = some w := by
    intro w hw
    rwa [hlength, show cursor.group = e.group from hgroup.group_eq] at hw
  have hreads : LiveMedia.Live.Reads s ⟨cursor, before.map fun f => .whole f.encoded⟩
      (s.readFrame held cursor) := hgroup.reads_readFrame held
  have hpending := h.pending_of_error hforetold hwritten
  have hwaits : ∀ {cursor' : GroupCursor}, s.readFrame held cursor = (.error .pending, cursor') →
      GroupReader.readFrame s held ⟨cursor, before.length⟩ = (.pending, ⟨cursor', before.length⟩) :=
    fun hx => GroupReader.readFrame_of_pending hx
  cases hx : s.readFrame held cursor with
  | mk attempt cursor' =>
      rw [hx] at hreads hpending
      cases hreads with
      | @frame w hw hcomplete =>
          have hended : (s.frame w.frame).ending ≠ none := fun hnone => by
            rw [hcomplete] at hnone
            cases hnone
          obtain ⟨f, hf, hpayload⟩ := hforetold.payload_eq (hsame hw) hended
          have hread : GroupReader.readFrame s held ⟨cursor, before.length⟩ =
              (.ok (some f.joined), ⟨{ cursor with
                position := (before.map fun f => FrameGift.whole f.encoded).length + 1
                active := none }, before.length + 1⟩) :=
            GroupReader.readFrame_of_some hx (hpayload ▸ hrun _ f hf)
          rw [hread]
          exact .frame hf (h.take hf hpayload hw hcomplete hread)
      | @begun w halt hw =>
          obtain ⟨rfl, hnot⟩ := hpending halt rfl
          rw [hwaits hx]
          exact .pending hnot (h.wait (hgroup.begin hw) rfl (hwaits hx))
      | ended hending hall =>
          have hread : GroupReader.readFrame s held ⟨cursor, before.length⟩ =
              (.ok none, ⟨cursor, before.length⟩) := GroupReader.readFrame_of_none hx
          rw [hread]
          rw [show cursor.group = e.group from hgroup.group_eq] at hending hall
          exact .ended hending (Nat.le_antisymm (hlength ▸ hall) h.length_le)
      | @halted halt =>
          obtain ⟨rfl, hnot⟩ := hpending halt rfl
          rw [hwaits hx]
          exact .pending hnot (h.wait hgroup rfl (hwaits hx))

-- ── a task ──────────────────────────────────────────────────────────

/-- **A task reports the next frames of its run**, and that the group is done at its end and not before. -/
theorem readGroup (h : Reads s e run before r) (hforetold : Foretold s e run) (hrun : Readable run)
    (hwritten : .groupWriter e.group ∈ held ∨ ∃ payloads, s.Complete e.group payloads)
    (n fuel : Nat) :
    let report := Player.readGroup s held n fuel r
    ∃ more, report.1 = (more.map MediaFrame.joined).map (.frame n) ++
        (if report.2 = none then [.groupDone n] else []) ∧
      (∀ r', report.2 = some r' → Reads s e run (before ++ more) r') ∧
      (report.2 = none → Over s e run (before ++ more)) ∧
      ((∃ payloads, s.Complete e.group payloads) →
        (s.group e.group).frames.length < before.length + fuel → report.2 = none) := by
  induction fuel generalizing before r with
  | zero =>
      refine ⟨[], rfl, ?_, ?_, fun _ hlt => absurd h.length_le (Nat.not_le_of_lt hlt)⟩
      · rintro _ ⟨⟩
        rw [List.append_nil]
        exact h
      · intro hleft
        cases hleft
  | succ fuel ih =>
      have hanswer := h.answer hforetold hrun hwritten
      intro report
      have hreport : report = Player.readGroup s held n (fuel + 1) r := rfl
      rw [Player.readGroup] at hreport
      generalize r.readFrame s held = x at hanswer hreport
      cases hanswer with
      | @frame f r' hf hnext =>
          obtain ⟨more, hevents, hsome, hnone, hcomplete⟩ := ih hnext
          have hfirst : report = (.frame n f.joined :: (Player.readGroup s held n fuel r').1,
              (Player.readGroup s held n fuel r').2) := hreport
          have hsplit : before ++ f :: more = before ++ [f] ++ more := List.append_cons _ _ _
          refine ⟨f :: more, ?_, ?_, ?_, ?_⟩ <;> rw [hfirst]
          · rw [hevents]
            rfl
          · exact hsplit ▸ hsome
          · exact hsplit ▸ hnone
          · intro hthere hlt
            refine hcomplete hthere ?_
            rw [List.length_append, List.length_singleton]
            omega
      | ended hending hlength =>
          have hlast : report = ([.groupDone n], none) := hreport
          refine ⟨[], ?_, ?_, ?_, ?_⟩ <;> rw [hlast]
          · rfl
          · intro _ hleft
            cases hleft
          · intro _
            rw [List.append_nil]
            refine ⟨hending, hlength, h.begins, ?_⟩
            exact List.append_nil (before.map MediaFrame.joined) ▸ h.gives [] (.stop r)
          · exact fun _ _ => rfl
      | @pending r' hnot hkept =>
          have hwaits : report = ([], some r') := hreport
          refine ⟨[], ?_, ?_, ?_, ?_⟩ <;> rw [hwaits]
          · rfl
          · rintro _ ⟨⟩
            rw [List.append_nil]
            exact hkept
          · intro hleft
            cases hleft
          · rintro ⟨payloads, hcomplete⟩
            exact absurd hcomplete (hnot payloads)

end Reads

namespace Over

variable {s s' : Store} {e : GroupEntry} {run run' before : List MediaFrame}

theorem later (h : Over s e run before) (hgrows : s.Grows s') (hlonger : run <+: run')
    (hforetold : Foretold s' e run') : Over s' e run' before where
  ended := by
    have hended := (hgrows.group e.group).ended (h.ended ▸ Option.some_ne_none _)
    cases hending : (s'.group e.group).ending with
    | none => exact absurd hending hended
    | some ending =>
        cases ending with
        | complete => rfl
        | aborted err => exact absurd hending (hforetold.alive err)
  length_eq := by
    rw [(hgrows.group e.group).frozen (h.ended ▸ Option.some_ne_none _)]
    exact h.length_eq
  begins := h.begins.trans hlonger
  gives := h.gives

/-- What was reported of a group that is over is its run. -/
theorem eq_run (h : Over s e run before) (hforetold : Foretold s e run) : before = run := by
  refine h.begins.eq_of_length ?_
  rw [← h.length_eq]
  exact hforetold.length_eq (h.ended ▸ Option.some_ne_none _)

end Over

end LiveMedia.Playback
