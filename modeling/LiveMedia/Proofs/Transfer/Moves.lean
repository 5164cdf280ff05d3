import LiveMedia.Proofs.Live.Growth
import LiveMedia.Proofs.Stream.Sink
import LiveMedia.Transfer.Sending

/-!
# The moves of a sender

A sender that has something unsent writes it (`Flushes`). Otherwise its phase decides, and each phase has
a few moves (`Moves`): on to the next phase, to wait, or to fail. Every move comes with what the sender was
told when it looked at the group or at the frame. `step_moves` is the one place where a step is taken apart;
what is said of senders elsewhere goes through the moves.

The cursor of a sender stands between two frames, so nothing is active in it.
-/

namespace LiveMedia.Transfer

open LiveMedia.Wire LiveMedia.Message LiveMedia.Live LiveMedia.Stream

/-- A step with something unsent. What is not written is kept, or lost with the stream. -/
inductive Flushes (st : Sending) (sink : Sink) : Turn Sending Unit × Sink → Prop where
  | all : Flushes st sink
      (.go { st with unsent := [] }, { sink with written := sink.written ++ st.unsent })
  | blocked {written rest : Bytes} : sink.blockAfter ≠ none →
      written ++ rest = sink.written ++ st.unsent →
      Flushes st sink (.wait { st with unsent := rest }, { sink with written })
  | failed {written rest : Bytes} {e : TransportError} : sink.failAfter ≠ none → rest ≠ [] →
      written ++ rest = sink.written ++ st.unsent →
      Flushes st sink (.stop (.error e), { sink with written })

/-- A step with nothing unsent, by the phase of the sender. -/
inductive Moves (s : Store) (held : Holdings) (header : GroupHeader) (cursor : GroupCursor)
    (sink : Sink) : SendPhase → Turn Sending Unit × Sink → Prop where
  | header {hd : Bytes} : header.encode = .ok hd →
      Moves s held header cursor sink .header (.go ⟨header, cursor, hd, .nextFrame⟩, sink)
  | noHeader {e : EncodeError} : header.encode = .error e →
      Moves s held header cursor sink .header (.stop (.error (.encode e)), sink)
  | frame {w : FrameWriter} : (∀ e, (s.group cursor.group).ending ≠ some (.aborted e)) →
      (s.group cursor.group).frames[cursor.position]? = some w →
      Moves s held header cursor sink .nextFrame
        (.go ⟨header, { cursor with position := cursor.position + 1 }, objectOpening header,
          .size w.cursor⟩, sink)
  | ending : (s.group cursor.group).ending = some .complete →
      (s.group cursor.group).frames.length ≤ cursor.position →
      Moves s held header cursor sink .nextFrame
        (.go ⟨header, cursor, groupEnding header, .finish⟩, sink)
  | awaitFrame : (s.group cursor.group).ending = none →
      Moves s held header cursor sink .nextFrame (.wait ⟨header, cursor, [], .nextFrame⟩, sink)
  | noFrame {e : TransportError} : (s.group cursor.group).ending ≠ some .complete →
      ((s.group cursor.group).ending = none → held.writesGroup cursor.group = false) →
      Moves s held header cursor sink .nextFrame (.stop (.error e), sink)
  /-- A frame without bytes is a whole object at once. -/
  | empty {frame : FrameCursor} : frame.size = 0 →
      Moves s held header cursor sink (.size frame)
        (.go ⟨header, cursor, Varint.encode ⟨frame.size⟩ ++ Varint.encode ⟨statusNormal⟩, .nextFrame⟩, sink)
  | size {frame : FrameCursor} : frame.size ≠ 0 → frame.size ≤ Varint.compactMaximum →
      Moves s held header cursor sink (.size frame)
        (.go ⟨header, cursor, Varint.encode ⟨frame.size⟩, .payload frame frame.size⟩, sink)
  | tooLarge {frame : FrameCursor} {e : EncodeError} : ¬ frame.size ≤ Varint.compactMaximum →
      Moves s held header cursor sink (.size frame) (.stop (.error (.encode e)), sink)
  | chunk {frame : FrameCursor} {left : Nat} {chunk : Bytes} :
      (s.frame frame.frame).chunks[frame.position]? = some chunk → chunk.length ≤ left →
      Moves s held header cursor sink (.payload frame left)
        (.go ⟨header, cursor, chunk,
          .payload { frame with position := frame.position + 1 } (left - chunk.length)⟩, sink)
  | tooLong {frame : FrameCursor} {left : Nat} {chunk : Bytes} :
      (s.frame frame.frame).chunks[frame.position]? = some chunk → left < chunk.length →
      Moves s held header cursor sink (.payload frame left) (.stop (.error .wrongSize), sink)
  | frameEnd {frame : FrameCursor} : (s.frame frame.frame).ending = some .complete →
      (s.frame frame.frame).chunks.length ≤ frame.position →
      Moves s held header cursor sink (.payload frame 0) (.go ⟨header, cursor, [], .nextFrame⟩, sink)
  | tooShort {frame : FrameCursor} {left : Nat} : (s.frame frame.frame).ending = some .complete →
      (s.frame frame.frame).chunks.length ≤ frame.position → left ≠ 0 →
      Moves s held header cursor sink (.payload frame left) (.stop (.error .wrongSize), sink)
  | awaitChunk {frame : FrameCursor} {left : Nat} : (s.frame frame.frame).ending = none →
      Moves s held header cursor sink (.payload frame left)
        (.wait ⟨header, cursor, [], .payload frame left⟩, sink)
  | noChunk {frame : FrameCursor} {left : Nat} {e : TransportError} :
      (s.frame frame.frame).ending ≠ some .complete →
      ((s.frame frame.frame).ending = none → s.frameIsWritten held frame.frame = false) →
      Moves s held header cursor sink (.payload frame left) (.stop (.error e), sink)
  | finish : sink.refusal = none →
      Moves s held header cursor sink .finish (.stop (.ok ()), { sink with finished := true })
  /-- All is written, and the stream cannot be ended. -/
  | refused {e : IoError} : sink.refusal = some e →
      Moves s held header cursor sink .finish (.stop (.error (.io e)), sink)

section Steps

variable {s : Store} {held : Holdings} {header : GroupHeader} {cursor : GroupCursor} {sink : Sink}

theorem step_flushes {st : Sending} (hunsent : st.unsent ≠ []) :
    Flushes st sink (st.step s held sink) := by
  have hwrites := sink.write_writes st.unsent
  rw [Sending.step, if_pos hunsent]
  generalize sink.write st.unsent = x at hwrites
  cases hwrites with
  | complete => exact .all
  | blocked hblock heq => exact .blocked hblock heq
  | failed hfail hrest heq => exact .failed hfail hrest heq

/-- A group that was aborted has no next frame. -/
theorem not_aborted_of_nextFrame {g : Group} {position : Nat} {w : FrameWriter} {isWritten : Bool}
    (h : orDropped (g.nextFrame position) isWritten = .ok (some w)) (e : TransportError) :
    g.ending ≠ some (.aborted e) := by
  intro haborted
  simp only [Group.nextFrame, haborted, Attempt.failure, orDropped] at h
  cases h

theorem nextFrame_moves (hactive : cursor.active = none) :
    Moves s held header cursor sink .nextFrame
      (Sending.step s held ⟨header, cursor, [], .nextFrame⟩ sink) := by
  obtain ⟨group, sequence, position, active⟩ := cursor
  obtain rfl : active = none := hactive
  have hlooks := (s.group group).looks position (held.writesGroup group)
  generalize hattempt : orDropped ((s.group group).nextFrame position) (held.writesGroup group) = attempt
    at hlooks
  simp only [Sending.step, ne_eq, not_true_eq_false, if_false, Store.nextFrame, hattempt]
  cases hlooks with
  | item hw => exact .frame (not_aborted_of_nextFrame hattempt) hw
  | ended hclosed hle => exact .ending hclosed hle
  | pending hopen => exact .awaitFrame hopen
  | failed hended hwritten => exact .noFrame hended hwritten

theorem size_moves (frame : FrameCursor) : Moves s held header cursor sink (.size frame)
    (Sending.step s held ⟨header, cursor, [], .size frame⟩ sink) := by
  simp only [Sending.step, ne_eq, not_true_eq_false, if_false]
  by_cases hsize : frame.size ≤ Varint.compactMaximum
  · rw [encodeCompact, if_pos hsize]
    dsimp only
    split
    · next hzero => exact .empty hzero
    · next hne => exact .size hne hsize
  · rw [encodeCompact, if_neg hsize]
    exact .tooLarge hsize

theorem payload_moves (frame : FrameCursor) (left : Nat) :
    Moves s held header cursor sink (.payload frame left)
      (Sending.step s held ⟨header, cursor, [], .payload frame left⟩ sink) := by
  have hlooks := (s.frame frame.frame).looks frame.position (s.frameIsWritten held frame.frame)
  generalize hattempt : orDropped ((s.frame frame.frame).nextChunk frame.position)
    (s.frameIsWritten held frame.frame) = attempt at hlooks
  simp only [Sending.step, ne_eq, not_true_eq_false, if_false, Store.readChunk, hattempt]
  cases hlooks with
  | item hchunk =>
      dsimp only
      split
      · next hle => exact .chunk hchunk hle
      · next hgt => exact .tooLong hchunk (Nat.lt_of_not_le hgt)
  | ended hclosed hle =>
      dsimp only
      split
      · next hzero =>
        subst hzero
        exact .frameEnd hclosed hle
      · next hne => exact .tooShort hclosed hle hne
  | pending hopen => exact .awaitChunk hopen
  | failed hended hwritten => exact .noChunk hended hwritten

theorem finish_moves : Moves s held header cursor sink .finish
    (Sending.step s held ⟨header, cursor, [], .finish⟩ sink) := by
  simp only [Sending.step, ne_eq, not_true_eq_false, if_false]
  cases hrefusal : sink.refusal with
  | none =>
      rw [Sink.finish_of_endable hrefusal]
      exact .finish hrefusal
  | some e =>
      rw [Sink.finish_of_refused hrefusal]
      exact .refused hrefusal

/-- **The moves of a sender** with nothing unsent. -/
theorem step_moves {phase : SendPhase} (hactive : cursor.active = none) :
    Moves s held header cursor sink phase
      (Sending.step s held ⟨header, cursor, [], phase⟩ sink) := by
  cases phase with
  | header =>
      simp only [Sending.step, ne_eq, not_true_eq_false, if_false]
      cases hencode : header.encode with
      | ok hd => exact .header hencode
      | error e => exact .noHeader hencode
  | nextFrame => exact nextFrame_moves hactive
  | size frame => exact size_moves frame
  | payload frame left => exact payload_moves frame left
  | finish => exact finish_moves

/-- A step of any sender whose cursor stands between two frames. -/
theorem step_cases (st : Sending) (hactive : st.cursor.active = none) :
    (st.unsent ≠ [] ∧ Flushes st sink (st.step s held sink)) ∨
      (st.unsent = [] ∧ Moves s held st.header st.cursor sink st.phase (st.step s held sink)) := by
  by_cases hunsent : st.unsent = []
  · obtain ⟨header, cursor, unsent, phase⟩ := st
    obtain rfl : unsent = [] := hunsent
    exact .inr ⟨rfl, step_moves hactive⟩
  · exact .inl ⟨hunsent, step_flushes hunsent⟩

end Steps

end LiveMedia.Transfer
