import LiveMedia.Proofs.Transfer.Following
import LiveMedia.Proofs.Transfer.Truncation

/-!
# A sender is polled in rounds

In a network a sender is polled again and again, each time into an empty pipe that takes as much as there
is room for. What it writes in one round continues what it wrote before: a sink that begins anew makes no
difference (`Sending.run_behind`), so the invariant of a sender can speak of everything that was put out.
It is kept for all later stores at once (`Stood`), since nobody knows yet how the group will go on.

`Round` says where a round may lead on a pipe that does not break. A sender waits only for the pipe or for
what is unfinished in its group. It fails behind the header and before the end, and never if its group is
whole and was written all the while. It comes to the end only of a group that was not aborted before.
-/

namespace LiveMedia.Stream

open LiveMedia.Wire

namespace Sink

/-- The sink as it is if these bytes had been written before, without regard to its limits. -/
def behind (before : Bytes) (k : Sink) : Sink :=
  { k with
    written := before ++ k.written
    failAfter := k.failAfter.map (before.length + ·)
    blockAfter := k.blockAfter.map (before.length + ·) }

variable (before : Bytes) (k : Sink)

theorem below_behind (limit : Option Nat) (n : Nat) :
    (k.behind before).below (limit.map (before.length + ·)) n = k.below limit n := by
  cases limit with
  | none => rfl
  | some limit =>
      show min n (before.length + limit - (before ++ k.written).length) = _
      rw [List.length_append, Nat.add_sub_add_left]
      rfl

theorem write_behind (bs : Bytes) :
    (k.behind before).write bs = ((k.write bs).1, (k.write bs).2.behind before) := by
  have hfits : (k.behind before).below (k.behind before).failAfter bs.length = _ :=
    k.below_behind before k.failAfter bs.length
  have hroom : (k.behind before).below (k.behind before).blockAfter _ = _ :=
    k.below_behind before k.blockAfter (k.below k.failAfter bs.length)
  unfold write
  dsimp only
  rw [hfits, hroom]
  split
  · simp only [behind, List.append_assoc]
  · split
    · simp only [behind, List.append_assoc]
    · simp only [behind, List.append_assoc]

theorem finish_behind : (k.behind before).finish = (k.finish.1, k.finish.2.behind before) := by
  have hsame : (k.behind before).refusal = k.refusal := rfl
  cases hrefusal : k.refusal with
  | none =>
      rw [finish_of_endable hrefusal, finish_of_endable (hsame.trans hrefusal)]
      rfl
  | some e => rw [finish_of_refused hrefusal, finish_of_refused (hsame.trans hrefusal)]

end Sink

end LiveMedia.Stream

namespace LiveMedia.Transfer

open LiveMedia.Wire LiveMedia.Message LiveMedia.Live LiveMedia.Stream

-- ── a sink that begins anew ─────────────────────────────────────────

namespace Sending

variable {store : Store} {held : Holdings}

/-- A step does the same whatever was written before. -/
theorem step_behind (s : Sending) (before : Bytes) (k : Sink) :
    s.step store held (k.behind before) =
      ((s.step store held k).1, (s.step store held k).2.behind before) := by
  unfold step
  split
  · rw [k.write_behind]
    generalize k.write s.unsent = x
    obtain ⟨result, k'⟩ := x
    cases result with
    | complete => rfl
    | blocked rest => rfl
    | failed e => rfl
  · split
    · split <;> rfl
    · split <;> rfl
    · split
      · split <;> rfl
      · rfl
    · split
      · split <;> rfl
      · split <;> rfl
      · rfl
      · rfl
    · rw [k.finish_behind]

theorem run_behind (fuel : Nat) (s : Sending) (before : Bytes) (k : Sink) :
    run store held fuel s (k.behind before) =
      ((run store held fuel s k).1, (run store held fuel s k).2.behind before) := by
  induction fuel generalizing s k with
  | zero => rfl
  | succ fuel ih =>
      unfold run
      rw [s.step_behind]
      generalize s.step store held k = x
      obtain ⟨turn, k'⟩ := x
      cases turn with
      | go next => exact ih next k'
      | wait next => rfl
      | stop result => rfl

end Sending

-- ── one step on a pipe that does not break ──────────────────────────

section Rounds

variable {header : GroupHeader} {g : GroupId} {s : Store} {held : Holdings} {st : Sending} {k : Sink}
  {hd : Bytes}

/-- A sender of the group that has put out these bytes, whatever becomes of the store. -/
def Stood (header : GroupHeader) (g : GroupId) (s : Store) (st : Sending) (out : Bytes) : Prop :=
  ∀ fin, s.Grows fin → Stands fin header g s st out

theorem Stood.now {out : Bytes} (h : Stood header g s st out) : Stands s header g s st out :=
  h s (.refl s)

theorem Stood.later {s' : Store} {out : Bytes} (h : Stood header g s st out) (hgrows : s.Grows s') :
    Stood header g s' st out :=
  fun fin hfin => (h fin (hgrows.trans hfin)).later hgrows

/-- A sender that has written nothing. -/
theorem Stood.start (header : GroupHeader) (cursor : GroupCursor) (s : Store)
    (hposition : cursor.position = 0) (hactive : cursor.active = none) :
    Stood header cursor.group s (.start header cursor) [] := by
  intro fin _
  refine ⟨rfl, rfl, hactive, ?_, .inl ⟨rfl, hposition, rfl⟩⟩
  show cursor.position ≤ _
  rw [hposition]
  exact Nat.zero_le _

/-- The group was aborted and the sender has not come to its end. -/
structure Doomed (s : Store) (g : GroupId) (st : Sending) : Prop where
  aborted : ∃ e, (s.group g).ending = some (.aborted e)
  phase : st.phase ≠ .finish

/-- A pipe that does not break, neither under the bytes nor when it is ended. -/
structure Unbroken (k : Sink) : Prop where
  reliable : k.failAfter = none
  endable : k.refusal = none

/-- A step that fails although the stream does not has nothing unsent. The header was written, and the
    end is not reached. -/
theorem step_failed {e : TransportError} {k' : Sink} (hactive : st.cursor.active = none)
    (hpipe : Unbroken k) (hencode : st.header.encode = .ok hd)
    (h : st.step s held k = (.stop (.error e), k')) :
    k' = k ∧ st.unsent = [] ∧ st.phase ≠ .header ∧ st.phase ≠ .finish := by
  rcases step_cases st hactive with ⟨-, hflushes⟩ | ⟨hunsent, hmoves⟩
  · rw [h] at hflushes
    cases hflushes with
    | failed hbroken _ _ => exact absurd hpipe.reliable hbroken
  · rw [h] at hmoves
    generalize st.phase = phase at hmoves ⊢
    cases hmoves with
    | noHeader hrefused => cases hencode.symm.trans hrefused
    | refused hrefusal => cases hrefusal.symm.trans hpipe.endable
    | _ => exact ⟨rfl, hunsent, (fun heq => by cases heq), (fun heq => by cases heq)⟩

/-- A sender that has put out all that there is so far. -/
structure Idle (st : Sending) : Prop where
  unsent : st.unsent = []
  begun : st.phase ≠ .header

/-- On a pipe that takes everything, only a sender that has nothing left to put out waits. -/
theorem step_wait {st' : Sending} {k' : Sink} (hactive : st.cursor.active = none)
    (h : st.step s held k = (.wait st', k')) : k.blockAfter ≠ none ∨ Idle st' := by
  rcases step_cases st hactive with ⟨-, hflushes⟩ | ⟨-, hmoves⟩
  · rw [h] at hflushes
    cases hflushes with
    | blocked hblock _ => exact .inl hblock
  · rw [h] at hmoves
    generalize st.phase = phase at hmoves
    cases hmoves with
    | awaitFrame _ => exact .inr ⟨rfl, fun heq => by cases heq⟩
    | awaitChunk _ => exact .inr ⟨rfl, fun heq => by cases heq⟩

/-- A sender that has not come to the end of its group. -/
inductive Short : Turn Sending Unit → Prop where
  | go {next : Sending} : next.phase ≠ .finish → Short (.go next)
  | wait {next : Sending} : next.phase ≠ .finish → Short (.wait next)
  | failed {e : TransportError} : Short (.stop (.error e))

/-- A sender whose group was aborted before its end does not come to the end. -/
theorem step_doomed (h : Doomed s g st) (hgroup : st.cursor.group = g)
    (hactive : st.cursor.active = none) : Short (st.step s held k).1 := by
  obtain ⟨⟨e, haborted⟩, hphase⟩ := h
  subst hgroup
  rcases step_cases st hactive with ⟨-, hflushes⟩ | ⟨-, hmoves⟩
  · generalize st.step s held k = x at hflushes
    cases hflushes with
    | all => exact .go hphase
    | blocked _ _ => exact .wait hphase
    | failed _ _ _ => exact .failed
  · generalize st.step s held k = x at hmoves
    generalize st.phase = phase at hmoves hphase
    cases hmoves with
    | frame halive _ => exact absurd haborted (halive e)
    | ending hclosed _ => cases haborted.symm.trans hclosed
    | awaitFrame hopen => cases haborted.symm.trans hopen
    | awaitChunk _ => exact .wait fun heq => by cases heq
    | header _ | empty _ | size _ _ | chunk _ _ | frameEnd _ _ => exact .go fun heq => by cases heq
    | noHeader _ | noFrame _ _ | tooLarge _ | tooLong _ _ | tooShort _ _ _ | noChunk _ _ => exact .failed
    | finish _ | refused _ => exact absurd rfl hphase

/-- A sender that stops, or is at the end of its group. -/
inductive Last : Turn Sending Unit → Prop where
  | go {next : Sending} : next.phase = .finish → Last (.go next)
  | wait {next : Sending} : next.phase = .finish → Last (.wait next)
  | stop {result : Except TransportError Unit} : Last (.stop result)

/-- At the end of its group a sender does not look at it any more. -/
theorem step_last (hactive : st.cursor.active = none) (hphase : st.phase = .finish) :
    Last (st.step s held k).1 := by
  rcases step_cases st hactive with ⟨-, hflushes⟩ | ⟨-, hmoves⟩
  · generalize st.step s held k = x at hflushes
    cases hflushes with
    | all => exact .go hphase
    | blocked _ _ => exact .wait hphase
    | failed _ _ _ => exact .stop
  · rw [hphase] at hmoves
    generalize st.step s held k = x at hmoves
    cases hmoves with
    | finish _ | refused _ => exact .stop

theorem Leads.unfair {fin : Store} {e : TransportError} {k' : Sink}
    (h : Leads fin header g s held st k (.stop (.error e), k')) :
    ¬ Fair fin header g s held k := by
  cases h with
  | failed _ _ hunfair => exact hunfair
  | refused _ _ hrefusal => exact fun hfair => hrefusal hfair.endable

/-- Where a step may lead on a pipe that does not break. -/
inductive Advances (header : GroupHeader) (g : GroupId) (s : Store) (held : Holdings) (st : Sending)
    (k : Sink) : Turn Sending Unit × Sink → Prop where
  | go {st' : Sending} {written : Bytes} : Stood header g s st' (written ++ st'.unsent) →
      stepsLeft s st' < stepsLeft s st → Advances header g s held st k (.go st', { k with written })
  | wait {st' : Sending} {written : Bytes} : Stood header g s st' (written ++ st'.unsent) →
      Unfinished s g ∨ k.blockAfter ≠ none → k.blockAfter ≠ none ∨ Idle st' →
      Advances header g s held st k (.wait st', { k with written })
  | failed {e : TransportError} : Stood header g s st k.written → st.phase ≠ .header →
      st.phase ≠ .finish → (∀ fin, s.Grows fin → ¬ Fair fin header g s held k) →
      Advances header g s held st k (.stop (.error e), k)
  | succeeded : Stood header g s st k.written → st.phase = .finish →
      Advances header g s held st k (.stop (.ok ()), { k with finished := true })

theorem step_advances (h : Stood header g s st (k.written ++ st.unsent)) (hpipe : Unbroken k)
    (hencode : header.encode = .ok hd) :
    Advances header g s held st k (st.step s held k) := by
  have hleads : ∀ fin, s.Grows fin → Leads fin header g s held st k (st.step s held k) :=
    fun fin hfin => step_leads hfin (h fin hfin)
  cases hx : st.step s held k with
  | mk turn k' =>
      rw [hx] at hleads
      cases turn with
      | go st' =>
          cases hleads s (.refl s) with
          | @go _ written _ hless =>
              refine .go (fun fin hfin => ?_) hless
              cases hleads fin hfin with
              | go hstands _ => exact hstands
      | wait st' =>
          cases hleads s (.refl s) with
          | @wait _ written _ hwait =>
              refine .wait (fun fin hfin => ?_) hwait (step_wait h.now.inactive hx)
              cases hleads fin hfin with
              | wait hstands _ => exact hstands
      | stop result =>
          cases result with
          | error e =>
              have hheader : st.header = header := h.now.header_eq
              have hunfair := fun fin hfin => (hleads fin hfin).unfair
              obtain ⟨rfl, hunsent, hbegun, hend⟩ := step_failed h.now.inactive hpipe (hheader ▸ hencode) hx
              rw [hunsent, List.append_nil] at h
              exact .failed h hbegun hend hunfair
          | ok _ =>
              cases hleads s (.refl s) with
              | succeeded _ hphase =>
                  refine .succeeded (fun fin hfin => ?_) hphase
                  cases hleads fin hfin with
                  | succeeded hstands _ => exact hstands

-- ── a whole round ───────────────────────────────────────────────────

/-- Where a round may lead on a pipe that does not break. -/
inductive Round (header : GroupHeader) (g : GroupId) (s : Store) (held : Holdings) (st : Sending)
    (k : Sink) : Turn Sending Unit × Sink → Prop where
  | wait {st' : Sending} {k' : Sink} : Stood header g s st' (k'.written ++ st'.unsent) →
      Unfinished s g ∨ k.blockAfter ≠ none → k.blockAfter ≠ none ∨ Idle st' →
      (Doomed s g st → st'.phase ≠ .finish) →
      (st.phase = .finish → st'.phase = .finish) → Round header g s held st k (.wait st', k')
  | failed {st' : Sending} {k' : Sink} {e : TransportError} : Stood header g s st' k'.written →
      st'.phase ≠ .header → st'.phase ≠ .finish → st.phase ≠ .finish →
      (∀ fin, s.Grows fin → ¬ Fair fin header g s held k) →
      Round header g s held st k (.stop (.error e), k')
  | succeeded {st' : Sending} {k' : Sink} : Stood header g s st' k'.written →
      st'.phase = .finish → ¬ Doomed s g st → Round header g s held st k (.stop (.ok ()), k')

/-- What comes later in a round. -/
theorem Round.earlier {st' : Sending} {written : Bytes} {x : Turn Sending Unit × Sink}
    (h : Round header g s held st' { k with written } x) (hdoomed : Doomed s g st → Doomed s g st')
    (hlast : st.phase = .finish → st'.phase = .finish) : Round header g s held st k x := by
  cases h with
  | wait hstood hwait hidle hphase hfinish =>
      exact .wait hstood hwait hidle (fun hd => hphase (hdoomed hd)) (hfinish ∘ hlast)
  | failed hstood hbegun hend hearly hunfair =>
      exact .failed hstood hbegun hend (hearly ∘ hlast) fun fin hfin hfair =>
        hunfair fin hfin (hfair.onward written)
  | succeeded hstood hend hnot => exact .succeeded hstood hend fun hd => hnot (hdoomed hd)

theorem run_round (fuel : Nat) (h : Stood header g s st (k.written ++ st.unsent))
    (hpipe : Unbroken k) (hencode : header.encode = .ok hd) (hfuel : stepsLeft s st < fuel) :
    Round header g s held st k (Sending.run s held fuel st k) := by
  induction fuel generalizing st k with
  | zero => exact absurd hfuel (Nat.not_lt_zero _)
  | succ fuel ih =>
      have hstep : Advances header g s held st k (st.step s held k) := step_advances h hpipe hencode
      have hshort : Doomed s g st → Short (st.step s held k).1 := fun hd =>
        step_doomed hd h.now.group_eq h.now.inactive
      have hlast : st.phase = .finish → Last (st.step s held k).1 :=
        step_last h.now.inactive
      unfold Sending.run
      generalize st.step s held k = x at hstep hshort hlast
      cases hstep with
      | @go st' written hstood hless =>
          have hrest := ih (k := { k with written }) hstood ⟨hpipe.reliable, hpipe.endable⟩
            (Nat.lt_of_lt_of_le hless (Nat.le_of_lt_succ hfuel))
          refine hrest.earlier (fun hd => ?_) fun hfinish => ?_
          · cases hshort hd with
            | go hphase => exact ⟨hd.aborted, hphase⟩
          · cases hlast hfinish with
            | go hphase => exact hphase
      | wait hstood hwait hidle =>
          refine .wait hstood hwait hidle (fun hd => ?_) fun hfinish => ?_
          · cases hshort hd with
            | wait hphase => exact hphase
          · cases hlast hfinish with
            | wait hphase => exact hphase
      | failed hstood hbegun hend hunfair => exact .failed hstood hbegun hend hend hunfair
      | succeeded hstood hend =>
          refine .succeeded hstood hend fun hd => ?_
          cases hshort hd

/-- The pipe of a round, which takes as many bytes as there is room for. -/
def pipe (room : Option Nat) : Sink := { Sink.unlimited with blockAfter := room }

/-- **A round continues what was put out before.** -/
theorem poll_round {out : Bytes} (h : Stood header g s st (out ++ st.unsent))
    (hencode : header.encode = .ok hd) (room : Option Nat) :
    Round header g s held st ((pipe room).behind out)
      ((st.poll s held (pipe room)).1, (st.poll s held (pipe room)).2.behind out) := by
  have hwritten : ((pipe room).behind out).written = out := List.append_nil out
  have hround : Round header g s held st ((pipe room).behind out)
      (Sending.run s held (st.steps s) st ((pipe room).behind out)) :=
    run_round _ (hwritten.symm ▸ h) ⟨rfl, rfl⟩ hencode (stepsLeft_lt s h.now.inactive)
  rw [Sending.run_behind] at hround
  exact hround

-- ── what was put out ────────────────────────────────────────────────

/-- While the sender goes on, it may still complete the stream. -/
theorem Stood.promising {out unsent : Bytes} (h : Stood header g s st (out ++ unsent))
    (hencode : header.encode = .ok hd) : Receiving.Promising header out := by
  obtain ⟨-, -, hout⟩ | ⟨hd', behind, hencode', hout, hsent⟩ := h.now.sent
  · obtain ⟨rfl, -⟩ := List.append_eq_nil_iff.mp hout
    exact ⟨hd ++ groupEnding header, groupEnding header, [],
      GroupHeader.inverts header hd hencode _, .terminator (terminator_groupEnding header)⟩
  · obtain ⟨left, payloads, hbody, -, -⟩ := hsent.completes
    refine ⟨unsent ++ left, behind ++ left, payloads, ?_, hbody⟩
    rw [← List.append_assoc, hout, List.append_assoc]
    exact GroupHeader.inverts header hd' hencode' _

/-- Of a sender that has nothing left to put out the header can be read. -/
theorem Stood.header_read {out : Bytes} (h : Stood header g s st (out ++ st.unsent)) (hidle : Idle st) :
    ∃ sent, GroupHeader.decode.run out = (.ok header, sent) := by
  rw [hidle.unsent, List.append_nil] at h
  obtain ⟨hheader, -, -⟩ | ⟨hd, behind, hencode, hout, -⟩ := h.now.sent
  · exact absurd hheader hidle.begun
  · rw [hout]
    exact ⟨behind, GroupHeader.inverts header hd hencode behind⟩

/-- What a sender has put out that failed behind the header is no body. -/
theorem Stood.cut {out : Bytes} (h : Stood header g s st out) (hbegun : st.phase ≠ .header)
    (hphase : st.phase ≠ .finish) (hend : header.flags.hasEnd = false) :
    ∃ sent, GroupHeader.decode.run out = (.ok header, sent) ∧
      ∀ payloads, ¬ Body header.flags payloads sent := by
  obtain ⟨hheader, -, -⟩ | ⟨hd, behind, hencode, hout, hsent⟩ := h.now.sent
  · exact absurd hheader hbegun
  · obtain ⟨left, payloads, hbody, hmissing, -⟩ := hsent.completes
    refine ⟨behind, ?_, fun held hheld => ?_⟩
    · rw [hout]
      exact GroupHeader.inverts header hd hencode behind
    · obtain ⟨hnothing, -⟩ := hheld.ahead.cut hbody.ahead
      exact hmissing hend hphase (hnothing hend)

/-- What a sender has put out that came to the end is a body of what was sent of the frames, in every
    later store. -/
theorem Stood.whole {out : Bytes} (h : Stood header g s st out) (hphase : st.phase = .finish) :
    ∃ sent, GroupHeader.decode.run out = (.ok header, sent) ∧
      ∀ fin, s.Grows fin →
        Body header.flags ((fin.group g).frames.map (sentPayload fin)) sent := by
  obtain ⟨hheader, -, -⟩ | ⟨hd, behind, hencode, hout, -⟩ := h.now.sent
  · cases hphase.symm.trans hheader
  · refine ⟨behind, ?_, fun fin hfin => ?_⟩
    · rw [hout]
      exact GroupHeader.inverts header hd hencode behind
    · obtain ⟨hd', hencode', hwritten, hfits⟩ := (h fin hfin).stream hphase
      obtain rfl := Except.ok.inj (hencode.symm.trans hencode')
      obtain rfl := List.append_cancel_left (hout.symm.trans hwritten)
      exact Transmission.body_sent header hfits

end Rounds

end LiveMedia.Transfer
