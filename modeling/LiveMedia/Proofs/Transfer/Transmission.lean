import LiveMedia.Proofs.Transfer.Acceptance
import LiveMedia.Proofs.Transfer.Sent

/-!
# A group is sent while it is written

A transmission is a list of moments. In each of them a publisher does something, or the stream lets more
or less through, or the sender takes one step; so whoever runs when, and for how long, there is a list
that says so. `Reached` is what holds of the sender between moments. It is stated against the store at
the end of the list, since every store before it can only have grown into it.

If the group is written until it is closed and its frames are whole in the end, the sender never fails,
and once nothing holds it up it succeeds (`finish_succeeds`). What it has written then is the header and a
body with the payloads of the group, and a receiver of these bytes makes the same group again
(`transfers_whole_groups`).
-/

namespace LiveMedia.Transfer

open LiveMedia.Wire LiveMedia.Message LiveMedia.Live LiveMedia.Stream

-- ── transmissions ───────────────────────────────────────────────────

/-- One thing that happens while a group is sent. -/
inductive Moment where
  | write (op : Operation)
  /-- The stream waits after so many bytes, or does not wait. -/
  | allow (limit : Option Nat)
  /-- The sender takes a step, while the others hold what they hold. -/
  | step (others : Holdings)

/-- A sender, the store it reads and the sink it writes. -/
structure Transmission where
  store : Store
  turn : Turn Sending Unit
  sink : Sink

namespace Transmission

/-- A sender that has written nothing, at the start of a group. -/
def start (header : GroupHeader) (g : GroupWriter) (store : Store) (sink : Sink) : Transmission :=
  ⟨store, .go (.start header g.cursor), sink⟩

/-- What is held: by the sender, and by the others. -/
def held (st : Sending) (others : Holdings) : Holdings := .groupCursor st.cursor.group :: others

/-- A sender that has stopped stays as it is. -/
def next (t : Transmission) : Moment → Transmission
  | .write op => { t with store := op.perform t.store }
  | .allow limit => { t with sink := t.sink.allow limit }
  | .step others => match t.turn with
    | .go st | .wait st =>
      let (turn, sink) := st.step t.store (held st others) t.sink
      { t with turn, sink }
    | .stop _ => t

def run (t : Transmission) : List Moment → Transmission
  | [] => t
  | m :: ms => (t.next m).run ms

/-- The store after what the publisher does in the moments. -/
def storeAfter : Store → List Moment → Store
  | s, [] => s
  | s, .write op :: ms => storeAfter (op.perform s) ms
  | s, .allow _ :: ms => storeAfter s ms
  | s, .step _ :: ms => storeAfter s ms

/-- The sender is polled once more, and the stream lets everything through. -/
def finish (t : Transmission) (others : Holdings) : Turn Sending Unit × Sink :=
  match t.turn with
  | .go st | .wait st => st.poll t.store (held st others) (t.sink.allow none)
  | .stop result => (.stop result, t.sink)

-- ── what holds between moments ──────────────────────────────────────

section Invariant

variable {fin s : Store} {header : GroupHeader} {g : GroupId} {t : Transmission}

variable (fin header g) in
/-- How far a sender has come. One that has failed has not written all, or has more to write, or its
    stream cannot be ended. -/
inductive Reached (s : Store) : Turn Sending Unit → Sink → Prop where
  | go {st : Sending} {sink : Sink} :
      Stands fin header g s st (sink.written ++ st.unsent) → Reached s (.go st) sink
  | wait {st : Sending} {sink : Sink} :
      Stands fin header g s st (sink.written ++ st.unsent) → Reached s (.wait st) sink
  | failed {st : Sending} {sink : Sink} {rest : Bytes} {e : TransportError} :
      Stands fin header g s st (sink.written ++ rest) → rest ≠ [] ∨ st.phase ≠ .finish →
      Reached s (.stop (.error e)) sink
  | refused {st : Sending} {sink : Sink} {e : TransportError} :
      Stands fin header g s st sink.written → st.phase = .finish → sink.refusal ≠ none →
      Reached s (.stop (.error e)) sink
  | succeeded {st : Sending} {sink : Sink} :
      Stands fin header g s st sink.written → st.phase = .finish → sink.finished = true →
      Reached s (.stop (.ok ())) sink

theorem reached_of_leads {held : Holdings} {st : Sending} {sink : Sink} {x : Turn Sending Unit × Sink}
    (h : Leads fin header g s held st sink x) : Reached fin header g s x.1 x.2 := by
  cases h with
  | go h _ => exact .go h
  | wait h _ => exact .wait h
  | failed h hrest _ => exact .failed h hrest
  | refused h hphase hrefusal => exact .refused h hphase hrefusal
  | succeeded h hphase => exact .succeeded h hphase rfl

theorem Reached.later {s' : Store} {turn : Turn Sending Unit} {sink : Sink}
    (h : Reached fin header g s turn sink) (hgrows : s.Grows s') :
    Reached fin header g s' turn sink := by
  cases h with
  | go h => exact .go (h.later hgrows)
  | wait h => exact .wait (h.later hgrows)
  | failed h hrest => exact .failed (h.later hgrows) hrest
  | refused h hphase hrefusal => exact .refused (h.later hgrows) hphase hrefusal
  | succeeded h hphase hfinished => exact .succeeded (h.later hgrows) hphase hfinished

theorem Reached.allow {turn : Turn Sending Unit} {sink : Sink}
    (h : Reached fin header g s turn sink) (limit : Option Nat) :
    Reached fin header g s turn (sink.allow limit) := by
  cases h with
  | go h => exact .go h
  | wait h => exact .wait h
  | failed h hrest => exact .failed h hrest
  | refused h hphase hrefusal => exact .refused h hphase hrefusal
  | succeeded h hphase hfinished => exact .succeeded h hphase hfinished

/-- A sender that has written nothing. -/
theorem reached_start (fin : Store) (header : GroupHeader) (g : GroupWriter) (store : Store)
    {sink : Sink} (hsink : sink.written = []) :
    Reached fin header g.group store (start header g store sink).turn sink := by
  refine .go ⟨rfl, rfl, rfl, Nat.zero_le _, .inl ⟨rfl, rfl, ?_⟩⟩
  rw [hsink]
  rfl

/-- The sender leaves the store to the publisher. -/
theorem store_next_step (t : Transmission) (others : Holdings) :
    (t.next (.step others)).store = t.store := by
  obtain ⟨store, turn, sink⟩ := t
  cases turn with
  | go st => rfl
  | wait st => rfl
  | stop result => rfl

theorem store_run (t : Transmission) (ms : List Moment) :
    (t.run ms).store = storeAfter t.store ms := by
  induction ms generalizing t with
  | nil => rfl
  | cons m ms ih =>
      cases m with
      | write op => exact ih (t.next (.write op))
      | allow limit => exact ih (t.next (.allow limit))
      | step others =>
          show ((t.next (.step others)).run ms).store = storeAfter t.store ms
          rw [ih, store_next_step]

/-- The store of a transmission grows from moment to moment. -/
theorem grows_next (t : Transmission) (m : Moment) : t.store.Grows (t.next m).store := by
  cases m with
  | write op => exact op.grows t.store
  | allow limit => exact .refl _
  | step others =>
      rw [store_next_step]
      exact .refl _

theorem grows_run (t : Transmission) (ms : List Moment) : t.store.Grows (t.run ms).store := by
  induction ms generalizing t with
  | nil => exact .refl _
  | cons m ms ih => exact (t.grows_next m).trans (ih (t.next m))

/-- A step takes a sender on from where it stands. -/
theorem step_reached {st : Sending} (others : Holdings) (hgrows : t.store.Grows fin)
    (h : Stands fin header g t.store st (t.sink.written ++ st.unsent)) :
    Reached fin header g t.store (st.step t.store (held st others) t.sink).1
      (st.step t.store (held st others) t.sink).2 :=
  reached_of_leads (step_leads hgrows h)

theorem next_reached (m : Moment) (hgrows : (t.next m).store.Grows fin)
    (h : Reached fin header g t.store t.turn t.sink) :
    Reached fin header g (t.next m).store (t.next m).turn (t.next m).sink := by
  cases m with
  | write op => exact h.later (op.grows t.store)
  | allow limit => exact h.allow limit
  | step others =>
      obtain ⟨store, turn, sink⟩ := t
      have hstore := ((⟨store, turn, sink⟩ : Transmission).grows_next (.step others)).trans hgrows
      cases h with
      | go h => exact step_reached (t := ⟨store, _, sink⟩) others hstore h
      | wait h => exact step_reached (t := ⟨store, _, sink⟩) others hstore h
      | failed h hrest => exact .failed h hrest
      | refused h hphase hrefusal => exact .refused h hphase hrefusal
      | succeeded h hphase hfinished => exact .succeeded h hphase hfinished

/-- **How far a sender has come after any moments.** -/
theorem run_reached (ms : List Moment) (hgrows : (t.run ms).store.Grows fin)
    (h : Reached fin header g t.store t.turn t.sink) :
    Reached fin header g (t.run ms).store (t.run ms).turn (t.run ms).sink := by
  induction ms generalizing t with
  | nil => exact h
  | cons m ms ih =>
      have hnext := next_reached m (((t.next m).grows_run ms).trans hgrows) h
      exact ih hgrows hnext

end Invariant

-- ── sending that does not fail ──────────────────────────────────────

/-- Until the group has ended, somebody holds it whenever the sender takes a step. -/
def Attended (g : GroupId) : Store → List Moment → Prop
  | _, [] => True
  | s, .write op :: ms => Attended g (op.perform s) ms
  | s, .allow _ :: ms => Attended g s ms
  | s, .step others :: ms => ((s.group g).ending = none → .groupWriter g ∈ others) ∧ Attended g s ms

/-- A group is closed, and every frame in it is whole. -/
structure WholeGroup (s : Store) (g : GroupId) : Prop where
  closed : (s.group g).ending = some .complete
  whole : ∀ w ∈ (s.group g).frames, Whole s w

section Success

variable {fin : Store} {header : GroupHeader} {g : GroupId} {t : Transmission} {hd : Bytes}

/-- The sender is under way on a stream that does not fail and can be ended, or it has succeeded. -/
structure Sound (t : Transmission) : Prop where
  reliable : t.sink.failAfter = none
  endable : t.sink.refusal = none
  unfailed : ∀ e, t.turn ≠ .stop (.error e)

/-- A step on a fair occasion does not fail. -/
theorem sound_of_leads {s store : Store} {held : Holdings} {st : Sending} {sink : Sink}
    {x : Turn Sending Unit × Sink} (h : Leads fin header g s held st sink x)
    (hfair : Fair fin header g s held sink) : Sound ⟨store, x.1, x.2⟩ := by
  cases h with
  | go _ _ => exact ⟨hfair.reliable, hfair.endable, fun e he => nomatch he⟩
  | wait _ _ => exact ⟨hfair.reliable, hfair.endable, fun e he => nomatch he⟩
  | failed _ _ hunfair => exact absurd hfair hunfair
  | refused _ _ hrefusal => exact absurd hfair.endable hrefusal
  | succeeded _ _ => exact ⟨hfair.reliable, hfair.endable, fun e he => nomatch he⟩

theorem fair_step {st : Sending} {others : Holdings} (hencode : header.encode = .ok hd)
    (hwhole : WholeGroup fin g) (hsound : Sound t)
    (h : Stands fin header g t.store st (t.sink.written ++ st.unsent))
    (hheld : (t.store.group g).ending = none → .groupWriter g ∈ others) :
    Fair fin header g t.store (held st others) t.sink where
  encodes := ⟨hd, hencode⟩
  reliable := hsound.reliable
  endable := hsound.endable
  isRead := by
    unfold held
    rw [h.group_eq]
    exact List.mem_cons_self
  isWritten hopen := List.mem_cons_of_mem _ (hheld hopen)
  closed := hwhole.closed
  whole := hwhole.whole

/-- The moments that are left are attended as well. -/
theorem Attended.next {m : Moment} {ms : List Moment} (h : Attended g t.store (m :: ms)) :
    Attended g (t.next m).store ms := by
  cases m with
  | write op => exact h
  | allow limit => exact h
  | step others =>
      rw [store_next_step]
      exact h.2

/-- At a moment at which its group is attended, a sender of a group that is whole in the end does not
    fail. -/
theorem next_sound (m : Moment) {ms : List Moment} (hencode : header.encode = .ok hd)
    (hwhole : WholeGroup fin g) (hgrows : t.store.Grows fin) (hattended : Attended g t.store (m :: ms))
    (h : Reached fin header g t.store t.turn t.sink) (hsound : Sound t) : Sound (t.next m) := by
  cases m with
  | write op => exact ⟨hsound.reliable, hsound.endable, hsound.unfailed⟩
  | allow limit => exact ⟨hsound.reliable, hsound.endable, hsound.unfailed⟩
  | step others =>
      obtain ⟨hheld, -⟩ := hattended
      obtain ⟨store, turn, sink⟩ := t
      have hstep : ∀ {st : Sending}, Stands fin header g store st (sink.written ++ st.unsent) →
          Sound ⟨store, (st.step store (held st others) sink).1,
            (st.step store (held st others) sink).2⟩ := by
        intro st hst
        have hfair := fair_step (t := ⟨store, turn, sink⟩) hencode hwhole hsound hst hheld
        exact sound_of_leads (step_leads hgrows hst) hfair
      cases h with
      | go h => exact hstep h
      | wait h => exact hstep h
      | failed _ _ => exact absurd rfl (hsound.unfailed _)
      | refused _ _ hrefusal => exact absurd hsound.endable hrefusal
      | succeeded _ _ _ => exact hsound

/-- A sender whose group is attended and whole in the end does not fail. -/
theorem run_sound (ms : List Moment) (hencode : header.encode = .ok hd) (hwhole : WholeGroup fin g)
    (hgrows : (t.run ms).store.Grows fin) (hattended : Attended g t.store ms)
    (h : Reached fin header g t.store t.turn t.sink) (hsound : Sound t) : Sound (t.run ms) := by
  induction ms generalizing t with
  | nil => exact hsound
  | cons m ms ih =>
      have hafter := ((t.next m).grows_run ms).trans hgrows
      have hnow : t.store.Grows fin := (t.grows_next m).trans hafter
      have hnext := next_sound m hencode hwhole hnow hattended h hsound
      exact ih hgrows hattended.next (next_reached m hafter h) hnext

/-- A whole group gives a sender nothing to wait for. -/
theorem WholeGroup.not_unfinished (hwhole : WholeGroup fin g) : ¬ Unfinished fin g := by
  rintro (hopen | ⟨w, hw, hopen⟩)
  · exact nomatch hopen.symm.trans hwhole.closed
  · exact nomatch hopen.symm.trans (hwhole.whole w hw).closed

/-- All that is left of a group that is whole is sent in one go. -/
theorem run_succeeds {held : Holdings} {st : Sending} {sink : Sink} (fuel : Nat)
    (hwhole : WholeGroup fin g) (hfair : Fair fin header g fin held sink)
    (hblock : sink.blockAfter = none) (h : Stands fin header g fin st (sink.written ++ st.unsent))
    (hfuel : stepsLeft fin st < fuel) :
    ∃ sink', Sending.run fin held fuel st sink = (.stop (.ok ()), sink') ∧
      Reached fin header g fin (.stop (.ok ())) sink' := by
  induction fuel generalizing st sink with
  | zero => exact absurd hfuel (Nat.not_lt_zero _)
  | succ fuel ih =>
      have hstep : Leads fin header g fin held st sink (st.step fin held sink) :=
        step_leads (.refl fin) h
      unfold Sending.run
      generalize st.step fin held sink = x at hstep
      cases hstep with
      | go h hlt =>
          exact ih (hfair.onward _) hblock h (by omega)
      | wait _ hwait =>
          rcases hwait with hunfinished | hblocked
          · exact absurd hunfinished hwhole.not_unfinished
          · exact absurd hblock hblocked
      | failed _ _ hunfair => exact absurd hfair hunfair
      | refused _ _ hrefusal => exact absurd hfair.endable hrefusal
      | succeeded h hphase => exact ⟨_, rfl, .succeeded h hphase rfl⟩

/-- **The sender of a whole group succeeds** once the stream lets everything through. -/
theorem finish_succeeds (others : Holdings) (hencode : header.encode = .ok hd)
    (hwhole : WholeGroup fin g) (hfin : t.store = fin)
    (h : Reached fin header g t.store t.turn t.sink) (hsound : Sound t) :
    ∃ sink, t.finish others = (.stop (.ok ()), sink) ∧
      Reached fin header g fin (.stop (.ok ())) sink := by
  subst hfin
  obtain ⟨store, turn, sink⟩ := t
  have hpoll : ∀ {st : Sending}, Stands store header g store st (sink.written ++ st.unsent) →
      ∃ sink', st.poll store (held st others) (sink.allow none) = (.stop (.ok ()), sink') ∧
        Reached store header g store (.stop (.ok ())) sink' := by
    intro st hst
    have hallowed : Sound ⟨store, turn, sink.allow none⟩ :=
      ⟨hsound.reliable, hsound.endable, hsound.unfailed⟩
    have hfair : Fair store header g store (held st others) (sink.allow none) :=
      fair_step hencode hwhole hallowed hst fun hopen => nomatch hopen.symm.trans hwhole.closed
    exact run_succeeds _ hwhole hfair rfl hst (stepsLeft_lt store hst.inactive)
  cases h with
  | go h => exact hpoll h
  | wait h => exact hpoll h
  | failed h hrest => exact absurd rfl (hsound.unfailed _)
  | refused _ _ hrefusal => exact absurd hsound.endable hrefusal
  | succeeded h hphase hfinished => exact ⟨sink, rfl, .succeeded h hphase hfinished⟩

end Success

-- ── what was sent is received ───────────────────────────────────────

/-- A sender that has succeeded has written the header, an object for every frame and the end. -/
theorem Reached.stream {fin s : Store} {header : GroupHeader} {g : GroupId} {sink : Sink}
    (h : Reached fin header g s (.stop (.ok ())) sink) :
    ∃ hd, header.encode = .ok hd ∧ sink.finished = true ∧
      sink.written = hd ++ (sentObjects header fin (fin.group g).frames ++ groupEnding header) ∧
      ∀ w ∈ (fin.group g).frames, Fits fin w := by
  cases h with
  | succeeded h hphase hfinished =>
      obtain ⟨hd, hencode, hout, hfits⟩ := h.stream hphase
      exact ⟨hd, hencode, hfinished, hout, hfits⟩

/-- Objects for all frames and the end make a body. -/
theorem body_sent (header : GroupHeader) {s : Store} {ws : List FrameWriter}
    (h : ∀ w ∈ ws, Fits s w) :
    Body header.flags (ws.map (sentPayload s)) (sentObjects header s ws ++ groupEnding header) := by
  have hbody := body_objectsBytes (length_sentPayload_le h) (.terminator (terminator_groupEnding header))
  rw [List.append_nil] at hbody
  exact hbody

/-- What is sent of whole frames is what they hold. -/
theorem map_sentPayload {s : Store} {ws : List FrameWriter} (h : ∀ w ∈ ws, Whole s w) :
    ws.map (sentPayload s) = s.payloads ws := by
  refine List.map_congr_left fun w hw => ?_
  unfold sentPayload
  split
  · next hzero =>
    have hlength := (h w hw).length_eq
    rw [hzero] at hlength
    exact (List.length_eq_zero_iff.mp hlength).symm
  · rfl

/-- **A whole group is transferred as it is.** The header can be written, in the course of any moments
    the group is written and in the end it is whole. Then the sender succeeds, and whoever receives its
    bytes, however they arrive, on a track that takes the group, gets the header and a complete group
    with the same payloads, and no other. -/
theorem transfers_whole_groups (header : GroupHeader) (hd : Bytes) (g : GroupWriter) (store : Store)
    (ms : List Moment) (others : Holdings) (hencode : header.encode = .ok hd)
    (hattended : Attended g.group store ms)
    (hwhole : WholeGroup (storeAfter store ms) g.group) :
    let final := storeAfter store ms
    ∃ sink, ((start header g store .unlimited).run ms).finish others = (.stop (.ok ()), sink) ∧
      sink.finished = true ∧
      ∀ (track : TrackWriter) (s : Store) (r : Reader) (made : GroupWriter × Store),
        track.track < s.tracks.size → r.content = sink.written → r.failure? = none →
        s.createGroup track header.groupId = .ok made →
        ∃ s' r', Receiving.receive track s r = (.stop (.ok header), s', r') ∧
          Receiving.Received track s header
            (fun payloads => payloads = final.payloads (final.group g.group).frames) s' := by
  intro final
  have hfinal : ((start header g store .unlimited).run ms).store = final := store_run _ ms
  have hstart : Reached final header g.group store (start header g store .unlimited).turn .unlimited :=
    reached_start final header g store rfl
  have hgrows : ((start header g store .unlimited).run ms).store.Grows final := by
    rw [hfinal]
    exact .refl final
  have hreached := run_reached ms hgrows hstart
  have hsound := run_sound ms hencode hwhole hgrows hattended hstart
    ⟨rfl, rfl, fun e he => nomatch he⟩
  obtain ⟨sink, hfinish, hstream⟩ := finish_succeeds others hencode hwhole hfinal hreached hsound
  obtain ⟨hd', hencode', hfinished, hwritten, hfits⟩ := hstream.stream
  refine ⟨sink, hfinish, hfinished, ?_⟩
  intro track s r made htrack hcontent hend hcreate
  have hbody := body_sent header hfits
  rw [map_sentPayload hwhole.whole] at hbody
  have hrun := GroupHeader.inverts header hd' hencode'
    (sentObjects header final (final.group g.group).frames ++ groupEnding header)
  rw [← hwritten, ← hcontent] at hrun
  obtain ⟨s', r', hreceive, hreceived⟩ := Receiving.receive_received htrack hrun hcreate
  exact ⟨s', r', hreceive, hreceived.only ⟨hend, hbody⟩⟩

/-- A frame in two chunks and an empty frame. The sender is started before there is a frame, and waits for
    the second chunk and for the stream. -/
def lateFrames : List Moment :=
  [.step [.groupWriter 0], .step [.groupWriter 0], .step [.groupWriter 0],
    .write (.createFrame ⟨0, 7⟩ 3), .step [.groupWriter 0], .allow (some 5), .step [.groupWriter 0],
    .write (.writeChunk ⟨0, 3⟩ [65]), .allow (some 8), .step [.groupWriter 0],
    .write (.writeChunk ⟨0, 3⟩ [66, 67]), .step [.groupWriter 0], .write (.closeFrame ⟨0, 3⟩),
    .write (.createFrame ⟨0, 7⟩ 0), .write (.closeFrame ⟨1, 0⟩), .write (.closeGroup ⟨0, 7⟩)]

theorem transfers_whole_groups_lateFrames :
    let header : GroupHeader := ⟨⟨true, false, false, false⟩, 0, 7, 0, 0⟩
    Attended 0 (Store.empty.newGroup 7).2 lateFrames ∧
      WholeGroup (storeAfter (Store.empty.newGroup 7).2 lateFrames) 0 ∧
      ∃ sink, ((start header ⟨0, 7⟩ (Store.empty.newGroup 7).2 .unlimited).run lateFrames).finish [] =
          (.stop (.ok ()), sink) ∧
        ∃ s' r', Receiving.receive ⟨0, ⟨"audio", 0⟩⟩ (Store.empty.newTrack ⟨"audio", 0⟩).2
            ⟨sink.written, []⟩ = (.stop (.ok header), s', r') ∧
          s'.Complete 0 [[65, 66, 67], []] := by
  intro header
  have hattended : Attended 0 (Store.empty.newGroup 7).2 lateFrames := by
    simp [Attended, lateFrames]
  have hfinal : storeAfter (Store.empty.newGroup 7).2 lateFrames =
      ⟨#[⟨[[65], [66, 67]], 3, some .complete⟩, ⟨[], 0, some .complete⟩],
        #[⟨[⟨0, 3⟩, ⟨1, 0⟩], some .complete⟩], #[], #[]⟩ := rfl
  have hwhole : WholeGroup (storeAfter (Store.empty.newGroup 7).2 lateFrames) 0 := by
    rw [hfinal]
    refine ⟨rfl, fun w hw => ?_⟩
    rcases List.mem_cons.mp hw with rfl | hw
    · exact ⟨rfl, rfl, by decide⟩
    · obtain rfl := List.mem_singleton.mp hw
      exact ⟨rfl, rfl, by decide⟩
  obtain ⟨sink, hfinish, -, hreceive⟩ := transfers_whole_groups header [17, 0, 7, 0] ⟨0, 7⟩
    (Store.empty.newGroup 7).2 lateFrames [] rfl hattended hwhole
  obtain ⟨s', r', hstop, hreceived⟩ := hreceive ⟨0, ⟨"audio", 0⟩⟩
    (Store.empty.newTrack ⟨"audio", 0⟩).2 ⟨sink.written, []⟩ _ Nat.zero_lt_one
    (List.append_nil _) rfl rfl
  rw [hfinal] at hreceived
  exact ⟨hattended, hwhole, sink, hfinish, s', r', hstop, (hreceived.complete_iff _).mpr rfl⟩

end Transmission

end LiveMedia.Transfer
