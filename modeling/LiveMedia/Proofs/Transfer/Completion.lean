import LiveMedia.Proofs.Live.GroupFollowing
import LiveMedia.Proofs.Transfer.Transmission
import Mathlib.Data.List.Induction

/-!
# What a sender passes was completed

A sender reads a frame chunk by chunk and goes on to the next one when it is told that there are no more,
which is when the frame was closed. So at the moment in which a frame with a payload is passed it is
complete, and whoever reads it then reads all of it. What was completed may be aborted later, so this is
said of moments and not of the store in the end: `CompletedIn` remembers the moment, and `Behind` says that
the frames behind a sender have had theirs. One step passes at most one frame (`step_passes`).

Nothing is read of a frame without bytes. It is passed as soon as it is there, whatever becomes of it, and
goes out as a whole frame even if it was aborted.
-/

namespace LiveMedia.Transfer

open LiveMedia.Wire LiveMedia.Message LiveMedia.Live LiveMedia.Stream

-- ── frames that are complete ────────────────────────────────────────

/-- The frame at this place of the group is closed, and it holds what was announced. -/
structure CompleteAt (s : Store) (g : GroupId) (i : Nat) (w : FrameWriter) : Prop where
  here : (s.group g).frames[i]? = some w
  closed : (s.frame w.frame).ending = some .complete
  length_eq : (s.frame w.frame).payload.length = w.size

/-- A reader of the group that stands before a complete frame is given all of it. -/
theorem CompleteAt.readFrame {s : Store} {g : GroupId} {i : Nat} {w : FrameWriter}
    (h : CompleteAt s g i w) (halive : ∀ e, (s.group g).ending ≠ some (.aborted e))
    (held : Holdings) (sequence : Nat) :
    (s.readFrame held ⟨g, sequence, i, none⟩).1 = .ok (some (s.frame w.frame).payload) := by
  obtain ⟨hlt, -⟩ := List.getElem?_eq_some_iff.mp h.here
  -- one who took readers of all frames before it stands there
  let before := ((s.group g).frames.take i).map fun w => FrameGift.reader w.cursor
  have hlength : before.length = i := by
    rw [List.length_map, List.length_take, Nat.min_eq_left (Nat.le_of_lt hlt)]
  have hfollows : GroupFollows g s ⟨⟨g, sequence, i, none⟩, before⟩ := by
    refine ⟨rfl, fun k gift hk => ?_, hlength.symm, fun c hc => by cases hc⟩
    rw [List.getElem?_map] at hk
    obtain ⟨w', hw', rfl⟩ := Option.map_eq_some_iff.mp hk
    obtain ⟨hk, -⟩ := List.getElem?_eq_some_iff.mp hw'
    rw [List.length_take] at hk
    rw [List.getElem?_take_of_lt (by omega)] at hw'
    exact ⟨w', hw', rfl⟩
  refine hfollows.readFrame_eq_some held halive ?_ h.closed
  exact hlength ▸ h.here

/-- What a complete frame holds is what it will hold. -/
theorem CompleteAt.payload_eq {s s' : Store} {g : GroupId} {i : Nat} {w : FrameWriter}
    (h : CompleteAt s g i w) (hgrows : s.Grows s') :
    (s'.frame w.frame).payload = (s.frame w.frame).payload := by
  refine congrArg List.flatten ((hgrows.frame w.frame).frozen fun hnone => ?_)
  cases h.closed.symm.trans hnone

-- ── what one step passes ────────────────────────────────────────────

/-- The number of frames that are done with at a position. One that was begun is not. -/
def SendPhase.passed (position : Nat) : SendPhase → Nat
  | header | nextFrame | finish => position
  | size _ | payload _ _ => position - 1

/-- The number of frames behind a sender. -/
def Sending.passed (st : Sending) : Nat := st.phase.passed st.cursor.position

/-- A sender that goes on has passed nothing, or one frame of the group, and that is empty or complete; or it
    has found the end of the group. -/
inductive Passes (s : Store) (g : GroupId) (st st' : Sending) : Prop where
  | nothing : st'.passed = st.passed → (st'.phase = .finish → st.phase = .finish) → Passes s g st st'
  | frame {w : FrameWriter} : st'.passed = st.passed + 1 → st'.phase ≠ .finish →
      (s.group g).frames[st.passed]? = some w → w.size = 0 ∨ CompleteAt s g st.passed w →
      Passes s g st st'
  | ending : st'.passed = st.passed → (s.group g).ending = some .complete → Passes s g st st'

/-- Where a step leads a sender, and what it passes. One that fails puts out nothing but what it had to. -/
inductive PassesTo (s : Store) (g : GroupId) (st : Sending) (sink : Sink) :
    Turn Sending Unit × Sink → Prop where
  | go {st' : Sending} {sink' : Sink} : Passes s g st st' → PassesTo s g st sink (.go st', sink')
  | wait {st' : Sending} {sink' : Sink} : Passes s g st st' → PassesTo s g st sink (.wait st', sink')
  | failed {e : TransportError} {sink' : Sink} {rest : Bytes} :
      sink'.written ++ rest = sink.written ++ st.unsent →
      PassesTo s g st sink (.stop (.error e), sink')
  | succeeded {sink' : Sink} : PassesTo s g st sink (.stop (.ok ()), sink')

section Steps

variable {fin s : Store} {header : GroupHeader} {g : GroupId} {held : Holdings} {st : Sending}
  {sink : Sink}

/-- A sender that fails with nothing written. -/
theorem PassesTo.fail {e : TransportError} : PassesTo s g st sink (.stop (.error e), sink) :=
  .failed rfl

theorem write_passes {x : Turn Sending Unit × Sink} (hflushes : Flushes st sink x) :
    PassesTo s g st sink x := by
  cases hflushes with
  | all => exact .go (.nothing rfl id)
  | blocked _ _ => exact .wait (.nothing rfl id)
  | failed _ _ heq => exact .failed heq

/-- A frame without bytes is passed as it is. -/
theorem size_passes {cursor : GroupCursor} {frame : FrameCursor} {x : Turn Sending Unit × Sink}
    (hgrows : s.Grows fin)
    (h : Stands fin header g s ⟨header, cursor, [], .size frame⟩ sink.written)
    (hmoves : Moves s held header cursor sink (.size frame) x) :
    PassesTo s g ⟨header, cursor, [], .size frame⟩ sink x := by
  obtain ⟨-, -, -, hposition, ⟨hphase, -, -⟩ | ⟨hd, behind, hencode, hout, hsent⟩⟩ := id h
  · cases hphase
  dsimp only at hposition hsent
  generalize hp : cursor.position = position at hposition hsent
  cases hsent with
  | @size done rest w hframes hfits =>
  have hpassed : Sending.passed ⟨header, cursor, [], .size w.cursor⟩ = done.length := by
    rw [Sending.passed, hp, SendPhase.passed, Nat.add_sub_cancel]
  cases hmoves with
  | empty hzero =>
      refine .go (.frame (w := w) ?_ (fun h => by cases h) ?_ (.inl hzero))
      · rw [hpassed]
        exact hp
      · rw [hpassed]
        exact frame_begun hgrows hframes hposition
  | size _ _ => exact .go (.nothing rfl fun h => by cases h)
  | tooLarge _ => exact .fail

/-- A frame is passed when a sender is told that there are no more chunks. Then it is complete. -/
theorem payload_passes {cursor : GroupCursor} {frame : FrameCursor} {left : Nat}
    {x : Turn Sending Unit × Sink} (hgrows : s.Grows fin)
    (h : Stands fin header g s ⟨header, cursor, [], .payload frame left⟩ sink.written)
    (hmoves : Moves s held header cursor sink (.payload frame left) x) :
    PassesTo s g ⟨header, cursor, [], .payload frame left⟩ sink x := by
  obtain ⟨-, -, -, hposition, ⟨hphase, -, -⟩ | ⟨hd, behind, hencode, hout, hsent⟩⟩ := id h
  · cases hphase
  dsimp only at hposition hsent
  generalize hp : cursor.position = position at hposition hsent
  cases hsent with
  | @payload done rest w chunks more left hframes hfits hchunks hne hsize hleft =>
  have hframe := hgrows.frame w.frame
  cases hmoves with
  | chunk _ _ => exact .go (.nothing rfl fun h => by cases h)
  | frameEnd hclosed hle =>
      have hpassed : Sending.passed ⟨header, cursor, [], .payload ⟨w.frame, w.size, chunks.length⟩ 0⟩ =
          done.length := by
        rw [Sending.passed, hp, SendPhase.passed, Nat.add_sub_cancel]
      have hhere := frame_begun hgrows hframes hposition
      have hlength : (s.frame w.frame).payload.length = w.size := by
        obtain rfl := rest_eq_nil hchunks (hframe.length_le hclosed hle)
        have hall : (fin.frame w.frame).chunks = (s.frame w.frame).chunks :=
          hframe.frozen fun hnone => by cases hclosed.symm.trans hnone
        rw [Frame.payload, ← hall, hchunks, List.append_nil]
        exact hleft
      refine .go (.frame (w := w) ?_ (fun h => by cases h) ?_ (.inr ⟨?_, hclosed, hlength⟩))
      · rw [hpassed]
        exact hp
      · rw [hpassed]
        exact hhere
      · rw [hpassed]
        exact hhere
  | awaitChunk _ => exact .wait (.nothing rfl fun h => by cases h)
  | tooLong _ _ => exact .fail
  | tooShort _ _ _ => exact .fail
  | noChunk _ _ => exact .fail

/-- **What a step of a sender passes.** -/
theorem step_passes (hgrows : s.Grows fin)
    (h : Stands fin header g s st (sink.written ++ st.unsent)) :
    PassesTo s g st sink (st.step s held sink) := by
  rcases step_cases st h.inactive with ⟨-, hflushes⟩ | ⟨hunsent, hmoves⟩
  · exact write_passes hflushes
  · generalize st.step s held sink = x at hmoves
    obtain ⟨header', cursor, unsent, phase⟩ := st
    obtain rfl : header' = header := h.header_eq
    obtain rfl : cursor.group = g := h.group_eq
    obtain rfl : unsent = [] := hunsent
    rw [List.append_nil] at h
    cases phase with
    | header =>
        cases hmoves with
        | header _ => exact .go (.nothing rfl fun h => by cases h)
        | noHeader _ => exact .fail
    | nextFrame =>
        cases hmoves with
        | frame _ _ => exact .go (.nothing rfl fun h => by cases h)
        | ending hclosed _ => exact .go (.ending rfl hclosed)
        | awaitFrame _ => exact .wait (.nothing rfl fun h => by cases h)
        | noFrame _ _ => exact .fail
    | size frame => exact size_passes hgrows h hmoves
    | payload frame left => exact payload_passes hgrows h hmoves
    | finish =>
        cases hmoves with
        | finish _ => exact .succeeded
        | refused _ => exact .fail

end Steps

-- ── what is behind a sender ─────────────────────────────────────────

namespace Transmission

/-- The frame was complete at some moment. -/
def CompletedIn (store : Store) (ms : List Moment) (g : GroupId) (i : Nat) (w : FrameWriter) : Prop :=
  ∃ before after, ms = before ++ after ∧ CompleteAt (storeAfter store before) g i w

/-- The frame was complete at some moment, and the group could be read then. -/
def ReadableIn (store : Store) (ms : List Moment) (g : GroupId) (i : Nat) (w : FrameWriter) : Prop :=
  ∃ before after, ms = before ++ after ∧ CompleteAt (storeAfter store before) g i w ∧
    ∀ e, ((storeAfter store before).group g).ending ≠ some (.aborted e)

theorem run_append (t : Transmission) (ms more : List Moment) :
    t.run (ms ++ more) = (t.run ms).run more := by
  induction ms generalizing t with
  | nil => rfl
  | cons m ms ih => exact ih (t.next m)

/-- The store grows from one moment to all later ones. -/
theorem grows_storeAfter (s : Store) (before after : List Moment) :
    (storeAfter s before).Grows (storeAfter s (before ++ after)) := by
  let t : Transmission := ⟨s, .stop (.ok ()), .unlimited⟩
  have hbefore : (t.run before).store = storeAfter s before := store_run t before
  have hall : (t.run (before ++ after)).store = storeAfter s (before ++ after) :=
    store_run t (before ++ after)
  rw [run_append] at hall
  rw [← hbefore, ← hall]
  exact grows_run (t.run before) after

section

variable {fin store : Store} {past : List Moment} {header : GroupHeader} {g : GroupId}
  {st st' : Sending} {turn : Turn Sending Unit} {sink : Sink} {t : Transmission}

theorem CompletedIn.append {i : Nat} {w : FrameWriter} (h : CompletedIn store past g i w)
    (more : List Moment) : CompletedIn store (past ++ more) g i w := by
  obtain ⟨before, after, rfl, hcomplete⟩ := h
  exact ⟨before, after ++ more, List.append_assoc _ _ _, hcomplete⟩

theorem ReadableIn.append {i : Nat} {w : FrameWriter} (h : ReadableIn store past g i w)
    (more : List Moment) : ReadableIn store (past ++ more) g i w := by
  obtain ⟨before, after, rfl, hcomplete⟩ := h
  exact ⟨before, after ++ more, List.append_assoc _ _ _, hcomplete⟩

/-- A group that is closed now was not aborted at any moment before. -/
theorem CompletedIn.readable {i : Nat} {w : FrameWriter} (h : CompletedIn store past g i w)
    (hclosed : ((storeAfter store past).group g).ending = some .complete) :
    ReadableIn store past g i w := by
  obtain ⟨before, after, rfl, hcomplete⟩ := h
  refine ⟨before, after, rfl, hcomplete, fun e haborted => ?_⟩
  have hopen : ((storeAfter store before).group g).ending ≠ none := by
    rw [haborted]
    exact Option.some_ne_none _
  have hwas := ((grows_storeAfter store before after).group g).complete hclosed hopen
  cases haborted.symm.trans hwas

variable (store past g) in
/-- All frames behind a sender that have bytes were completed. At the end of the group they could all be
    read. -/
structure Behind (frames : List FrameWriter) (st : Sending) : Prop where
  completed : ∀ i w, i < st.passed → frames[i]? = some w → w.size ≠ 0 → CompletedIn store past g i w
  readable : st.phase = .finish → ∀ i w, i < st.passed → frames[i]? = some w → w.size ≠ 0 →
    ReadableIn store past g i w

theorem Behind.append {frames : List FrameWriter} (h : Behind store past g frames st)
    (more : List Moment) : Behind store (past ++ more) g frames st where
  completed i w hi hw hsize := (h.completed i w hi hw hsize).append more
  readable hphase i w hi hw hsize := (h.readable hphase i w hi hw hsize).append more

/-- What a step passes was completed by then. -/
theorem Behind.passes (h : Behind store past g (fin.group g).frames st)
    (hgrows : (storeAfter store past).Grows fin) (hpasses : Passes (storeAfter store past) g st st') :
    Behind store past g (fin.group g).frames st' := by
  cases hpasses with
  | nothing hsame hphase =>
      refine ⟨fun i w hi => h.completed i w (hsame ▸ hi), fun hfinish i w hi => ?_⟩
      exact h.readable (hphase hfinish) i w (hsame ▸ hi)
  | ending hsame hclosed =>
      refine ⟨fun i w hi => h.completed i w (hsame ▸ hi), fun _ i w hi hw hsize => ?_⟩
      exact (h.completed i w (hsame ▸ hi) hw hsize).readable hclosed
  | @frame w' hnext hphase hhere hwhole =>
      refine ⟨fun i w hi hw hsize => ?_, fun hfinish => absurd hfinish hphase⟩
      rw [hnext] at hi
      rcases Nat.lt_succ_iff_lt_or_eq.mp hi with hlt | rfl
      · exact h.completed i w hlt hw hsize
      · obtain rfl := Option.some.inj (((hgrows.group g).getElem? hhere).symm.trans hw)
        rcases hwhole with hzero | hwhole
        · exact absurd hzero hsize
        · exact ⟨past, [], (List.append_nil past).symm, hwhole⟩

variable (fin store past header g) in
/-- How far a sender has come by now, and that the frames behind it were completed. Only one that has
    succeeded has finished its stream. -/
inductive Keeps : Turn Sending Unit → Sink → Prop where
  | go {st : Sending} {sink : Sink} :
      Stands fin header g (storeAfter store past) st (sink.written ++ st.unsent) →
      Behind store past g (fin.group g).frames st → sink.finished = false → Keeps (.go st) sink
  | wait {st : Sending} {sink : Sink} :
      Stands fin header g (storeAfter store past) st (sink.written ++ st.unsent) →
      Behind store past g (fin.group g).frames st → sink.finished = false → Keeps (.wait st) sink
  | failed {st : Sending} {sink : Sink} {rest : Bytes} {e : TransportError} :
      Stands fin header g (storeAfter store past) st (sink.written ++ rest) →
      Behind store past g (fin.group g).frames st → sink.finished = false →
      Keeps (.stop (.error e)) sink
  | succeeded {st : Sending} {sink : Sink} :
      Stands fin header g (storeAfter store past) st sink.written → st.phase = .finish →
      Behind store past g (fin.group g).frames st → Keeps (.stop (.ok ())) sink

theorem Keeps.append (h : Keeps fin store past header g turn sink) (more : List Moment) :
    Keeps fin store (past ++ more) header g turn sink := by
  have hgrows := grows_storeAfter store past more
  cases h with
  | go h hbehind hopen => exact .go (h.later hgrows) (hbehind.append more) hopen
  | wait h hbehind hopen => exact .wait (h.later hgrows) (hbehind.append more) hopen
  | failed h hbehind hopen => exact .failed (h.later hgrows) (hbehind.append more) hopen
  | succeeded h hphase hbehind => exact .succeeded (h.later hgrows) hphase (hbehind.append more)

theorem Keeps.allow (h : Keeps fin store past header g turn sink) (limit : Option Nat) :
    Keeps fin store past header g turn (sink.allow limit) := by
  cases h with
  | go h hbehind hopen => exact .go h hbehind hopen
  | wait h hbehind hopen => exact .wait h hbehind hopen
  | failed h hbehind hopen => exact .failed h hbehind hopen
  | succeeded h hphase hbehind => exact .succeeded h hphase hbehind

/-- A step keeps the frame that it passes. -/
theorem step_keeps {held : Holdings} (hgrows : (storeAfter store past).Grows fin)
    (h : Stands fin header g (storeAfter store past) st (sink.written ++ st.unsent))
    (hbehind : Behind store past g (fin.group g).frames st) (hopen : sink.finished = false) :
    Keeps fin store past header g (st.step (storeAfter store past) held sink).1
      (st.step (storeAfter store past) held sink).2 := by
  have hleads : Leads fin header g _ held st sink (st.step (storeAfter store past) held sink) :=
    step_leads hgrows h
  have hpasses : PassesTo _ g st sink (st.step (storeAfter store past) held sink) :=
    step_passes hgrows h
  generalize st.step (storeAfter store past) held sink = x at hleads hpasses
  cases hleads with
  | go hstands _ =>
      cases hpasses with
      | go hpasses => exact .go hstands (hbehind.passes hgrows hpasses) hopen
  | wait hstands _ =>
      cases hpasses with
      | wait hpasses => exact .wait hstands (hbehind.passes hgrows hpasses) hopen
  | failed _ _ _ =>
      cases hpasses with
      | failed heq =>
          rw [← heq] at h
          exact .failed h hbehind hopen
  | refused _ _ _ =>
      cases hpasses with
      | failed heq =>
          rw [← heq] at h
          exact .failed h hbehind hopen
  | succeeded hstands hphase => exact .succeeded hstands hphase hbehind

theorem next_keeps (m : Moment) (hstore : t.store = storeAfter store past)
    (hgrows : t.store.Grows fin) (h : Keeps fin store past header g t.turn t.sink) :
    Keeps fin store (past ++ [m]) header g (t.next m).turn (t.next m).sink := by
  cases m with
  | write op => exact h.append _
  | allow limit => exact (h.allow limit).append _
  | step others =>
      obtain ⟨_, turn, sink⟩ := t
      obtain rfl : _ = storeAfter store past := hstore
      cases h with
      | go h hbehind hopen => exact (step_keeps hgrows h hbehind hopen).append _
      | wait h hbehind hopen => exact (step_keeps hgrows h hbehind hopen).append _
      | failed h hbehind hopen => exact Keeps.append (.failed h hbehind hopen) _
      | succeeded h hphase hbehind => exact Keeps.append (.succeeded h hphase hbehind) _

end

/-- **The frames behind a sender were completed**, after any moments. -/
theorem run_keeps (fin : Store) (header : GroupHeader) (g : GroupWriter) (store : Store)
    (failAfter blockAfter : Option Nat) (refusal : Option IoError) (ms : List Moment)
    (hgrows : (storeAfter store ms).Grows fin) :
    let t := (start header g store ⟨[], false, failAfter, blockAfter, refusal⟩).run ms
    Keeps fin store ms header g.group t.turn t.sink := by
  intro t
  induction ms using List.reverseRecOn with
  | nil =>
      have hstands : Stands fin header g.group store (.start header g.cursor) [] :=
        ⟨rfl, rfl, rfl, Nat.zero_le _, .inl ⟨rfl, rfl, rfl⟩⟩
      refine .go hstands ⟨fun i w hi => absurd hi (Nat.not_lt_zero i), fun hphase => ?_⟩ rfl
      cases hphase
  | append_singleton ms m ih =>
      have ht : t = Transmission.next _ m := run_append _ ms [m]
      have hearlier := (grows_storeAfter store ms [m]).trans hgrows
      have hstore :=
        store_run (start header g store ⟨[], false, failAfter, blockAfter, refusal⟩) ms
      rw [ht]
      exact next_keeps m hstore (hstore ▸ hearlier) (ih hearlier)

end Transmission

-- ── where a sender stops ────────────────────────────────────────────

/-- The object of a frame, as much of it as there is. -/
def begunObject (header : GroupHeader) (s : Store) (w : FrameWriter) : Bytes :=
  objectOpening header ++ (Varint.encode ⟨w.size⟩ ++ (s.frame w.frame).payload)

/-- Before the end a sender has put out the objects of the frames behind it, and something of the next. -/
theorem Sent.stops {fin : Store} {header : GroupHeader} {frames : List FrameWriter} {phase : SendPhase}
    {position : Nat} {behind : Bytes} (h : Sent fin header frames phase position behind)
    (hlt : phase.passed position < frames.length) :
    ∃ w, frames[phase.passed position]? = some w ∧
      behind <+: sentObjects header fin (frames.take (phase.passed position)) ++
        begunObject header fin w := by
  -- the frame behind those that are done is the next
  have hnext : ∀ {done rest : List FrameWriter} {w : FrameWriter}, frames = done ++ w :: rest →
      frames[done.length]? = some w ∧ frames.take done.length = done := by
    rintro done rest w rfl
    rw [List.getElem?_append_right (Nat.le_refl _), Nat.sub_self, List.take_left]
    exact ⟨rfl, rfl⟩
  cases h with
  | @nextFrame done rest hframes _ =>
      obtain ⟨w, hhere⟩ : ∃ w, frames[done.length]? = some w := ⟨_, List.getElem?_eq_getElem hlt⟩
      obtain ⟨rest', rfl⟩ := rest_eq_cons hframes hhere
      obtain ⟨-, hdone⟩ := hnext hframes
      refine ⟨w, hhere, ?_⟩
      rw [SendPhase.passed.eq_def, hdone]
      exact List.prefix_append _ _
  | @size done rest w hframes _ =>
      obtain ⟨hhere, hdone⟩ := hnext hframes
      rw [SendPhase.passed, Nat.add_sub_cancel, hdone]
      exact ⟨w, hhere, (List.prefix_append_right_inj _).mpr (List.prefix_append _ _)⟩
  | @payload done rest w chunks more left hframes _ hchunks hne hsize hleft =>
      obtain ⟨hhere, hdone⟩ := hnext hframes
      rw [SendPhase.passed, Nat.add_sub_cancel, hdone]
      refine ⟨w, hhere, (List.prefix_append_right_inj _).mpr ?_⟩
      rw [begunObject, Frame.payload, hchunks, List.flatten_append]
      refine (List.prefix_append_right_inj _).mpr ((List.prefix_append_right_inj _).mpr ?_)
      exact List.prefix_append _ _
  | finish _ => exact absurd hlt (Nat.lt_irrefl _)

namespace Transmission

section

variable {fin store : Store} {past : List Moment} {header : GroupHeader} {g : GroupId}
  {turn : Turn Sending Unit} {sink : Sink}

/-- A sender that has succeeded has passed all frames. -/
theorem Keeps.success (h : Keeps fin store past header g (.stop (.ok ())) sink) {i : Nat}
    {w : FrameWriter} (hw : (fin.group g).frames[i]? = some w) (hsize : w.size ≠ 0) :
    ReadableIn store past g i w := by
  cases h with
  | @succeeded st _ hstands hphase hbehind =>
      refine hbehind.readable hphase i w ?_ hw hsize
      obtain ⟨hheader, -, -⟩ | ⟨hd, behind, -, -, hsent⟩ := hstands.sent
      · cases hphase.symm.trans hheader
      · rw [Sending.passed, hphase]
        rw [hphase] at hsent
        generalize st.cursor.position = position at hsent
        cases hsent with
        | finish _ =>
            obtain ⟨hlt, -⟩ := List.getElem?_eq_some_iff.mp hw
            exact hlt

variable (fin store past header g) in
/-- What was put out ends at the latest inside the object of frame `i`, and the frames with bytes that are
    before its end were completed. -/
def EndsBy (i : Nat) (written : Bytes) : Prop :=
  ∃ j w, j ≤ i ∧ (fin.group g).frames[j]? = some w ∧
    (∀ k v, k < j → (fin.group g).frames[k]? = some v → v.size ≠ 0 → CompletedIn store past g k v) ∧
    ∀ hd, header.encode = .ok hd →
      written <+: hd ++ (sentObjects header fin ((fin.group g).frames.take j) ++ begunObject header fin w)

theorem endsBy_of_stands {s : Store} {st : Sending} {written rest : Bytes} {i : Nat} {w : FrameWriter}
    (h : Stands fin header g s st (written ++ rest)) (hbehind : Behind store past g (fin.group g).frames st)
    (hw : (fin.group g).frames[i]? = some w) (hle : st.passed ≤ i) :
    EndsBy fin store past header g i written := by
  obtain ⟨hi, -⟩ := List.getElem?_eq_some_iff.mp hw
  have hlt : st.passed < (fin.group g).frames.length := Nat.lt_of_le_of_lt hle hi
  have hkept := fun k v hk => hbehind.completed k v hk
  obtain ⟨-, -, hout⟩ | ⟨hd, behind, hencode, hout, hsent⟩ := h.sent
  · obtain ⟨hnothing, -⟩ := List.append_eq_nil_iff.mp hout
    refine ⟨st.passed, _, hle, List.getElem?_eq_getElem hlt, hkept, fun hd _ => ?_⟩
    rw [hnothing]
    exact List.nil_prefix
  · obtain ⟨w', hw', hfront⟩ := hsent.stops hlt
    refine ⟨st.passed, w', hle, hw', hkept, fun hd' hencode' => ?_⟩
    obtain rfl := Except.ok.inj (hencode.symm.trans hencode')
    have hwritten : written <+: hd ++ behind := hout ▸ List.prefix_append _ _
    exact hwritten.trans ((List.prefix_append_right_inj _).mpr hfront)

/-- A sender does not come past a frame with bytes that was not completed. -/
theorem Keeps.stops (h : Keeps fin store past header g turn sink) {i : Nat} {w : FrameWriter}
    (hw : (fin.group g).frames[i]? = some w) (hsize : w.size ≠ 0)
    (hnever : ¬ CompletedIn store past g i w) :
    turn ≠ .stop (.ok ()) ∧ sink.finished = false ∧
      EndsBy fin store past header g i sink.written := by
  have hle : ∀ {st : Sending}, Behind store past g (fin.group g).frames st → st.passed ≤ i :=
    fun hbehind => Nat.le_of_not_lt fun hlt => hnever (hbehind.completed i w hlt hw hsize)
  cases h with
  | go hstands hbehind hopen =>
      exact ⟨(fun heq => by cases heq), hopen, endsBy_of_stands hstands hbehind hw (hle hbehind)⟩
  | wait hstands hbehind hopen =>
      exact ⟨(fun heq => by cases heq), hopen, endsBy_of_stands hstands hbehind hw (hle hbehind)⟩
  | failed hstands hbehind hopen =>
      exact ⟨(fun heq => by cases heq), hopen, endsBy_of_stands hstands hbehind hw (hle hbehind)⟩
  | succeeded hstands hphase hbehind =>
      obtain ⟨before, after, hpast, hcomplete, -⟩ :=
        Keeps.success (.succeeded hstands hphase hbehind) hw hsize
      exact absurd ⟨before, after, hpast, hcomplete⟩ hnever

end

-- ── the result ──────────────────────────────────────────────────────

/-- **What a sender passes was completed.** A group is sent in the course of any moments, with whatever the
    publishers do to the group and its frames, onto a stream that may wait, or fail, or be one that cannot
    be ended. Then

    * if the sender succeeds, it has put out an object for every frame of the group, and each frame that has
      bytes was complete at some moment at which a reader of the group would have been given it whole, with
      the payload that was sent;
    * a frame with bytes that never was complete keeps the sender from success and the stream unfinished,
      and nothing goes out behind the bytes of that frame.

    Of a frame without bytes nothing is said: see `aborted_frame_is_sent`. -/
theorem sent_frames_were_completed (header : GroupHeader) (g : GroupWriter) (store : Store)
    (failAfter blockAfter : Option Nat) (refusal : Option IoError) (ms : List Moment) :
    let t := (start header g store ⟨[], false, failAfter, blockAfter, refusal⟩).run ms
    let frames := (t.store.group g.group).frames
    (t.turn = .stop (.ok ()) →
      (∃ hd, header.encode = .ok hd ∧
        t.sink.written = hd ++ (sentObjects header t.store frames ++ groupEnding header)) ∧
      ∀ i w, frames[i]? = some w → w.size ≠ 0 →
        ∃ before after, ms = before ++ after ∧
          CompleteAt (storeAfter store before) g.group i w ∧
          ∀ held, ((storeAfter store before).readFrame held ⟨g.group, g.sequence, i, none⟩).1 =
            .ok (some (sentPayload t.store w))) ∧
    (∀ i w, frames[i]? = some w → w.size ≠ 0 → ¬ CompletedIn store ms g.group i w →
      t.turn ≠ .stop (.ok ()) ∧ t.sink.finished = false ∧
        EndsBy t.store store ms header g.group i t.sink.written) := by
  intro t frames
  have hstore : t.store = storeAfter store ms := store_run _ ms
  have hkeeps : Keeps t.store store ms header g.group t.turn t.sink :=
    run_keeps t.store header g store failAfter blockAfter refusal ms (hstore ▸ .refl _)
  refine ⟨fun hturn => ⟨?_, fun i w hw hsize => ?_⟩, fun i w hw hsize => hkeeps.stops hw hsize⟩
  · have hreached : Reached t.store header g.group t.store t.turn t.sink :=
      run_reached ms (.refl _) (reached_start t.store header g store rfl)
    rw [hturn] at hreached
    obtain ⟨hd, hencode, -, hwritten, -⟩ := hreached.stream
    exact ⟨hd, hencode, hwritten⟩
  · rw [hturn] at hkeeps
    obtain ⟨before, after, hms, hcomplete, halive⟩ := hkeeps.success hw hsize
    refine ⟨before, after, hms, hcomplete, fun held => ?_⟩
    have hlater : (storeAfter store before).Grows t.store := by
      rw [hstore, hms]
      exact grows_storeAfter store before after
    rw [hcomplete.readFrame halive, sentPayload, if_neg hsize, hcomplete.payload_eq hlater]

/-- A frame was never complete if it is not closed behind any number of moments. -/
theorem not_completedIn {store : Store} {ms : List Moment} {g : GroupId} {i : Nat} {w : FrameWriter}
    (h : ∀ n ≤ ms.length, ((storeAfter store (ms.take n)).frame w.frame).ending ≠ some .complete) :
    ¬ CompletedIn store ms g i w := by
  rintro ⟨before, after, rfl, hcomplete⟩
  have hbefore := h before.length (by rw [List.length_append]; exact Nat.le_add_right _ _)
  rw [List.take_left] at hbefore
  exact hbefore hcomplete.closed

deriving instance DecidableEq for Turn

/-- A frame of which the second chunk never comes. It is aborted when the first one is out. -/
def givenUp : List Moment :=
  .write (.createFrame ⟨0, 7⟩ 2) :: .write (.writeChunk ⟨0, 2⟩ [65]) ::
    List.replicate 9 (.step [.groupWriter 0]) ++
    [.write (.abortFrame .cancel ⟨0, 2⟩), .write (.closeGroup ⟨0, 7⟩), .step []]

theorem sent_frames_were_completed_lateFrames :
    let header : GroupHeader := ⟨⟨true, false, false, false⟩, 0, 7, 0, 0⟩
    let store := (Store.empty.newGroup 7).2
    let ms := lateFrames ++ .allow none :: List.replicate 13 (.step [])
    let t := (start header ⟨0, 7⟩ store ⟨[], false, none, none, none⟩).run ms
    let t' := (start header ⟨0, 7⟩ store ⟨[], false, none, none, none⟩).run givenUp
    (t.turn = .stop (.ok ()) ∧ (t.store.group 0).frames[0]? = some ⟨0, 3⟩ ∧
      ∃ before after, ms = before ++ after ∧ CompleteAt (storeAfter store before) 0 0 ⟨0, 3⟩ ∧
        ((storeAfter store before).readFrame [] ⟨0, 7, 0, none⟩).1 = .ok (some [65, 66, 67])) ∧
    (t'.turn = .stop (.error .cancel) ∧ (t'.store.group 0).frames[0]? = some ⟨0, 2⟩ ∧
      ¬ CompletedIn store givenUp 0 0 ⟨0, 2⟩ ∧ t'.sink.finished = false ∧
      t'.sink.written = [17, 0, 7, 0, 0, 0, 2, 65]) := by
  intro header store ms t t'
  have hturn : t.turn = .stop (.ok ()) := by decide +kernel
  have hframe : (t.store.group 0).frames[0]? = some ⟨0, 3⟩ := by decide +kernel
  have hframe' : (t'.store.group 0).frames[0]? = some ⟨0, 2⟩ := by decide +kernel
  have hnever : ¬ CompletedIn store givenUp 0 0 ⟨0, 2⟩ := not_completedIn (by decide +kernel)
  obtain ⟨-, hcompleted⟩ :=
    (sent_frames_were_completed header ⟨0, 7⟩ store none none none ms).1 hturn
  obtain ⟨before, after, hms, hcomplete, hread⟩ := hcompleted 0 ⟨0, 3⟩ hframe (by decide)
  have hopen : t'.sink.finished = false := by
    unfold t'
    exact ((sent_frames_were_completed header ⟨0, 7⟩ store none none none givenUp).2 0 ⟨0, 2⟩ hframe' (by decide)
      hnever).2.1
  have hpayload : sentPayload t.store ⟨0, 3⟩ = [65, 66, 67] := by decide +kernel
  have hturn' : t'.turn = .stop (.error .cancel) := by decide +kernel
  have hwritten : t'.sink.written = [17, 0, 7, 0, 0, 0, 2, 65] := by decide +kernel
  have hgiven := (hread []).trans (congrArg (fun bs => Except.ok (some bs)) hpayload)
  exact ⟨⟨hturn, hframe, before, after, hms, hcomplete, hgiven⟩, hturn', hframe', hnever,
    hopen, hwritten⟩

/-- An empty frame is begun and aborted, and then the group is closed and sent. -/
def abortedFrame : List Moment :=
  [.write (.createFrame ⟨0, 1⟩ 0), .write (.abortFrame .cancel ⟨0, 0⟩), .write (.closeGroup ⟨0, 1⟩)] ++
    List.replicate 10 (.step [])

/-- **An empty frame that was aborted is sent as a whole one.** The sender succeeds although the frame was
    never complete and a reader of the group is told of the error, and whoever receives the stream makes a
    complete group with an empty frame. -/
theorem aborted_frame_is_sent :
    let header : GroupHeader := ⟨⟨false, false, true, false⟩, 1, 1, 0, 3⟩
    let store := (Store.empty.newGroup 1).2
    let t := (start header ⟨0, 1⟩ store ⟨[], false, none, none, none⟩).run abortedFrame
    t.turn = .stop (.ok ()) ∧ t.sink.finished = true ∧
      (t.store.group 0).frames[0]? = some ⟨0, 0⟩ ∧ ¬ CompletedIn store abortedFrame 0 0 ⟨0, 0⟩ ∧
      (t.store.readFrame [] ⟨0, 1, 0, none⟩).1 = .error (.failed .cancel) ∧
      ∃ s' r', Receiving.receive ⟨0, ⟨"audio", 0⟩⟩ (Store.empty.newTrack ⟨"audio", 0⟩).2
          ⟨t.sink.written, []⟩ = (.stop (.ok header), s', r') ∧ s'.Complete 0 [[]] := by
  intro header store t
  have hwritten : t.sink.written = [20, 1, 1, 0, 3, 0, 0, 0, 0, 0, 3] := by decide +kernel
  have hturn : t.turn = .stop (.ok ()) := by decide +kernel
  have hread : (t.store.readFrame [] ⟨0, 1, 0, none⟩).1 = .error (.failed .cancel) := by decide +kernel
  refine ⟨hturn, by decide +kernel, by decide +kernel, not_completedIn (by decide +kernel), hread, ?_⟩
  rw [hwritten]
  have hfits : ∀ w ∈ [(⟨0, 0⟩ : FrameWriter)], Fits t.store w := by
    intro w hw
    rw [List.mem_singleton.mp hw]
    exact ⟨rfl, Nat.zero_le _⟩
  have hbody : Body header.flags [[]] [0, 0, 0, 0, 0, 3] := body_sent header hfits
  let track : TrackWriter := ⟨0, ⟨"audio", 0⟩⟩
  let s := (Store.empty.newTrack ⟨"audio", 0⟩).2
  let r : Reader := ⟨[20, 1, 1, 0, 3, 0, 0, 0, 0, 0, 3], []⟩
  have htrack : track.track < s.tracks.size := Nat.zero_lt_one
  have hcontent : r.content = [20, 1, 1, 0, 3, 0, 0, 0, 0, 0, 3] := rfl
  have hrun : GroupHeader.decode.run r.content = (.ok header, [0, 0, 0, 0, 0, 3]) := by
    rw [hcontent]
    rfl
  obtain ⟨s', r', hreceive, hreceived⟩ := Receiving.receive_received htrack hrun rfl
  have hcomplete := hreceived.only ⟨rfl, hbody⟩
  exact ⟨s', r', hreceive, (hcomplete.complete_iff _).mpr rfl⟩

end Transmission

end LiveMedia.Transfer
