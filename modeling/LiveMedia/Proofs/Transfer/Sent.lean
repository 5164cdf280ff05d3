import LiveMedia.Proofs.Live.Filling
import LiveMedia.Proofs.Message.Body
import LiveMedia.Proofs.Transfer.Grammar
import LiveMedia.Proofs.Transfer.Moves

/-!
# What a sender has sent

A sender puts out the header, an object for each frame and what ends the group. `Sent` says of each phase
which bytes are out by then: whole objects for the frames behind the sender, and the part of the current
object that the phase has come to. It speaks of the frames as they are in a later store. That is enough,
because what a sender has read does not change.

`Stands` is the invariant of a sender. `step_leads` goes through the moves that a sender has: a step goes
on with less work left, or waits, or fails, or succeeds, and in each case what was written is a front of
what the phase says. It is all of it for a sender that succeeds, and for one that has written everything
and cannot end its stream. A wait and a failure come with their reason, so a sender whose group is whole and
whose stream is reliable does neither.
-/

namespace LiveMedia.Transfer

open LiveMedia.Wire LiveMedia.Message LiveMedia.Live LiveMedia.Stream

-- ── objects as a sender writes them ─────────────────────────────────

/-- The object of a payload. -/
def objectBytes (header : GroupHeader) (payload : Bytes) : Bytes :=
  objectOpening header ++ (Varint.encode ⟨payload.length⟩ ++
    if payload = [] then Varint.encode ⟨statusNormal⟩ else payload)

/-- The objects of payloads, one after the other. -/
def objectsBytes (header : GroupHeader) (payloads : List Bytes) : Bytes :=
  payloads.flatMap (objectBytes header)

theorem objectsBytes_append (header : GroupHeader) (ps ps' : List Bytes) :
    objectsBytes header (ps ++ ps') = objectsBytes header ps ++ objectsBytes header ps' :=
  List.flatMap_append

theorem spells_encode {n : Nat} (h : n ≤ Varint.compactMaximum) : Spells n (Varint.encode ⟨n⟩) := by
  have hrun := inverts_compact n _ (if_pos h) []
  rw [List.append_nil] at hrun
  exact hrun

theorem spells_zero : Spells 0 (Varint.encode ⟨0⟩) := spells_encode (Nat.zero_le _)

theorem opening_objectOpening (header : GroupHeader) :
    Opening header.flags (objectOpening header) := by
  unfold objectOpening
  split
  · next hext =>
    have hempty : Opening header.flags (Varint.encode ⟨0⟩ ++ (Varint.encode ⟨0⟩ ++ [])) :=
      .extended hext spells_zero spells_zero
    rw [List.append_nil] at hempty
    exact hempty
  · next hext =>
    rw [List.append_nil]
    exact .plain (Bool.eq_false_iff.mpr hext) spells_zero

theorem object_objectBytes (header : GroupHeader) {payload : Bytes}
    (h : payload.length ≤ Varint.compactMaximum) :
    Object header.flags payload (objectBytes header payload) := by
  unfold objectBytes
  split
  · next hnil =>
    subst hnil
    exact .empty (opening_objectOpening header) spells_zero spells_zero
  · next hne => exact .full (opening_objectOpening header) hne (spells_encode h)

theorem terminator_groupEnding (header : GroupHeader) :
    Terminator header.flags (groupEnding header) := by
  unfold groupEnding
  split
  · next hend => exact .implicit hend
  · next hend =>
    exact .marker (Bool.eq_false_iff.mpr hend) (opening_objectOpening header) spells_zero
      (spells_encode (by decide))

/-- Objects in front of a body make a body. -/
theorem body_objectsBytes {header : GroupHeader} {ps later : List Bytes} {rest : Bytes}
    (hps : ∀ p ∈ ps, p.length ≤ Varint.compactMaximum) (hrest : Body header.flags later rest) :
    Body header.flags (ps ++ later) (objectsBytes header ps ++ rest) := by
  induction ps with
  | nil => exact hrest
  | cons p ps ih =>
      have hp := object_objectBytes header (hps p List.mem_cons_self)
      have hnext := ih fun q hq => hps q (List.mem_cons_of_mem p hq)
      show Body header.flags (p :: (ps ++ later)) (objectBytes header p ++ objectsBytes header ps ++ rest)
      rw [List.append_assoc]
      exact .object hp hnext

-- ── where a sender stands ───────────────────────────────────────────

/-- What is sent for a frame. Nothing is read of a frame that has no bytes. -/
def sentPayload (s : Store) (w : FrameWriter) : Bytes :=
  if w.size = 0 then [] else (s.frame w.frame).payload

/-- What is sent for the frame has the size that was announced, and the size can be written. -/
def Fits (s : Store) (w : FrameWriter) : Prop :=
  (sentPayload s w).length = w.size ∧ w.size ≤ Varint.compactMaximum

theorem length_sentPayload_le {s : Store} {ws : List FrameWriter} (h : ∀ w ∈ ws, Fits s w) :
    ∀ p ∈ ws.map (sentPayload s), p.length ≤ Varint.compactMaximum := by
  intro p hp
  obtain ⟨w, hw, rfl⟩ := List.mem_map.mp hp
  obtain ⟨hlength, hle⟩ := h w hw
  exact hlength ▸ hle

/-- The objects for frames. -/
def sentObjects (header : GroupHeader) (s : Store) (ws : List FrameWriter) : Bytes :=
  objectsBytes header (ws.map (sentPayload s))

section

variable (fin : Store) (header : GroupHeader) (frames : List FrameWriter)

/-- What a sender has put out behind the header when a phase begins, and its position in the frames of
    the group. -/
inductive Sent : SendPhase → Nat → Bytes → Prop where
  | nextFrame {done rest : List FrameWriter} :
      frames = done ++ rest → (∀ w ∈ done, Fits fin w) →
      Sent .nextFrame done.length (sentObjects header fin done)
  | size {done rest : List FrameWriter} {w : FrameWriter} :
      frames = done ++ w :: rest → (∀ w ∈ done, Fits fin w) →
      Sent (.size w.cursor) (done.length + 1) (sentObjects header fin done ++ objectOpening header)
  | payload {done rest : List FrameWriter} {w : FrameWriter} {chunks more : List Bytes} {left : Nat} :
      frames = done ++ w :: rest → (∀ w ∈ done, Fits fin w) →
      (fin.frame w.frame).chunks = chunks ++ more → w.size ≠ 0 → w.size ≤ Varint.compactMaximum →
      chunks.flatten.length + left = w.size →
      Sent (.payload ⟨w.frame, w.size, chunks.length⟩ left) (done.length + 1)
        (sentObjects header fin done ++
          (objectOpening header ++ (Varint.encode ⟨w.size⟩ ++ chunks.flatten)))
  | finish : (∀ w ∈ frames, Fits fin w) →
      Sent .finish frames.length (sentObjects header fin frames ++ groupEnding header)

end

/-- A sender of the group `g`, and the bytes that it has put out. -/
structure Stands (fin : Store) (header : GroupHeader) (g : GroupId) (s : Store) (st : Sending)
    (out : Bytes) : Prop where
  header_eq : st.header = header
  group_eq : st.cursor.group = g
  inactive : st.cursor.active = none
  position_le : st.cursor.position ≤ (s.group g).frames.length
  sent : (st.phase = .header ∧ st.cursor.position = 0 ∧ out = []) ∨
    ∃ hd behind, header.encode = .ok hd ∧ out = hd ++ behind ∧
      Sent fin header (fin.group g).frames st.phase st.cursor.position behind

/-- A sender stands where it stood when the group has grown. -/
theorem Stands.later {fin s s' : Store} {header : GroupHeader} {g : GroupId} {st : Sending}
    {out : Bytes} (h : Stands fin header g s st out) (hgrows : s.Grows s') :
    Stands fin header g s' st out :=
  ⟨h.header_eq, h.group_eq, h.inactive,
    Nat.le_trans h.position_le (hgrows.group g).front.length_le, h.sent⟩

/-- A sender at its end has put out the header, an object for every frame and the end of the group. -/
theorem Stands.stream {fin s : Store} {header : GroupHeader} {g : GroupId} {st : Sending} {out : Bytes}
    (h : Stands fin header g s st out) (hphase : st.phase = .finish) :
    ∃ hd, header.encode = .ok hd ∧
      out = hd ++ (sentObjects header fin (fin.group g).frames ++ groupEnding header) ∧
      ∀ w ∈ (fin.group g).frames, Fits fin w := by
  obtain ⟨hheader, -, -⟩ | ⟨hd, behind, hencode, hout, hsent⟩ := h.sent
  · exact nomatch hphase.symm.trans hheader
  · rw [hphase] at hsent
    generalize st.cursor.position = position at hsent
    cases hsent with
    | finish hfits => exact ⟨hd, hencode, hout, hfits⟩

-- ── work ────────────────────────────────────────────────────────────

/-- The steps that the frames behind a position take. -/
def stepsAhead (s : Store) (c : GroupCursor) : Nat :=
  (((s.group c.group).frames.drop c.position).map fun w => Sending.frameSteps s w.frame).foldl
    (· + ·) 0

/-- A bound on the steps of a phase and all that follow. Each of them leaves room for a write. -/
def phaseSteps (s : Store) (c : GroupCursor) : SendPhase → Nat
  | .header => stepsAhead s c + 6
  | .nextFrame => stepsAhead s c + 4
  | .size frame => stepsAhead s c + 2 * (s.frame frame.frame).chunks.length + 8
  | .payload frame _ => stepsAhead s c + 2 * ((s.frame frame.frame).chunks.length - frame.position) + 6
  | .finish => 1

/-- A bound on the steps before the sender has to wait. -/
def stepsLeft (s : Store) (st : Sending) : Nat :=
  (if st.unsent = [] then 0 else 1) + phaseSteps s st.cursor st.phase

/-- The frame at the position takes its steps, and then come those behind it. -/
theorem stepsAhead_eq {s : Store} {c : GroupCursor} {w : FrameWriter}
    (h : (s.group c.group).frames[c.position]? = some w) :
    stepsAhead s c = Sending.frameSteps s w.frame +
      stepsAhead s { c with position := c.position + 1 } := by
  obtain ⟨hlt, heq⟩ := List.getElem?_eq_some_iff.mp h
  unfold stepsAhead
  rw [List.drop_eq_getElem_cons hlt, heq, List.map_cons, List.foldl_cons, Nat.add_comm 0,
    List.foldl_assoc]

theorem stepsLeft_le (s : Store) (st : Sending) :
    stepsLeft s st ≤ phaseSteps s st.cursor st.phase + 1 := by
  unfold stepsLeft
  split <;> omega

/-- A poll has enough fuel for all of them. -/
theorem stepsLeft_lt (s : Store) {st : Sending} (h : st.cursor.active = none) :
    stepsLeft s st < st.steps s := by
  refine Nat.lt_of_le_of_lt (stepsLeft_le s st) ?_
  unfold Sending.steps
  rw [h]
  show _ < _ + 0 + stepsAhead s st.cursor + 8
  cases st.phase with
  | header => dsimp only [phaseSteps]; omega
  | nextFrame => dsimp only [phaseSteps]; omega
  | size frame => dsimp only [phaseSteps, Sending.frameSteps]; omega
  | payload frame left => dsimp only [phaseSteps, Sending.frameSteps]; omega
  | finish => dsimp only [phaseSteps]; omega

-- ── steps ───────────────────────────────────────────────────────────

/-- The frame is closed, it has the size that was announced, and the size can be written. -/
structure Whole (s : Store) (w : FrameWriter) : Prop where
  closed : (s.frame w.frame).ending = some .complete
  length_eq : (s.frame w.frame).payload.length = w.size
  size_le : w.size ≤ Varint.compactMaximum

/-- All that a sender of the group can ask for: a header that can be written, a stream that does not
    fail and can be ended, a group that is written until it is closed, and whole frames in the end. -/
structure Fair (fin : Store) (header : GroupHeader) (g : GroupId) (s : Store) (held : Holdings)
    (sink : Sink) : Prop where
  encodes : ∃ hd, header.encode = .ok hd
  reliable : sink.failAfter = none
  endable : sink.refusal = none
  isRead : .groupCursor g ∈ held
  isWritten : (s.group g).ending = none → .groupWriter g ∈ held
  closed : (fin.group g).ending = some .complete
  whole : ∀ w ∈ (fin.group g).frames, Whole fin w

/-- How much a stream has taken does not matter. -/
theorem Fair.onward {fin s : Store} {header : GroupHeader} {g : GroupId} {held : Holdings} {sink : Sink}
    (h : Fair fin header g s held sink) (written : Bytes) :
    Fair fin header g s held { sink with written } :=
  ⟨h.encodes, h.reliable, h.endable, h.isRead, h.isWritten, h.closed, h.whole⟩

/-- Something of the group is still to come. -/
def Unfinished (s : Store) (g : GroupId) : Prop :=
  (s.group g).ending = none ∨ ∃ w ∈ (s.group g).frames, (s.frame w.frame).ending = none

/-- Where a step of a sender may lead. -/
inductive Leads (fin : Store) (header : GroupHeader) (g : GroupId) (s : Store) (held : Holdings)
    (st : Sending) (sink : Sink) : Turn Sending Unit × Sink → Prop where
  | go {st' : Sending} {written : Bytes} :
      Stands fin header g s st' (written ++ st'.unsent) → stepsLeft s st' < stepsLeft s st →
      Leads fin header g s held st sink (.go st', { sink with written })
  | wait {st' : Sending} {written : Bytes} :
      Stands fin header g s st' (written ++ st'.unsent) → Unfinished s g ∨ sink.blockAfter ≠ none →
      Leads fin header g s held st sink (.wait st', { sink with written })
  /-- What was written is not all, or more was to come. -/
  | failed {st' : Sending} {written rest : Bytes} {e : TransportError} :
      Stands fin header g s st' (written ++ rest) → rest ≠ [] ∨ st'.phase ≠ .finish →
      ¬ Fair fin header g s held sink →
      Leads fin header g s held st sink (.stop (.error e), { sink with written })
  /-- All was written. -/
  | refused {e : TransportError} : Stands fin header g s st sink.written → st.phase = .finish →
      sink.refusal ≠ none → Leads fin header g s held st sink (.stop (.error e), sink)
  | succeeded : Stands fin header g s st sink.written → st.phase = .finish →
      Leads fin header g s held st sink (.stop (.ok ()), { sink with finished := true })

section Steps

variable {fin s : Store} {header : GroupHeader} {g : GroupId} {held : Holdings} {st : Sending}
  {sink : Sink}

/-- What is unsent is written. -/
theorem write_leads {x : Turn Sending Unit × Sink} (h : Stands fin header g s st (sink.written ++ st.unsent))
    (hunsent : st.unsent ≠ []) (hflushes : Flushes st sink x) : Leads fin header g s held st sink x := by
  have hsame : ∀ rest out : Bytes, out = sink.written ++ st.unsent →
      Stands fin header g s { st with unsent := rest } out := by
    rintro rest out rfl
    exact ⟨h.header_eq, h.group_eq, h.inactive, h.position_le, h.sent⟩
  cases hflushes with
  | all =>
      refine .go (hsame [] _ (List.append_nil _)) ?_
      unfold stepsLeft
      rw [if_neg hunsent, if_pos rfl]
      exact Nat.add_lt_add_right Nat.zero_lt_one _
  | @blocked written rest hblock heq => exact .wait (hsame rest _ heq) (.inr hblock)
  | @failed written rest e hfail hrest heq =>
      have hout := hsame rest _ heq
      exact .failed hout (.inl hrest) fun hfair => hfail hfair.reliable

/-- A sender that failed with nothing unsent failed before the end. -/
theorem Leads.fail {e : TransportError} (h : Stands fin header g s st sink.written)
    (hphase : st.phase ≠ .finish) (hfair : ¬ Fair fin header g s held sink) :
    Leads fin header g s held st sink (.stop (.error e), sink) := by
  rw [← List.append_nil sink.written] at h
  exact .failed h (.inr hphase) hfair

/-- A sender with nothing unsent waits for what is to come of the group. -/
theorem Leads.await (h : Stands fin header g s st sink.written) (hunsent : st.unsent = [])
    (hwait : Unfinished s g) : Leads fin header g s held st sink (.wait st, sink) := by
  rw [← List.append_nil sink.written, ← hunsent] at h
  exact .wait h (.inl hwait)

/-- A sender with nothing unsent puts out more bytes and goes on in another phase. -/
theorem Leads.put {cursor : GroupCursor} {phase : SendPhase} {hd behind bs : Bytes}
    (hencode : header.encode = .ok hd) (hout : sink.written = hd ++ behind)
    (hgroup : cursor.group = g) (hactive : cursor.active = none)
    (hposition : cursor.position ≤ (s.group g).frames.length)
    (hsent : Sent fin header (fin.group g).frames phase cursor.position (behind ++ bs))
    (hless : phaseSteps s cursor phase + 2 ≤ phaseSteps s st.cursor st.phase) :
    Leads fin header g s held st sink (.go ⟨header, cursor, bs, phase⟩, sink) := by
  refine .go ⟨rfl, hgroup, hactive, hposition, .inr ⟨hd, behind ++ bs, hencode, ?_, hsent⟩⟩ ?_
  · rw [hout, List.append_assoc]
  · have hle := stepsLeft_le s ⟨header, cursor, bs, phase⟩
    have hge : phaseSteps s st.cursor st.phase ≤ stepsLeft s st := Nat.le_add_left _ _
    dsimp only at hle
    omega

theorem header_leads {cursor : GroupCursor} {x : Turn Sending Unit × Sink}
    (h : Stands fin header g s ⟨header, cursor, [], .header⟩ sink.written)
    (hmoves : Moves s held header cursor sink .header x) :
    Leads fin header g s held ⟨header, cursor, [], .header⟩ sink x := by
  obtain ⟨-, hgroup, hactive, hposition, ⟨-, hzero, hout⟩ | ⟨_, _, _, _, hsent⟩⟩ := id h
  · cases hmoves with
    | @header hd hencode =>
        have hsent : Sent fin header (fin.group g).frames .nextFrame 0 [] :=
          .nextFrame (rfl : _ = [] ++ _) fun w hw => absurd hw List.not_mem_nil
        refine .go ⟨rfl, hgroup, hactive, hposition, .inr ⟨hd, [], hencode, ?_, ?_⟩⟩ ?_
        · rw [hout]
          exact (List.append_nil hd).symm
        · exact (hzero : cursor.position = 0) ▸ hsent
        · have hle : _ ≤ stepsAhead s cursor + 4 + 1 :=
            stepsLeft_le s ⟨header, cursor, hd, .nextFrame⟩
          show _ < 0 + (stepsAhead s cursor + 6)
          omega
    | noHeader hencode =>
        refine .fail h (fun heq => nomatch heq) ?_
        rintro ⟨⟨hd, hok⟩, _⟩
        exact nomatch hencode.symm.trans hok
  · exact nomatch hsent

/-- The list that stands behind what is done begins with what is found at that position. -/
theorem rest_eq_cons {α : Type} {xs done rest : List α} {x : α} (hxs : xs = done ++ rest)
    (hx : xs[done.length]? = some x) : ∃ rest', rest = x :: rest' := by
  subst hxs
  rw [List.getElem?_append_right (Nat.le_refl _), Nat.sub_self] at hx
  cases rest with
  | nil => exact nomatch hx
  | cons y rest => exact ⟨rest, by rw [Option.some.inj hx]⟩

theorem rest_eq_nil {α : Type} {xs done rest : List α} (hxs : xs = done ++ rest)
    (hle : xs.length ≤ done.length) : rest = [] := by
  subst hxs
  rw [List.length_append] at hle
  exact List.length_eq_zero_iff.mp (by omega)

/-- The next frame is begun, or the last object is put out. -/
theorem nextFrame_leads {cursor : GroupCursor} {x : Turn Sending Unit × Sink} (hgrows : s.Grows fin)
    (h : Stands fin header g s ⟨header, cursor, [], .nextFrame⟩ sink.written)
    (hmoves : Moves s held header cursor sink .nextFrame x) :
    Leads fin header g s held ⟨header, cursor, [], .nextFrame⟩ sink x := by
  obtain ⟨-, hgroup, hactive, hposition, ⟨hphase, -, -⟩ | ⟨hd, behind, hencode, hout, hsent⟩⟩ := id h
  · exact nomatch hphase
  obtain ⟨group, sequence, position, active⟩ := cursor
  obtain rfl : group = g := hgroup
  obtain rfl : active = none := hactive
  have hall := hgrows.group group
  cases hsent with
  | @nextFrame done rest hframes hfits =>
  cases hmoves with
  | @frame w _ hw =>
      obtain ⟨rest', rfl⟩ := rest_eq_cons hframes (hall.getElem? hw)
      obtain ⟨hlt, -⟩ := List.getElem?_eq_some_iff.mp hw
      refine .put hencode hout rfl rfl hlt (.size hframes hfits) ?_
      show stepsAhead s _ + 2 * (s.frame w.frame).chunks.length + 8 + 2 ≤ stepsAhead s _ + 4
      rw [stepsAhead_eq (c := ⟨group, sequence, done.length, none⟩) hw]
      dsimp only [Sending.frameSteps]
      omega
  | ending hclosed hle =>
      obtain rfl := rest_eq_nil hframes (hall.length_le hclosed hle)
      rw [List.append_nil] at hframes
      rw [← hframes] at hfits
      have hlast : Sent fin header (fin.group group).frames .finish done.length
          (sentObjects header fin done ++ groupEnding header) := hframes ▸ .finish hfits
      exact .put hencode hout rfl rfl hposition hlast (Nat.le_add_left 3 _)
  | awaitFrame hopen => exact .await h rfl (.inl hopen)
  | noFrame hended hwritten =>
      refine .fail h (fun heq => nomatch heq) fun hfair => ?_
      by_cases hopen : (s.group group).ending = none
      · have hheld := List.contains_iff_mem.mpr (hfair.isWritten hopen)
        exact absurd (hwritten hopen) (ne_false_of_eq_true hheld)
      · exact hended (hall.complete hfair.closed hopen)

/-- The objects for one frame more. -/
theorem sentObjects_snoc (header : GroupHeader) (s : Store) (done : List FrameWriter)
    (w : FrameWriter) : sentObjects header s (done ++ [w]) =
      sentObjects header s done ++ objectBytes header (sentPayload s w) := by
  unfold sentObjects
  rw [List.map_append, objectsBytes_append]
  exact congrArg _ (List.append_nil _)

/-- One frame more is behind the sender. -/
theorem Sent.next {done rest : List FrameWriter} {w : FrameWriter} {object : Bytes}
    (hframes : (fin.group g).frames = done ++ w :: rest) (hfits : ∀ w ∈ done, Fits fin w)
    (hw : Fits fin w) (hobject : objectBytes header (sentPayload fin w) = object) :
    Sent fin header (fin.group g).frames .nextFrame (done.length + 1)
      (sentObjects header fin done ++ object) := by
  have hsplit : (fin.group g).frames = (done ++ [w]) ++ rest := by
    rw [hframes, List.append_assoc]
    rfl
  have hall : ∀ w' ∈ done ++ [w], Fits fin w' := by
    intro w' hw'
    rcases List.mem_append.mp hw' with hw' | hw'
    · exact hfits w' hw'
    · rw [List.mem_singleton.mp hw']
      exact hw
  have hsent : Sent fin header _ .nextFrame _ _ := .nextFrame hsplit hall
  rw [sentObjects_snoc, hobject, List.length_append] at hsent
  exact hsent

/-- One chunk more of the current frame is behind the sender. -/
theorem Sent.chunk {done rest : List FrameWriter} {w : FrameWriter} {chunks more : List Bytes}
    {chunk : Bytes} {left : Nat} (hframes : (fin.group g).frames = done ++ w :: rest)
    (hfits : ∀ w ∈ done, Fits fin w) (hchunks : (fin.frame w.frame).chunks = chunks ++ chunk :: more)
    (hne : w.size ≠ 0) (hsize : w.size ≤ Varint.compactMaximum)
    (hleft : chunks.flatten.length + left = w.size) (hle : chunk.length ≤ left) :
    Sent fin header (fin.group g).frames
      (.payload ⟨w.frame, w.size, chunks.length + 1⟩ (left - chunk.length)) (done.length + 1)
      (sentObjects header fin done ++
        (objectOpening header ++ (Varint.encode ⟨w.size⟩ ++ chunks.flatten)) ++ chunk) := by
  have hflatten : (chunks ++ [chunk]).flatten = chunks.flatten ++ chunk := by
    rw [List.flatten_append, List.flatten_singleton]
  have hsplit : (fin.frame w.frame).chunks = (chunks ++ [chunk]) ++ more := by
    rw [hchunks, List.append_assoc]
    rfl
  have hleft' : (chunks ++ [chunk]).flatten.length + (left - chunk.length) = w.size := by
    rw [hflatten, List.length_append]
    omega
  have hsent : Sent fin header _ _ _ _ := .payload hframes hfits hsplit hne hsize hleft'
  rw [hflatten, List.length_append] at hsent
  simp only [List.append_assoc] at hsent ⊢
  exact hsent

/-- All chunks of the current frame are behind the sender. -/
theorem Sent.frame {done rest : List FrameWriter} {w : FrameWriter}
    (hframes : (fin.group g).frames = done ++ w :: rest) (hfits : ∀ w ∈ done, Fits fin w)
    (hne : w.size ≠ 0) (hsize : w.size ≤ Varint.compactMaximum)
    (hlength : (fin.frame w.frame).payload.length = w.size) :
    Sent fin header (fin.group g).frames .nextFrame (done.length + 1)
      (sentObjects header fin done ++
        (objectOpening header ++ (Varint.encode ⟨w.size⟩ ++ (fin.frame w.frame).payload))) := by
  have hpayload : sentPayload fin w = (fin.frame w.frame).payload := if_neg hne
  have hfull : (fin.frame w.frame).payload ≠ [] := by
    intro hnil
    rw [hnil] at hlength
    exact hne hlength.symm
  refine .next hframes hfits ⟨hpayload ▸ hlength, hsize⟩ ?_
  rw [hpayload, objectBytes, if_neg hfull, hlength]

/-- The size is put out, and for a frame without bytes the whole object. -/
theorem size_leads {cursor : GroupCursor} {frame : FrameCursor} {x : Turn Sending Unit × Sink}
    (h : Stands fin header g s ⟨header, cursor, [], .size frame⟩ sink.written)
    (hmoves : Moves s held header cursor sink (.size frame) x) :
    Leads fin header g s held ⟨header, cursor, [], .size frame⟩ sink x := by
  obtain ⟨-, hgroup, hactive, hposition, ⟨hphase, -, -⟩ | ⟨hd, behind, hencode, hout, hsent⟩⟩ := id h
  · cases hphase
  dsimp only at hgroup hactive hposition hsent
  generalize hp : cursor.position = position at hsent
  cases hsent with
  | @size done rest w hframes hfits =>
  cases hmoves with
  | empty hzero =>
      have hzero : w.size = 0 := hzero
      have hsent : sentPayload fin w = [] := if_pos hzero
      have hfit : Fits fin w := by
        refine ⟨?_, hzero ▸ Nat.zero_le _⟩
        rw [hsent, hzero]
        rfl
      have hobject : objectBytes header (sentPayload fin w) =
          objectOpening header ++ (Varint.encode ⟨w.size⟩ ++ Varint.encode ⟨statusNormal⟩) := by
        rw [hsent, hzero]
        rfl
      refine .put hencode hout hgroup hactive hposition ?_ (by dsimp only [phaseSteps]; omega)
      rw [hp, List.append_assoc]
      exact .next hframes hfits hfit hobject
  | size hne hsize =>
      refine .put hencode hout hgroup hactive hposition ?_ ?_
      · have hsent : Sent fin header (fin.group g).frames (.payload ⟨w.frame, w.size, 0⟩ w.size) _
            (sentObjects header fin done ++ (objectOpening header ++ (Varint.encode ⟨w.size⟩ ++ []))) :=
          .payload hframes hfits (List.nil_append _).symm hne hsize (Nat.zero_add _)
        rw [hp, List.append_assoc]
        rw [List.append_nil] at hsent
        exact hsent
      · dsimp only [phaseSteps, FrameWriter.cursor]
        omega
  | tooLarge hsize =>
      refine .fail h (fun heq => nomatch heq) fun hfair => hsize (hfair.whole w ?_).size_le
      rw [hframes]
      exact List.mem_append_right done List.mem_cons_self

/-- The frame that the sender has begun stands in the group already. -/
theorem frame_begun {done rest : List FrameWriter} {w : FrameWriter} (hgrows : s.Grows fin)
    (hframes : (fin.group g).frames = done ++ w :: rest)
    (hlt : done.length < (s.group g).frames.length) :
    (s.group g).frames[done.length]? = some w := by
  have hhere : (s.group g).frames[done.length]? = some ((s.group g).frames[done.length]) :=
    List.getElem?_eq_getElem hlt
  have hthere := (hgrows.group g).getElem? hhere
  rw [hframes, List.getElem?_append_right (Nat.le_refl _), Nat.sub_self] at hthere
  exact hhere.trans hthere.symm

/-- A chunk is put out, or the frame is behind the sender. -/
theorem payload_leads {cursor : GroupCursor} {frame : FrameCursor} {left : Nat}
    {x : Turn Sending Unit × Sink} (hgrows : s.Grows fin)
    (h : Stands fin header g s ⟨header, cursor, [], .payload frame left⟩ sink.written)
    (hmoves : Moves s held header cursor sink (.payload frame left) x) :
    Leads fin header g s held ⟨header, cursor, [], .payload frame left⟩ sink x := by
  obtain ⟨-, hgroup, hactive, hposition, ⟨hphase, -, -⟩ | ⟨hd, behind, hencode, hout, hsent⟩⟩ := id h
  · exact nomatch hphase
  dsimp only at hgroup hactive hposition hsent
  generalize hp : cursor.position = position at hsent
  cases hsent with
  | @payload done rest w chunks more left hframes hfits hchunks hne hsize hleft =>
  have hlt : done.length + 1 ≤ (s.group g).frames.length := hp ▸ hposition
  have hmem : w ∈ (s.group g).frames := List.mem_of_getElem? (frame_begun hgrows hframes hlt)
  have hwhole : Fair fin header g s held sink → Whole fin w := by
    intro hfair
    refine hfair.whole w ?_
    rw [hframes]
    exact List.mem_append_right done List.mem_cons_self
  have hlength : Fair fin header g s held sink →
      chunks.flatten.length + more.flatten.length = w.size := by
    intro hfair
    rw [← (hwhole hfair).length_eq, Frame.payload, hchunks, List.flatten_append, List.length_append]
  have hframe := hgrows.frame w.frame
  cases hmoves with
  | chunk hchunk hle =>
      obtain ⟨more', rfl⟩ := rest_eq_cons hchunks (hframe.getElem? hchunk)
      have hlt : chunks.length < (s.frame w.frame).chunks.length :=
        (List.getElem?_eq_some_iff.mp hchunk).1
      refine .put hencode hout hgroup hactive hposition ?_ ?_
      · rw [hp]
        exact .chunk hframes hfits hchunks hne hsize hleft hle
      · dsimp only [phaseSteps]
        omega
  | tooLong hchunk hgt =>
      obtain ⟨more', rfl⟩ := rest_eq_cons hchunks (hframe.getElem? hchunk)
      refine .fail h (fun heq => nomatch heq) fun hfair => ?_
      have hlen := hlength hfair
      rw [List.flatten_cons, List.length_append] at hlen
      omega
  | frameEnd hclosed hle =>
      -- all bytes of the frame are out
      obtain rfl := rest_eq_nil hchunks (hframe.length_le hclosed hle)
      have hpayload : (fin.frame w.frame).payload = chunks.flatten := by
        rw [Frame.payload, hchunks, List.append_nil]
      have hlen : (fin.frame w.frame).payload.length = w.size := by
        rw [hpayload]
        exact hleft
      refine .put hencode hout hgroup hactive hposition ?_ ?_
      · rw [hp, List.append_nil, ← hpayload]
        exact .frame hframes hfits hne hsize hlen
      · dsimp only [phaseSteps]
        omega
  | tooShort hclosed hle hshort =>
      obtain rfl := rest_eq_nil hchunks (hframe.length_le hclosed hle)
      refine .fail h (fun heq => nomatch heq) fun hfair => hshort ?_
      have hlen : chunks.flatten.length + 0 = w.size := hlength hfair
      omega
  | awaitChunk hopen => exact .await h rfl (.inr ⟨w, hmem, hopen⟩)
  | noChunk hended hwritten =>
      refine .fail h (fun heq => nomatch heq) fun hfair => ?_
      by_cases hopen : (s.frame w.frame).ending = none
      · have hheld := Store.frameIsWritten_of_cursor hmem hfair.isRead
        exact absurd (hwritten hopen) (ne_false_of_eq_true hheld)
      · exact hended (hframe.complete (hwhole hfair).closed hopen)

/-- **What a step of a sender leads to.** -/
theorem step_leads (hgrows : s.Grows fin)
    (h : Stands fin header g s st (sink.written ++ st.unsent)) :
    Leads fin header g s held st sink (st.step s held sink) := by
  rcases step_cases st h.inactive with ⟨hunsent, hflushes⟩ | ⟨hunsent, hmoves⟩
  · exact write_leads h hunsent hflushes
  · generalize st.step s held sink = x at hmoves
    obtain ⟨header', cursor, unsent, phase⟩ := st
    obtain rfl : header' = header := h.header_eq
    obtain rfl : unsent = [] := hunsent
    rw [List.append_nil] at h
    cases phase with
    | header => exact header_leads h hmoves
    | nextFrame => exact nextFrame_leads hgrows h hmoves
    | size frame => exact size_leads h hmoves
    | payload frame left => exact payload_leads hgrows h hmoves
    | finish =>
        cases hmoves with
        | finish _ => exact .succeeded h rfl
        | refused hrefusal =>
            exact .refused h rfl fun hnone => nomatch hrefusal.symm.trans hnone

end Steps

end LiveMedia.Transfer
