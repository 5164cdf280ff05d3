import LiveMedia.Proofs.Live.Ownership
import LiveMedia.Proofs.Stream.FirstWait
import LiveMedia.Proofs.Transfer.Acceptance

/-!
# A receiver follows its sender

While a sender goes on, its receiver is polled in front of a wait: what has come so far is the front of a
stream that is not there yet. `Rests` is the invariant of such a receiver between two polls. Whatever is
still to come, with it the receiver would be on course for a body made of all that was sent and of that.
The receiver cannot tell these futures apart, because it does not see what is behind the wait
(`stepBody_early`), so it does the same in all of them. It does not stop: some future completes the group,
and a longer one does not (`run_rests`).

Beside the stream the receiver works on its own group only (`stepBody_served`).
-/

namespace LiveMedia.Transfer

open LiveMedia.Wire LiveMedia.Message LiveMedia.Live LiveMedia.Stream

/-- Bytes that come in one block, if there are any. -/
def block (bs : Bytes) : Source := if bs = [] then [] else [.data bs]

theorem wait_not_mem_block (bs : Bytes) : .wait ∉ block bs := by
  unfold block
  split
  · exact List.not_mem_nil
  · exact fun hmem => Arrival.noConfusion (List.mem_singleton.mp hmem)

section Blocks

variable (buffer bs : Bytes)

theorem bytes_block_append (behind : Source) :
    Source.bytes (block bs ++ behind) = bs ++ Source.bytes behind := by
  cases bs with
  | nil => rfl
  | cons b bs => rfl

theorem failure_block_append (behind : Source) :
    Source.failure? (block bs ++ behind) = Source.failure? behind := by
  cases bs with
  | nil => rfl
  | cons b bs => rfl

theorem bytes_block : Source.bytes (block bs) = bs := by
  cases bs with
  | nil => rfl
  | cons b bs => exact List.append_nil (b :: bs)

theorem failure_block : Source.failure? (block bs) = none := by
  cases bs with
  | nil => rfl
  | cons b bs => rfl

theorem content_block : Reader.content ⟨buffer, block bs⟩ = buffer ++ bs := by
  rw [Reader.content, bytes_block]

/-- A block, and behind a wait another one. -/
theorem content_blocks (more : Bytes) :
    Reader.content ⟨buffer, block bs ++ .wait :: block more⟩ = buffer ++ bs ++ more := by
  rw [Reader.content, bytes_block_append, List.append_assoc]
  exact congrArg (fun x => buffer ++ (bs ++ x)) (bytes_block more)

theorem failure_blocks (more : Bytes) :
    Reader.failure? ⟨buffer, block bs ++ .wait :: block more⟩ = none :=
  (failure_block_append bs _).trans (failure_block more)

end Blocks

namespace Receiving

-- ── a step in front of a wait ───────────────────────────────────────

section Early

variable {header : GroupHeader} {g : GroupWriter} {s : Store} {r : Reader}

/-- What a step leads to in front of a wait, for everything that may stand behind it. -/
inductive Early (header : GroupHeader) (g : GroupWriter) (s : Store) (x : Source → Outcome) : Prop where
  | go (phase : ReceivePhase) (s' : Store) (r' : Reader) : .wait ∉ r'.source →
      (∀ behind, x behind = (.go (.body header g phase), s', r'.feed (.wait :: behind))) →
      Early header g s x
  | wait (phase : ReceivePhase) (buffer : Bytes) :
      (∀ behind, x behind = (.wait (.body header g phase), s, ⟨buffer, behind⟩)) → Early header g s x
  | stop (result : Except TransportError GroupHeader) (s' : Store) (r' : Reader) :
      (∀ behind, x behind = (.stop result, s', r'.feed (.wait :: behind))) → Early header g s x

/-- A step that reads first and then goes on with what it was given. -/
theorem Early.proceed {α : Type} {phase : ReceivePhase} {lacks : Bytes → Prop}
    {call : Reader → Attempt TransportError α × Reader} {next : α → Reader → Outcome}
    (h : r.Before lacks call)
    (hnext : ∀ (a : α) (r' : Reader), .wait ∉ r'.source →
      Early header g s fun behind => next a (r'.feed (.wait :: behind))) :
    Early header g s fun behind =>
      Receiving.proceed s header g phase (call (r.feed (.wait :: behind))) next := by
  cases h with
  | value a r' hnot hcall =>
      have hafter := hnext a r' hnot
      simp only [hcall, Receiving.proceed]
      exact hafter
  | pending buffer _ hcall =>
      refine .wait phase buffer fun behind => ?_
      simp only [hcall, Receiving.proceed]
  | failed e r' hcall =>
      refine .stop (.ok header) (s.abortGroup e g) r' fun behind => ?_
      simp only [hcall, Receiving.proceed, Receiving.giveUp]

theorem Early.giveUp (s s' : Store) (e : TransportError) :
    Early header g s fun behind => Receiving.giveUp s' header g (r.feed (.wait :: behind)) e :=
  .stop (.ok header) (s'.abortGroup e g) r fun _ => rfl

theorem Early.complete :
    Early header g s fun behind => Receiving.complete s header g (r.feed (.wait :: behind)) := by
  cases hclose : s.closeGroup g with
  | error e =>
      refine .stop (.error e) s r fun behind => ?_
      simp only [Receiving.complete, hclose]
  | ok s' =>
      refine .stop (.ok header) s' r fun behind => ?_
      simp only [Receiving.complete, hclose]

/-- A skip that comes to a wait remembers how much is left. -/
theorem extension_early (left : Nat) (h : .wait ∉ r.source) : Early header g s fun behind =>
    stepBody s header g (r.feed (.wait :: behind)) (.extension left) := by
  cases Reader.skip_before left r.buffer h with
  | done left' r' hnot hcall =>
      refine .go .size s r' hnot fun behind => ?_
      have hskip : Reader.skip left (r.feed (.wait :: behind)) = _ := hcall behind
      simp only [stepBody, hskip]
  | pending left' hcall =>
      refine .wait (.extension left') [] fun behind => ?_
      have hskip : Reader.skip left (r.feed (.wait :: behind)) = _ := hcall behind
      simp only [stepBody, hskip]
  | failed e left' r' hcall =>
      refine .stop (.ok header) (s.abortGroup e g) r' fun behind => ?_
      have hskip : Reader.skip left (r.feed (.wait :: behind)) = _ := hcall behind
      simp only [stepBody, hskip, Receiving.giveUp]

theorem payload_early (frame : FrameWriter) (left : Nat) (h : .wait ∉ r.source) :
    Early header g s fun behind =>
      stepBody s header g (r.feed (.wait :: behind)) (.payload frame left) := by
  show Early header g s fun behind => if left = 0 then _ else _
  split
  · cases hclose : s.closeFrame frame with
    | error e => exact .giveUp s (s.abortFrame e frame) e
    | ok s' => exact .go .object s' r h fun _ => rfl
  · cases Reader.read_before left h with
    | value found r' hnot hcall =>
        simp only [hcall]
        cases found with
        | none => exact .giveUp s (s.abortFrame .wrongSize frame) .wrongSize
        | some chunk =>
            dsimp only
            cases hwrite : s.writeChunk frame chunk with
            | error e => exact .giveUp s (s.abortFrame e frame) e
            | ok s' => exact .go (.payload frame (left - chunk.length)) s' r' hnot fun _ => rfl
    | pending buffer _ hcall =>
        refine .wait (.payload frame left) buffer fun behind => ?_
        simp only [hcall]
    | failed e r' hcall =>
        simp only [hcall]
        exact .giveUp s (s.abortFrame e frame) e

/-- **A step does not see what is behind a wait.** -/
theorem stepBody_early (phase : ReceivePhase) (h : .wait ∉ r.source) :
    Early header g s fun behind => stepBody s header g (r.feed (.wait :: behind)) phase := by
  cases phase with
  | object =>
      refine .proceed (Reader.decodeMaybe_before decodeCompact h) fun delta r' hnot => ?_
      cases delta with
      | some n => exact .go _ s r' hnot fun _ => rfl
      | none =>
          show Early header g s fun behind => if header.flags.hasEnd = true then _ else _
          split
          · exact .complete
          · exact .giveUp s s .dropped
  | extensionLength =>
      exact .proceed (Reader.decode_before decodeCompact h) fun n r' hnot =>
        .go (.extension n) s r' hnot fun _ => rfl
  | extension left => exact extension_early left h
  | size =>
      refine .proceed (Reader.decode_before decodeCompact h) fun size r' hnot => ?_
      show Early header g s fun behind => if size = 0 then _ else _
      split
      · exact .go .status s r' hnot fun _ => rfl
      · cases hcreate : s.createFrame g size with
        | error e => exact .giveUp s s e
        | ok made => exact .go (.payload made.1 size) made.2 r' hnot fun _ => rfl
  | status =>
      refine .proceed (Reader.decode_before decodeCompact h) fun status r' hnot => ?_
      show Early header g s fun behind => if status = statusNormal then _ else _
      split
      · cases hwrite : s.writeFrame g [] with
        | error e => exact .giveUp s s e
        | ok s' => exact .go .object s' r' hnot fun _ => rfl
      · show Early header g s fun behind =>
          if status = statusEndOfGroup ∧ header.flags.hasEnd = false then _ else _
        split
        · exact .go .final s r' hnot fun _ => rfl
        · exact .giveUp s s .unsupported
  | payload frame left => exact payload_early frame left h
  | final => exact .proceed (Reader.closed_before h) fun _ r' _ => .complete

end Early

-- ── what a receiver does to the store ───────────────────────────────

section Service

variable {header : GroupHeader} {g : GroupWriter} {s : Store} {r : Reader} {phase : ReceivePhase}

theorem giveUp_served (e : TransportError) :
    Store.Served g.group s (Receiving.giveUp s header g r e).2.1 :=
  .single (.abortGroup e g) (.of_group rfl rfl rfl) rfl

theorem giveUpFrame_served {frame : FrameWriter} (hframe : frame ∈ (s.group g.group).frames)
    (e : TransportError) :
    Store.Served g.group s (Receiving.giveUpFrame s header g frame r e).2.1 := by
  have hfirst : Store.Served g.group s (s.abortFrame e frame) :=
    .single (.abortFrame e frame) (.of_frame hframe rfl rfl rfl) rfl
  exact hfirst.trans (giveUp_served e)

theorem complete_served : Store.Served g.group s (Receiving.complete s header g r).2.1 := by
  unfold Receiving.complete
  cases hclose : s.closeGroup g with
  | error e => exact .refl
  | ok s' =>
      exact .single (.closeGroup g) (.of_group rfl rfl rfl) (Operation.perform_closeGroup hclose)

theorem proceed_served {α : Type} {answer : Attempt TransportError α × Reader}
    {next : α → Reader → Outcome} (hnext : ∀ a r', Store.Served g.group s (next a r').2.1) :
    Store.Served g.group s (Receiving.proceed s header g phase answer next).2.1 := by
  obtain ⟨attempt, r'⟩ := answer
  rcases attempt with (e | _) | a
  · exact giveUp_served e
  · exact .refl
  · exact hnext a r'

/-- **A step works on the group and on the frame that is being written.** -/
theorem stepBody_served (hframe : ∀ w, writing phase = some w → w ∈ (s.group g.group).frames) :
    Store.Served g.group s (stepBody s header g r phase).2.1 := by
  cases phase with
  | object =>
      refine proceed_served fun delta r' => ?_
      cases delta with
      | some n => exact .refl
      | none =>
          show Store.Served g.group s (if header.flags.hasEnd = true then _ else _ : Outcome).2.1
          split
          · exact complete_served
          · exact giveUp_served .dropped
  | extensionLength => exact proceed_served fun n r' => .refl
  | extension left =>
      unfold stepBody
      dsimp only
      split
      · exact .refl
      · exact .refl
      · exact giveUp_served _
  | size =>
      refine proceed_served fun size r' => ?_
      show Store.Served g.group s (if size = 0 then _ else _ : Outcome).2.1
      split
      · exact .refl
      · cases hcreate : s.createFrame g size with
        | error e => exact giveUp_served e
        | ok made =>
            exact .single (.createFrame g size) (.of_group rfl rfl rfl)
              (Operation.perform_createFrame hcreate)
  | status =>
      refine proceed_served fun status r' => ?_
      show Store.Served g.group s (if status = statusNormal then _ else _ : Outcome).2.1
      split
      · cases hwrite : s.writeFrame g [] with
        | error e => exact giveUp_served e
        | ok s' =>
            exact .single (.writeFrame g []) (.of_group rfl rfl rfl)
              (Operation.perform_writeFrame hwrite)
      · show Store.Served g.group s
          (if status = statusEndOfGroup ∧ header.flags.hasEnd = false then _ else _ : Outcome).2.1
        split
        · exact .refl
        · exact giveUp_served .unsupported
  | payload frame left =>
      have hmem := hframe frame rfl
      show Store.Served g.group s (if left = 0 then _ else _ : Outcome).2.1
      split
      · cases hclose : s.closeFrame frame with
        | error e => exact giveUpFrame_served hmem e
        | ok s' =>
            exact .single (.closeFrame frame) (.of_frame hmem rfl rfl rfl)
              (Operation.perform_closeFrame hclose)
      · split
        · next chunk r' hread =>
          cases hwrite : s.writeChunk frame chunk with
          | error e => exact giveUpFrame_served hmem e
          | ok s' =>
              exact .single (.writeChunk frame chunk) (.of_frame hmem rfl rfl rfl)
                (Operation.perform_writeChunk hwrite)
        · exact giveUpFrame_served hmem _
        · exact .refl
        · exact giveUpFrame_served hmem _
  | final => exact proceed_served fun _ r' => complete_served

variable {P : List Bytes → Prop} {origin : Store} {base : FrameId} {ws : List FrameWriter}

theorem OnCourse.served (h : OnCourse P origin base header g ws phase s r) :
    Store.Served g.group s (stepBody s header g r phase).2.1 := by
  refine stepBody_served fun w hw => ?_
  rw [h.filling.group_eq, hw]
  exact List.mem_append_right ws List.mem_cons_self

/-- So does a run. -/
theorem run_served (track : TrackWriter) (fuel : Nat)
    (h : OnCourse P origin base header g ws phase s r) :
    Store.Served g.group s (run track fuel s r (.body header g phase)).2.1 := by
  induction fuel generalizing ws phase s r with
  | zero => exact .refl
  | succ fuel ih =>
      have hserved := h.served
      have hstep := stepBody_lands h
      unfold run step
      dsimp only
      generalize stepBody s header g r phase = x at hserved hstep
      cases hstep with
      | go h _ _ => exact hserved.trans (ih h)
      | wait _ _ => exact hserved
      | stop _ => exact hserved

end Service

-- ── a receiver between two polls ────────────────────────────────────

section Rest

variable {header : GroupHeader} {g : GroupWriter} {s : Store} {phase : ReceivePhase} {sent : Bytes}
  {r : Reader}

/-- What is to come makes a body of what was sent, with these payloads. -/
def Completed (header : GroupHeader) (sent more : Bytes) (payloads : List Bytes) : Prop :=
  Body header.flags payloads (sent ++ more)

/-- The receiver has read what was `sent` behind the header, but for what the reader still holds. It is
    on course whatever comes behind the wait that the reader will be given. -/
def Expects (header : GroupHeader) (g : GroupWriter) (phase : ReceivePhase) (s : Store) (sent : Bytes)
    (reader : Bytes → Reader) : Prop :=
  ∀ more, ∃ ws, OnCourse (Completed header sent more) s 0 header g ws phase s (reader more)

/-- The receiver waits, with the bytes that it could not use yet in its buffer. -/
def Rests (header : GroupHeader) (g : GroupWriter) (phase : ReceivePhase) (s : Store) (sent : Bytes)
    (buffer : Bytes) : Prop :=
  Expects header g phase s sent fun more => ⟨buffer, block more⟩

/-- All that counts of a reader is its content, and that it does not fail. -/
theorem OnCourse.reader {P : List Bytes → Prop} {origin : Store} {base : FrameId}
    {ws : List FrameWriter} {r' : Reader} (h : OnCourse P origin base header g ws phase s r)
    (hcontent : r'.content = r.content) (hfailure : r'.failure? = r.failure?) :
    OnCourse P origin base header g ws phase s r' := by
  refine ⟨h.filling, h.confined, h.left_eq, fun payloads => ?_⟩
  rw [h.promise, Promises, Promises, hcontent, hfailure]

/-- The predicate may be put in other words. -/
theorem OnCourse.goal {P Q : List Bytes → Prop} {origin : Store} {base : FrameId}
    {ws : List FrameWriter} (h : OnCourse P origin base header g ws phase s r)
    (hiff : ∀ payloads, Q payloads ↔ P payloads) : OnCourse Q origin base header g ws phase s r :=
  ⟨h.filling, h.confined, h.left_eq, fun payloads => (hiff payloads).trans (h.promise payloads)⟩

/-- What was done before is left out of account. -/
theorem OnCourse.rebase {P : List Bytes → Prop} {origin : Store} {base : FrameId}
    {ws : List FrameWriter} (h : OnCourse P origin base header g ws phase s r) :
    OnCourse P s 0 header g ws phase s r := by
  have hf := h.filling
  exact ⟨⟨Nat.zero_le _, hf.group_lt, hf.group_eq, fun w hw => ⟨Nat.zero_le _, (hf.frame_ids w hw).2⟩,
    hf.closed, hf.writing, hf.sized⟩, .refl s, h.left_eq, h.promise⟩

/-- A receiver that rests is left alone by the others. -/
theorem Rests.spared {s' : Store} {buffer : Bytes} (h : Rests header g phase s sent buffer)
    (hspares : Store.Spares g.group s s') : Rests header g phase s' sent buffer := by
  intro more
  obtain ⟨ws, hcourse⟩ := h more
  have hf := hcourse.filling
  have hmem : ∀ w, w ∈ ws ∨ writing phase = some w → w ∈ (s.group g.group).frames := by
    intro w hw
    rw [hf.group_eq]
    rcases hw with hw | hw
    · exact List.mem_append_left _ hw
    · rw [hw]
      exact List.mem_append_right ws List.mem_cons_self
  have hpayloads : s'.payloads ws = s.payloads ws :=
    hspares.payloads_eq fun w hw => hmem w (.inl hw)
  have hframe : ∀ w, writing phase = some w → s'.frame w.frame = s.frame w.frame :=
    fun w hw => hspares.frame w (hmem w (.inr hw))
  have hpart : part s' phase = part s phase := by
    cases phase with
    | payload frame left => exact congrArg Frame.payload (hframe frame rfl)
    | _ => rfl
  refine ⟨ws, hspares.filling hf, .refl s', ?_, fun payloads => ?_⟩
  · rintro frame left rfl
    rw [hframe frame rfl]
    exact hcourse.left_eq frame left rfl
  · rw [hcourse.promise, Promises, Promises, hpayloads, hpart]

/-- More was sent. -/
theorem Rests.sends {buffer : Bytes} (h : Rests header g phase s sent buffer) (bs : Bytes) :
    Rests header g phase s (sent ++ bs) (buffer ++ bs) := by
  intro more
  obtain ⟨ws, hcourse⟩ := h (bs ++ more)
  refine ⟨ws, ?_⟩
  have hsame : Completed header (sent ++ bs) more = Completed header sent (bs ++ more) := by
    unfold Completed
    rw [List.append_assoc]
  rw [hsame]
  refine hcourse.reader ?_ ?_
  · rw [content_block, content_block, List.append_assoc]
  · exact (failure_block more).trans (failure_block (bs ++ more)).symm

end Rest

-- ── polling while the sender goes on ────────────────────────────────

section Polls

variable {header : GroupHeader} {g : GroupWriter} {s : Store} {phase : ReceivePhase} {sent : Bytes}
  {r : Reader}

/-- A group cannot be complete, or aborted, on account of what was sent so far: some future completes it,
    and the same with a byte behind it does not. -/
theorem not_settled {s' : Store} {more : Bytes} {payloads : List Bytes}
    (hend : header.flags.hasEnd = false) (hmore : Completed header sent more payloads)
    (h : ∀ more, Settled (Completed header sent more) s 0 g s') : False := by
  rcases (h more).ending with ⟨held, hcomplete, honly⟩ | ⟨-, hnone⟩
  · obtain rfl := (honly payloads).mp hmore
    rcases (h (more ++ [0])).ending with ⟨other, hcomplete', honly'⟩ | ⟨⟨e, haborted, -⟩, -⟩
    · have hlonger : Completed header sent (more ++ [0]) other := (honly' other).mpr rfl
      unfold Completed at hmore hlonger
      rw [← List.append_assoc] at hlonger
      obtain ⟨hnothing, -⟩ := hmore.ahead.cut hlonger.ahead
      exact absurd (hnothing hend) (List.cons_ne_nil 0 [])
    · cases haborted.symm.trans hcomplete.group
  · exact hnone payloads hmore

/-- **A receiver that is polled while the sender goes on does what there is to do, and rests.** -/
theorem run_rests (track : TrackWriter) (fuel : Nat) {more : Bytes} {payloads : List Bytes}
    (hend : header.flags.hasEnd = false) (hmore : Completed header sent more payloads)
    (hr : .wait ∉ r.source)
    (h : Expects header g phase s sent fun more => r.feed (.wait :: block more))
    (hfuel : work (r.feed [.wait]) phase < fuel) :
    ∃ phase' s' buffer, run track fuel s (r.feed [.wait]) (.body header g phase) =
        (.wait (.body header g phase'), s', ⟨buffer, []⟩) ∧
      Rests header g phase' s' sent buffer := by
  induction fuel generalizing phase s r with
  | zero => exact absurd hfuel (Nat.not_lt_zero _)
  | succ fuel ih =>
      have hlands : ∀ more, Lands (Completed header sent more) s 0 header g
          (work (r.feed (.wait :: block more)) phase) (r.feed (.wait :: block more)).waits
          (stepBody s header g (r.feed (.wait :: block more)) phase) := by
        intro more
        obtain ⟨ws, hcourse⟩ := h more
        exact stepBody_lands hcourse
      have hearly : Early header g s fun behind =>
          stepBody s header g (r.feed (.wait :: behind)) phase := stepBody_early phase hr
      cases hearly with
      | go phase' s' r' hnot hcall =>
          have hnext : Expects header g phase' s' sent fun more => r'.feed (.wait :: block more) := by
            intro more
            have hstep := hlands more
            rw [hcall (block more)] at hstep
            cases hstep with
            | go hcourse _ _ => exact ⟨_, hcourse.rebase⟩
          have hless : work (r'.feed [.wait]) phase' < work (r.feed [.wait]) phase := by
            have hstep := hlands []
            rw [hcall (block [])] at hstep
            cases hstep with
            | go _ hlt _ => exact hlt
          obtain ⟨phase'', s'', buffer, hrun, hrests⟩ := ih hnot hnext (by omega)
          refine ⟨phase'', s'', buffer, ?_, hrests⟩
          simp only [run, step, hcall []]
          exact hrun
      | wait phase' buffer hcall =>
          refine ⟨phase', s, buffer, ?_, fun more => ?_⟩
          · simp only [run, step, hcall []]
          · have hstep := hlands more
            rw [hcall (block more)] at hstep
            cases hstep with
            | wait hcourse _ => exact ⟨_, hcourse.rebase⟩
      | stop result s' r' hcall =>
          have hsettled : ∀ more, Settled (Completed header sent more) s 0 g s' := by
            intro more
            have hstep := hlands more
            rw [hcall (block more)] at hstep
            cases hstep with
            | stop hsettled => exact hsettled
          exact (not_settled hend hmore hsettled).elim

/-- A receiver whose stream ends stops. -/
theorem run_settles {P : List Bytes → Prop} {origin : Store} {base : FrameId} {ws : List FrameWriter}
    (track : TrackWriter) (fuel : Nat) (h : OnCourse P origin base header g ws phase s r)
    (hwaits : r.waits = 0) (hfuel : work r phase < fuel) :
    ∃ s' r', run track fuel s r (.body header g phase) = (.stop (.ok header), s', r') ∧
      Settled P origin base g s' ∧ Store.Served g.group s s' := by
  have hlands := run_lands track fuel h hfuel
  have hserved := run_served track fuel h
  rw [hwaits] at hlands
  generalize run track fuel s r (.body header g phase) = x at hlands hserved
  cases hlands with
  | go _ hlt _ => exact absurd hlt (Nat.not_lt_zero _)
  | wait _ hlt => exact absurd hlt (Nat.not_lt_zero _)
  | stop hsettled => exact ⟨_, _, rfl, hsettled, hserved⟩

end Polls

-- ── rounds ──────────────────────────────────────────────────────────

/-- A receiver that makes its group or goes on with it, and works on no other. -/
inductive Works (track : TrackWriter) (sequence : Nat) (s : Store) (g : GroupWriter) :
    Receiving → Store → Prop where
  | makes {opened s' : Store} : s.createGroup track sequence = .ok (g, opened) →
      Store.Served g.group opened s' → Works track sequence s g .opening s'
  | fills {header : GroupHeader} {phase : ReceivePhase} {s' : Store} : Store.Served g.group s s' →
      Works track sequence s g (.body header g phase) s'

/-- A receiver between two polls when `total` was sent, and what it has in its buffer. -/
inductive Stays (header : GroupHeader) (s : Store) (total : Bytes) : Receiving → Bytes → Prop where
  | opening : (GroupHeader.decode.run total).1 = .error .short → Stays header s total .opening total
  | body {g : GroupWriter} {phase : ReceivePhase} {sent buffer : Bytes} :
      GroupHeader.decode.run total = (.ok header, sent) → Rests header g phase s sent buffer →
      Stays header s total (.body header g phase) buffer

/-- What a poll comes to while the sender goes on. -/
inductive Onward (track : TrackWriter) (header : GroupHeader) (s : Store) (total : Bytes) :
    Receiving → Outcome → Prop where
  | unread : (GroupHeader.decode.run total).1 = .error .short →
      Onward track header s total .opening (.wait .opening, s, ⟨total, []⟩)
  | filled {st : Receiving} {g : GroupWriter} {phase : ReceivePhase} {s' : Store}
      {sent buffer : Bytes} :
      GroupHeader.decode.run total = (.ok header, sent) → Rests header g phase s' sent buffer →
      Works track header.groupId s g st s' →
      Onward track header s total st (.wait (.body header g phase), s', ⟨buffer, []⟩)

/-- What a poll comes to when the stream has ended behind the header and what was `sent`. -/
inductive Ended (track : TrackWriter) (header : GroupHeader) (s : Store) (sent : Bytes)
    (st : Receiving) : Outcome → Prop where
  | complete {g : GroupWriter} {s' : Store} {r' : Reader} {payloads : List Bytes} :
      Works track header.groupId s g st s' → s'.Complete g.group payloads →
      (∀ other, Body header.flags other sent ↔ other = payloads) →
      Ended track header s sent st (.stop (.ok header), s', r')
  | aborted {g : GroupWriter} {s' : Store} {r' : Reader} :
      Works track header.groupId s g st s' → s'.Aborted g.group →
      (∀ payloads, ¬ Body header.flags payloads sent) →
      Ended track header s sent st (.stop (.ok header), s', r')

/-- The sender may still make a stream of a group with the header of what it sent. -/
def Promising (header : GroupHeader) (total : Bytes) : Prop :=
  ∃ more body payloads, GroupHeader.decode.run (total ++ more) = (.ok header, body) ∧
    Body header.flags payloads body

section Rounds

variable {track : TrackWriter} {header : GroupHeader} {s : Store} {total buffer bs sent : Bytes}
  {st : Receiving}

/-- A header that was read is the header of all that begins so. -/
theorem run_more (h : GroupHeader.decode.run total = (.ok header, sent)) (more : Bytes) :
    GroupHeader.decode.run (total ++ more) = (.ok header, sent ++ more) := by
  refine GroupHeader.incremental.extend h ?_ more
  intro heq
  cases heq

/-- Behind a header that was read, what is promised is a body. -/
theorem Promising.completed (h : Promising header total)
    (hrun : GroupHeader.decode.run total = (.ok header, sent)) :
    ∃ more payloads, Completed header sent more payloads := by
  obtain ⟨more, body, payloads, hwhole, hbody⟩ := h
  obtain ⟨-, rfl⟩ := Prod.mk.inj ((run_more hrun more).symm.trans hwhole)
  exact ⟨more, payloads, hbody⟩

/-- In front of a wait the header is read once all of it is there, and what stands behind it is what was
    sent and what is to come. -/
theorem decode_opening (h : Promising header (buffer ++ bs)) :
    ((GroupHeader.decode.run (buffer ++ bs)).1 = .error .short ∧
      ∀ behind, Reader.decode GroupHeader.decode ⟨buffer, block bs ++ .wait :: behind⟩ =
        (.error .pending, ⟨buffer ++ bs, behind⟩)) ∨
    ∃ (sent : Bytes) (r' : Reader),
      GroupHeader.decode.run (buffer ++ bs) = (.ok header, sent) ∧ .wait ∉ r'.source ∧
      (∀ behind, Reader.decode GroupHeader.decode ⟨buffer, block bs ++ .wait :: behind⟩ =
        (.ok header, r'.feed (.wait :: behind))) ∧
      ∀ more, (r'.feed (.wait :: block more)).content = sent ++ more ∧
        (r'.feed (.wait :: block more)).failure? = none := by
  obtain ⟨more, body, payloads, hwhole, -⟩ := h
  -- what is found in front of the wait is the answer of the whole call, whatever comes then
  have hanswers : ∀ {more : Bytes} {x}, let r := Reader.feed ⟨buffer, block bs⟩ (.wait :: block more)
      Reader.decode GroupHeader.decode r = x →
        r.Answers (r.Decodes GroupHeader.decode) (r.Refuses GroupHeader.decode) x := by
    rintro more _ r rfl
    exact Reader.decode_answers GroupHeader.incremental r
  have hcontent : ∀ more, (Reader.feed ⟨buffer, block bs⟩ (.wait :: block more)).content =
      buffer ++ bs ++ more := content_blocks buffer bs
  cases Reader.decode_before (r := ⟨buffer, block bs⟩) GroupHeader.decode (wait_not_mem_block bs) with
  | value a r' hnot hcall =>
      right
      have hdecodes : ∀ more, Reader.Decodes (Reader.feed ⟨buffer, block bs⟩ (.wait :: block more))
          GroupHeader.decode a (r'.feed (.wait :: block more)) := by
        intro more
        cases hanswers (hcall (block more)) with
        | value h => exact h
      have hread : ∀ more, GroupHeader.decode.run (buffer ++ bs ++ more) =
          (.ok a, (r'.feed (.wait :: block more)).content) := by
        intro more
        rw [← hcontent]
        exact (hdecodes more).run_eq GroupHeader.incremental
      obtain rfl : a = header := Except.ok.inj (congrArg Prod.fst ((hread more).symm.trans hwhole))
      have hnow := hread []
      rw [List.append_nil] at hnow
      refine ⟨_, r', hnow, hnot, hcall, fun more => ⟨?_, ?_⟩⟩
      · exact congrArg Prod.snd ((hread more).symm.trans (run_more hnow more))
      · obtain ⟨front, hpast, -⟩ := hdecodes more
        rw [hpast.failure_eq]
        exact failure_blocks buffer bs more
  | pending buffer' hshort hcall =>
      left
      cases hanswers (hcall (block [])) with
      | pending hpast _ =>
          have hall : buffer ++ bs = buffer' := by
            have hsame := hpast.content_eq
            rw [hcontent, List.append_nil, List.nil_append] at hsame
            exact hsame.trans (List.append_nil buffer')
          subst hall
          exact ⟨hshort, hcall⟩
  | failed e r' hcall =>
      cases hanswers (hcall (block more)) with
      | failed hrefuses =>
          obtain ⟨e', he', -⟩ := hrefuses
          rw [hcontent, hwhole] at he'
          cases he'

/-- The fuel of a poll is enough behind the header. -/
theorem work_behind_header {r r' : Reader} (hcontent : r.content = total)
    (hrun : GroupHeader.decode.run total = (.ok header, sent)) (hr' : r'.content = sent) :
    work r' .object < 2 * (r.buffer.length + r.source.volume) + 3 := by
  obtain ⟨front, htotal, -⟩ := GroupHeader.incremental.run_eq_ok_iff.mp hrun
  have hlength := congrArg List.length htotal
  rw [List.length_append] at hlength
  have hwork := work_le r .object
  unfold work at hwork ⊢
  dsimp only at hwork ⊢
  rw [hcontent] at hwork
  rw [hr']
  omega

/-- **A poll while the sender goes on.** The receiver waits for more, and has done all that can be done
    with what was sent. -/
theorem Stays.onward (h : Stays header s total st buffer) (hend : header.flags.hasEnd = false)
    (hpromise : Promising header (total ++ bs))
    (hcreate : st = .opening → ∃ made, s.createGroup track header.groupId = .ok made) :
    Onward track header s (total ++ bs) st (poll track s ⟨buffer, block bs ++ [.wait]⟩ st) := by
  have hcontent : Reader.content ⟨buffer, block bs ++ [.wait]⟩ = buffer ++ bs :=
    (content_blocks buffer bs []).trans (List.append_nil _)
  cases h with
  | opening hshort =>
      have hpoll : poll track s ⟨total, block bs ++ [.wait]⟩ .opening = run track
          (2 * (total.length + Source.volume (block bs ++ [.wait])) + 3 + 1) s _ .opening := rfl
      rw [hpoll, run, step]
      rcases decode_opening hpromise with ⟨hshort, hpending⟩ | ⟨sent, r', hrun, hnot, hdecode, hbehind⟩
      · rw [hpending []]
        exact .unread hshort
      · rw [hdecode []]
        obtain ⟨⟨g, opened⟩, hmade⟩ := hcreate rfl
        simp only [hmade]
        have hexpects : Expects header g .object opened sent fun more =>
            r'.feed (.wait :: block more) := by
          intro more
          obtain ⟨hcontent, hfailure⟩ := hbehind more
          refine ⟨[], ((onCourse_of_createGroup hmade _).goal fun payloads => ?_).rebase⟩
          rw [hcontent, hfailure]
          exact (and_iff_right rfl).symm
        obtain ⟨hafter, -⟩ := hbehind []
        rw [List.append_nil] at hafter
        obtain ⟨more, payloads, hmore⟩ := hpromise.completed hrun
        have hfuel := work_behind_header hcontent hrun hafter
        obtain ⟨phase, s', buffer, heq, hrests⟩ := run_rests track _ hend hmore hnot hexpects hfuel
        have hserved := run_served track
          (2 * (total.length + Source.volume (block bs ++ [.wait])) + 3)
          (onCourse_of_createGroup hmade (r'.feed [.wait]))
        rw [heq] at hserved ⊢
        exact .filled hrun hrests (.makes hmade hserved)
  | @body g phase sent _ hrun hrests =>
      have hnow := run_more hrun bs
      obtain ⟨more, payloads, hmore⟩ := hpromise.completed hnow
      have hexpects : Expects header g phase s (sent ++ bs) fun more =>
          ⟨buffer, block bs ++ .wait :: block more⟩ := by
        intro more
        obtain ⟨ws, hcourse⟩ := hrests.sends bs more
        refine ⟨ws, hcourse.reader ?_ ?_⟩
        · rw [content_blocks, content_block]
        · exact (failure_blocks buffer bs more).trans (failure_block more).symm
      have hfuel := Nat.lt_add_right 2 (Nat.lt_succ_of_le
        (work_le ⟨buffer, block bs ++ [.wait]⟩ phase))
      obtain ⟨phase', s', buffer', heq, hrests'⟩ := run_rests (r := ⟨buffer, block bs⟩) track _ hend hmore
        (wait_not_mem_block bs) hexpects hfuel
      obtain ⟨ws, hcourse⟩ := hexpects []
      have hserved := run_served track
        (2 * (buffer.length + Source.volume (block bs ++ [.wait])) + 4) hcourse
      have hpoll : poll track s ⟨buffer, block bs ++ [.wait]⟩ (.body header g phase) = _ := heq
      have hsame : run track (2 * (buffer.length + Source.volume (block bs ++ [.wait])) + 4) s
          ⟨buffer, block bs ++ .wait :: block []⟩ (.body header g phase) = _ := heq
      rw [hsame] at hserved
      rw [hpoll]
      exact .filled hnow hrests' (.fills hserved)

/-- How a group has ended that was settled for the body that was `sent`. -/
theorem Settled.ended {P : List Bytes → Prop} {origin s' : Store} {base : FrameId} {g : GroupWriter}
    (h : Settled P origin base g s') (hworks : Works track header.groupId s g st s')
    (hP : ∀ payloads, P payloads ↔ Body header.flags payloads sent) (r' : Reader) :
    Ended track header s sent st (.stop (.ok header), s', r') := by
  rcases h.ending with ⟨payloads, hcomplete, honly⟩ | ⟨haborted, hnone⟩
  · exact .complete hworks hcomplete fun other => (hP other).symm.trans (honly other)
  · exact .aborted hworks haborted fun payloads hbody => hnone payloads ((hP payloads).mpr hbody)

/-- **A poll when the stream has ended behind the header.** The receiver stops, and its group is complete
    if what was sent is a body, and aborted otherwise. -/
theorem Stays.ended (h : Stays header s total st buffer)
    (hrun : GroupHeader.decode.run (total ++ bs) = (.ok header, sent))
    (hcreate : st = .opening → ∃ made, s.createGroup track header.groupId = .ok made) :
    Ended track header s sent st (poll track s ⟨buffer, block bs ++ [.finish]⟩ st) := by
  have hcontent : Reader.content ⟨buffer, block bs ++ [.finish]⟩ = buffer ++ bs := by
    rw [Reader.content, bytes_block_append]
    exact congrArg (buffer ++ ·) (List.append_nil bs)
  have hfailure : Reader.failure? ⟨buffer, block bs ++ [.finish]⟩ = none := failure_block_append bs _
  have hwaits : Reader.waits ⟨buffer, block bs ++ [.finish]⟩ = 0 := by
    cases bs with
    | nil => rfl
    | cons b bs => rfl
  cases h with
  | opening hshort =>
      have hpoll : poll track s ⟨total, block bs ++ [.finish]⟩ .opening = run track
          (2 * (total.length + Source.volume (block bs ++ [.finish])) + 3 + 1) s _ .opening := rfl
      have hanswers := Reader.decode_answers GroupHeader.incremental ⟨total, block bs ++ [.finish]⟩
      rw [hpoll, run, step]
      generalize Reader.decode GroupHeader.decode ⟨total, block bs ++ [.finish]⟩ = x at hanswers
      cases hanswers with
      | @value a r' hdecodes =>
          rw [← hcontent] at hrun
          obtain ⟨rfl, hafter⟩ := decodes_unique hrun hdecodes
          obtain ⟨front, hpast, -⟩ := hdecodes
          obtain ⟨⟨g, opened⟩, hmade⟩ := hcreate rfl
          simp only [hmade]
          have hnone : r'.waits = 0 := Nat.le_zero.mp (hwaits ▸ hpast.waits_le)
          have hfuel := work_behind_header rfl hrun hafter
          obtain ⟨s', r'', heq, hsettled, hserved⟩ := run_settles track _
            (onCourse_of_createGroup hmade r') hnone hfuel
          dsimp only at heq
          rw [heq]
          refine hsettled.ended (.makes hmade hserved) (fun payloads => ?_) r''
          rw [hafter, hpast.failure_eq, hfailure]
          exact and_iff_right rfl
      | pending _ hlt =>
          rw [hwaits] at hlt
          exact absurd hlt (Nat.not_lt_zero _)
      | failed hrefuses =>
          obtain ⟨e', he', -⟩ := hrefuses
          rw [hcontent, hrun] at he'
          cases he'
  | @body g phase sent' _ hrun' hrests =>
      obtain ⟨-, rfl⟩ := Prod.mk.inj ((run_more hrun' bs).symm.trans hrun)
      obtain ⟨ws, hcourse⟩ := hrests bs
      have hready := hcourse.reader (hcontent.trans (content_block buffer bs).symm)
        (hfailure.trans (failure_block bs).symm)
      have hfuel := Nat.lt_add_right 2 (Nat.lt_succ_of_le
        (work_le ⟨buffer, block bs ++ [.finish]⟩ phase))
      obtain ⟨s', r', heq, hsettled, hserved⟩ := run_settles track _ hready hwaits hfuel
      have hpoll : poll track s ⟨buffer, block bs ++ [.finish]⟩ (.body header g phase) = _ := heq
      rw [hpoll]
      exact hsettled.ended (.fills hserved) (fun payloads => Iff.rfl) r'

/-- A receiver is left alone by the others as its group is. -/
theorem Stays.spared {s' : Store} (h : Stays header s total st buffer)
    (hspares : ∀ g phase, st = .body header g phase → Store.Spares g.group s s') :
    Stays header s' total st buffer := by
  cases h with
  | opening hshort => exact .opening hshort
  | body hrun hrests => exact .body hrun (hrests.spared (hspares _ _ rfl))

end Rounds

end Receiving

end LiveMedia.Transfer
