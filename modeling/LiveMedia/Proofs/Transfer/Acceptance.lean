import LiveMedia.Proofs.Live.Filling
import LiveMedia.Proofs.Message.Incremental
import LiveMedia.Proofs.Transfer.Grammar

/-!
# A receiver accepts the grammar and nothing else

`Receiving.receive` polls a receiver until it stops. Whatever the stream holds and however it arrives, it
stops, and behind a header that it could read the group that it made has ended: closed if what follows
the header is a body of the grammar, and aborted otherwise (`receives_exactly_bodies`).

The argument follows one predicate through the run. At the start it says of a list of payloads that the
rest of the stream is a body with these payloads. `OnCourse` is the invariant: the predicate can be read
off the payloads that are in the store and the items that are ahead in the stream, wherever the receiver
stands. A step keeps it (`stepBody_lands`), because the lemmas about single items are equivalences. So
when the receiver closes the group, the payloads in it are the only ones for which the predicate holds,
and when it gives up the predicate holds for none.
-/

namespace LiveMedia.Transfer

open LiveMedia.Wire LiveMedia.Message LiveMedia.Live LiveMedia.Stream

namespace Receiving

-- ── where a receiver stands ─────────────────────────────────────────

/-- The frame that is written in a phase. -/
def writing : ReceivePhase → Option FrameWriter
  | .payload frame _ => some frame
  | _ => none

/-- The bytes of the current payload that are in the store. -/
def part (s : Store) : ReceivePhase → Bytes
  | .payload frame _ => (s.frame frame.frame).payload
  | _ => []

/-- The current payload is the first of those to come. -/
def joined (part : Bytes) : List Bytes → List Bytes
  | [] => []
  | p :: ps => (part ++ p) :: ps

@[simp] theorem joined_nil (ps : List Bytes) : joined [] ps = ps := by
  cases ps with
  | nil => rfl
  | cons p ps => rfl

/-- The group will have these payloads: those of the frames that were closed, and those of what is
    ahead, if the stream ends behind it. -/
def Promises (flags : GroupFlags) (s : Store) (ws : List FrameWriter) (phase : ReceivePhase)
    (reader : Reader) (payloads : List Bytes) : Prop :=
  reader.failure? = none ∧
    ∃ ps, Ahead flags phase ps reader.content ∧
      payloads = s.payloads ws ++ joined (part s phase) ps

/-- Of two steps in a row one consumes a byte: a byte counts for two steps, and a phase in which nothing
    may be left to consume for one. -/
def work (reader : Reader) (phase : ReceivePhase) : Nat :=
  2 * reader.content.length + match phase with
    | .extension _ | .payload _ _ => 1
    | _ => 0

section Steps

variable {P : List Bytes → Prop} {origin : Store} {base : FrameId} {header : GroupHeader}
  {g : GroupWriter} {ws : List FrameWriter} {phase : ReceivePhase} {s : Store} {r r' : Reader}
  {measure patience : Nat}

variable (P origin base header g) in
/-- A receiver that fills the group `g` and has closed the frames `ws`: `P` holds for the payloads with
    which the group may still be complete, and nothing outside the group has changed since `origin`. -/
structure OnCourse (ws : List FrameWriter) (phase : ReceivePhase) (s : Store) (r : Reader) : Prop where
  filling : Store.Filling base s g ws (writing phase)
  confined : Store.Confined base g.group origin s
  /-- What is left of a payload is what the frame has room for. -/
  left_eq : ∀ frame left, phase = .payload frame left →
    (s.frame frame.frame).payload.length + left = frame.size
  promise : ∀ payloads, P payloads ↔ Promises header.flags s ws phase r payloads

variable (P origin base g) in
/-- The group has ended as `P` says. -/
structure Settled (s : Store) : Prop where
  confined : Store.Confined base g.group origin s
  ending : (∃ payloads, s.Complete g.group payloads ∧ ∀ other, P other ↔ other = payloads) ∨
    (s.Aborted g.group ∧ ∀ payloads, ¬ P payloads)

variable (P origin base header g) in
/-- Where a step may lead: on, with less work left, or into a wait, with fewer waits left, or to the
    end. -/
inductive Lands (measure patience : Nat) : Outcome → Prop where
  | go {ws : List FrameWriter} {phase : ReceivePhase} {s : Store} {r : Reader} :
      OnCourse P origin base header g ws phase s r → work r phase < measure → r.waits ≤ patience →
      Lands measure patience (.go (.body header g phase), s, r)
  | wait {ws : List FrameWriter} {phase : ReceivePhase} {s : Store} {r : Reader} :
      OnCourse P origin base header g ws phase s r → r.waits < patience →
      Lands measure patience (.wait (.body header g phase), s, r)
  | stop {s : Store} {r : Reader} :
      Settled P origin base g s → Lands measure patience (.stop (.ok header), s, r)

-- ── ways to stop ────────────────────────────────────────────────────

/-- The group is given up because no payloads complete it. -/
theorem OnCourse.giveUp (h : OnCourse P origin base header g ws phase s r)
    (hnone : ∀ payloads, ¬ Promises header.flags s ws phase r payloads) (e : TransportError) :
    Lands P origin base header g measure patience (giveUp s header g r' e) := by
  obtain ⟨haborted, hconfined⟩ := h.filling.abortGroup e
  refine .stop ⟨h.confined.trans hconfined, .inr ⟨haborted, ?_⟩⟩
  intro payloads hP
  exact hnone payloads ((h.promise payloads).mp hP)

/-- In the middle of a payload the frame is given up as well. -/
theorem OnCourse.giveUpFrame {frame : FrameWriter} {left : Nat}
    (h : OnCourse P origin base header g ws (.payload frame left) s r)
    (hnone : ∀ payloads, ¬ Promises header.flags s ws (.payload frame left) r payloads)
    (e : TransportError) :
    Lands P origin base header g measure patience (giveUpFrame s header g frame r' e) := by
  obtain ⟨haborted, hconfined⟩ := h.filling.abortFrame e
  refine .stop ⟨h.confined.trans hconfined, .inr ⟨haborted, ?_⟩⟩
  intro payloads hP
  exact hnone payloads ((h.promise payloads).mp hP)

/-- The group is complete because nothing is ahead. -/
theorem OnCourse.complete (h : OnCourse P origin base header g ws phase s r)
    (hphase : writing phase = none)
    (hlast : ∀ payloads, Promises header.flags s ws phase r payloads ↔ payloads = s.payloads ws) :
    Lands P origin base header g measure patience (complete s header g r') := by
  have hfilling := h.filling
  rw [hphase] at hfilling
  obtain ⟨s', hclose, hcomplete, hconfined⟩ := hfilling.closeGroup
  unfold Receiving.complete
  rw [hclose]
  refine .stop ⟨h.confined.trans hconfined, .inl ⟨_, hcomplete, ?_⟩⟩
  intro payloads
  rw [h.promise, hlast]

/-- A call that is pending loses nothing. -/
theorem OnCourse.wait (h : OnCourse P origin base header g ws phase s r) (hpast : r.Past [] r')
    (hlt : r'.waits < r.waits) :
    Lands P origin base header g measure r.waits (.wait (.body header g phase), s, r') := by
  refine .wait ⟨h.filling, h.confined, h.left_eq, ?_⟩ hlt
  intro payloads
  rw [h.promise, Promises, Promises, hpast.failure_eq, hpast.content_eq, List.nil_append]

/-- After a read the receiver goes on with what the read gave. -/
theorem OnCourse.proceed {α : Type} {gives : α → Reader → Prop} {refuses : TransportError → Prop}
    {answer : Attempt TransportError α × Reader} {next : α → Reader → Outcome}
    (h : OnCourse P origin base header g ws phase s r) (hanswer : r.Answers gives refuses answer)
    (hnext : ∀ a r', gives a r' → Lands P origin base header g measure r.waits (next a r'))
    (hnone : ∀ e, refuses e → ∀ payloads, ¬ Promises header.flags s ws phase r payloads) :
    Lands P origin base header g measure r.waits (proceed s header g phase answer next) := by
  cases hanswer with
  | value ha => exact hnext _ _ ha
  | pending hpast hlt => exact h.wait hpast hlt
  | failed he => exact h.giveUp (hnone _ he) _

-- ── between payloads ────────────────────────────────────────────────

/-- Between payloads the promise is about whole payloads. -/
theorem promises_iff {flags : GroupFlags} {payloads : List Bytes} (hphase : writing phase = none) :
    Promises flags s ws phase r payloads ↔ r.failure? = none ∧
      ∃ ps, Ahead flags phase ps r.content ∧ payloads = s.payloads ws ++ ps := by
  have hpart : part s phase = [] := by
    cases phase with
    | payload frame left => exact nomatch hphase
    | _ => rfl
  rw [Promises, hpart]
  simp only [joined_nil]

/-- An item outside payloads is read: what was ahead is what is still ahead. -/
theorem OnCourse.advance {front : Bytes} {phase' : ReceivePhase}
    (h : OnCourse P origin base header g ws phase s r) (hpast : r.Past front r')
    (hphase : writing phase = none) (hphase' : writing phase' = none)
    (hahead : ∀ ps, Ahead header.flags phase ps (front ++ r'.content) ↔
      Ahead header.flags phase' ps r'.content) :
    OnCourse P origin base header g ws phase' s r' := by
  have hfilling : Store.Filling base s g ws (writing phase') := by
    rw [hphase', ← hphase]
    exact h.filling
  refine ⟨hfilling, h.confined, ?_, ?_⟩
  · rintro frame left rfl
    exact nomatch hphase'
  · intro payloads
    rw [h.promise, promises_iff hphase, promises_iff hphase', hpast.failure_eq, hpast.content_eq]
    simp only [hahead]

/-- A number takes at least a byte, and that is worth two steps. -/
theorem work_lt {n : Nat} {front : Bytes} (hpast : r.Past front r') (hn : Spells n front)
    (phase phase' : ReceivePhase) : work r' phase' < work r phase := by
  have hpos : 0 < front.length := List.length_pos_iff.mpr hn.ne_nil
  have hlen := hpast.length_le
  unfold work
  split <;> split <;> omega

/-- A number is read and the phase changes. -/
theorem OnCourse.number {n : Nat} {phase' : ReceivePhase}
    (h : OnCourse P origin base header g ws phase s r) (hn : r.Decodes decodeCompact n r')
    (hphase : writing phase = none) (hphase' : writing phase' = none)
    (hahead : ∀ front ps rest, Spells n front →
      (Ahead header.flags phase ps (front ++ rest) ↔ Ahead header.flags phase' ps rest)) :
    Lands P origin base header g (work r phase) r.waits (.go (.body header g phase'), s, r') := by
  obtain ⟨front, hpast, hspells⟩ := hn
  have hnext := h.advance hpast hphase hphase' fun ps => hahead front ps _ hspells
  exact .go hnext (work_lt hpast hspells phase phase') hpast.waits_le

/-- A phase that reads a number lets nothing pass that is not one. -/
theorem no_promise_of_error {flags : GroupFlags} (hphase : ReadsNumber phase)
    (hobject : phase = .object → r.content ≠ []) {e : DecodeError}
    (he : (decodeCompact.run r.content).1 = .error e) (payloads : List Bytes) :
    ¬ Promises flags s ws phase r payloads := by
  rintro ⟨-, ps, hahead, -⟩
  obtain ⟨n, rest, hrun⟩ := hahead.number hphase hobject
  rw [hrun] at he
  exact nomatch he

/-- Behind an ID delta the receiver goes on if a number can be read and gives up if not. -/
theorem OnCourse.proceed_number {next : Nat → Reader → Outcome}
    (h : OnCourse P origin base header g ws phase s r) (hphase : ReadsNumber phase)
    (hobject : phase ≠ .object)
    (hnext : ∀ n r', r.Decodes decodeCompact n r' →
      Lands P origin base header g measure r.waits (next n r')) :
    Lands P origin base header g measure r.waits
      (Receiving.proceed s header g phase (r.decode decodeCompact) next) := by
  refine h.proceed (Reader.decode_answers Incremental.compact r) hnext ?_
  rintro e ⟨e', hrun, -⟩
  exact no_promise_of_error hphase (fun heq => absurd heq hobject) hrun

theorem object_lands (h : OnCourse P origin base header g ws .object s r) :
    Lands P origin base header g (work r .object) r.waits (stepBody s header g r .object) := by
  refine h.proceed (Reader.decodeMaybe_answers Incremental.compact r) ?_ ?_
  · intro found r' hfound
    cases found with
    | some n =>
        have hphase : writing (behindDelta header.flags) = none := by
          unfold behindDelta
          split <;> rfl
        exact h.number hfound rfl hphase fun front ps rest hspells => ahead_object hspells
    | none =>
        obtain ⟨hcontent, hfailure⟩ := hfound
        -- the stream ends between objects
        have hlast : ∀ payloads, Promises header.flags s ws .object r payloads ↔
            header.flags.hasEnd = true ∧ payloads = s.payloads ws := by
          intro payloads
          rw [promises_iff rfl, hcontent]
          simp only [ahead_object_nil, hfailure]
          constructor
          · rintro ⟨-, ps, ⟨hend, rfl⟩, rfl⟩
            exact ⟨hend, List.append_nil _⟩
          · rintro ⟨hend, rfl⟩
            exact ⟨trivial, [], ⟨hend, rfl⟩, (List.append_nil _).symm⟩
        show Lands P origin base header g _ _ (if header.flags.hasEnd = true
          then Receiving.complete s header g r' else Receiving.giveUp s header g r' .dropped)
        split
        · next hend =>
          refine h.complete rfl fun payloads => ?_
          rw [hlast]
          exact and_iff_right hend
        · next hend =>
          refine h.giveUp (fun payloads hpromise => ?_) _
          exact hend ((hlast payloads).mp hpromise).1
  · rintro e ⟨hend, herror⟩ payloads hpromise
    by_cases hcontent : r.content = []
    · exact hend ⟨hcontent, hpromise.1⟩
    · obtain ⟨e', he'⟩ := herror hcontent
      have hphase : ReadsNumber .object := trivial
      exact no_promise_of_error hphase (fun _ => hcontent) he' payloads hpromise

theorem extensionLength_lands (h : OnCourse P origin base header g ws .extensionLength s r) :
    Lands P origin base header g (work r .extensionLength) r.waits
      (stepBody s header g r .extensionLength) := by
  refine h.proceed_number trivial (fun heq => nomatch heq) ?_
  intro n r' hn
  exact h.number hn rfl rfl fun front ps rest hspells => ahead_extensionLength hspells

theorem extension_lands {left : Nat} (h : OnCourse P origin base header g ws (.extension left) s r) :
    Lands P origin base header g (work r (.extension left)) r.waits
      (stepBody s header g r (.extension left)) := by
  have hskips := r.skip_skips left
  unfold stepBody
  dsimp only
  cases hx : r.skip left with
  | mk attempt rest =>
      rw [hx] at hskips
      cases hskips with
      | @done front left' r' hpast hlen =>
          subst hlen
          have hnext : OnCourse P origin base header g ws .size s r' :=
            h.advance hpast rfl rfl fun ps =>
              (ahead_extension_add (n := 0)).trans ahead_extension_zero
          refine .go hnext ?_ hpast.waits_le
          have hlen := hpast.length_le
          unfold work
          dsimp only
          omega
      | @pending front left' r' hpast hlen hlt =>
          subst hlen
          exact .wait (h.advance hpast rfl rfl fun ps => ahead_extension_add) hlt
      | @failed e left' r' hlt =>
          refine h.giveUp (fun payloads hpromise => ?_) e
          obtain ⟨-, ps, hahead, -⟩ := hpromise
          obtain ⟨extensions, rest, hlen, hcontent, -⟩ := ahead_extension_iff.mp hahead
          rw [hcontent, List.length_append] at hlt
          omega

-- ── frames ──────────────────────────────────────────────────────────

/-- A size that is not zero begins a frame. -/
theorem begin_lands {size : Nat} (h : OnCourse P origin base header g ws .size s r)
    (hn : r.Decodes decodeCompact size r') (hsize : size ≠ 0) :
    Lands P origin base header g (work r .size) r.waits
      (match s.createFrame g size with
        | .ok (frame, store) => (.go (.body header g (.payload frame size)), store, r')
        | .error e => Receiving.giveUp s header g r' e) := by
  obtain ⟨frame, s', hcreate, hfilling, hframe, hempty, hpayloads, hconfined⟩ :=
    h.filling.createFrame size
  obtain ⟨front, hpast, hspells⟩ := hn
  rw [hcreate]
  refine .go ⟨hfilling, h.confined.trans hconfined, ?_, ?_⟩
    (work_lt hpast hspells .size (.payload frame size)) hpast.waits_le
  · intro frame' left heq
    obtain ⟨rfl, rfl⟩ := ReceivePhase.payload.inj heq
    rw [hempty, hframe]
    exact Nat.zero_add _
  · intro payloads
    have hpart : part s' (.payload frame size) = [] := hempty
    have hahead : ∀ ps, Ahead header.flags .size ps (front ++ r'.content) ↔
        Ahead header.flags (.payload frame size) ps r'.content := fun ps => ahead_size hspells hsize
    rw [h.promise, promises_iff rfl, Promises, hpart, hpayloads, hpast.failure_eq, hpast.content_eq]
    simp only [hahead, joined_nil]

theorem size_lands (h : OnCourse P origin base header g ws .size s r) :
    Lands P origin base header g (work r .size) r.waits (stepBody s header g r .size) := by
  refine h.proceed_number trivial (fun heq => nomatch heq) ?_
  intro size r' hn
  show Lands P origin base header g _ _ (if size = 0 then _ else _)
  split
  · next hzero =>
    subst hzero
    exact h.number hn rfl rfl fun front ps rest hspells => ahead_size_zero hspells
  · next hne => exact begin_lands h hn hne

/-- The status of an empty object makes an empty frame. -/
theorem empty_lands (h : OnCourse P origin base header g ws .status s r)
    (hn : r.Decodes decodeCompact statusNormal r') :
    Lands P origin base header g (work r .status) r.waits
      (match s.writeFrame g [] with
        | .ok store => (.go (.body header g .object), store, r')
        | .error e => Receiving.giveUp s header g r' e) := by
  obtain ⟨c, s', hwrite, hfilling, hpayloads, hconfined⟩ := h.filling.writeFrame []
  obtain ⟨front, hpast, hspells⟩ := hn
  rw [hwrite]
  refine .go ⟨hfilling, h.confined.trans hconfined, (fun _ _ heq => nomatch heq), ?_⟩
    (work_lt hpast hspells .status .object) hpast.waits_le
  intro payloads
  rw [h.promise, promises_iff rfl, promises_iff rfl, hpayloads, hpast.failure_eq, hpast.content_eq]
  refine and_congr_right fun _ => ?_
  constructor
  · rintro ⟨ps, hahead, rfl⟩
    rcases (ahead_status hspells).mp hahead with ⟨-, ps', rfl, hnext⟩ | ⟨hend, -⟩
    · exact ⟨ps', hnext, (List.append_assoc (s.payloads ws) [[]] ps').symm⟩
    · exact nomatch hend
  · rintro ⟨ps', hnext, rfl⟩
    exact ⟨[] :: ps', .normal hspells hnext, List.append_assoc (s.payloads ws) [[]] ps'⟩

theorem status_lands (h : OnCourse P origin base header g ws .status s r) :
    Lands P origin base header g (work r .status) r.waits (stepBody s header g r .status) := by
  refine h.proceed_number trivial (fun heq => nomatch heq) ?_
  intro status r' hn
  show Lands P origin base header g _ _ (if status = statusNormal then _ else
    if status = statusEndOfGroup ∧ header.flags.hasEnd = false then _ else _)
  split
  · next hnormal =>
    subst hnormal
    exact empty_lands h hn
  · next hnormal =>
    split
    · next hlast =>
      refine h.number hn rfl rfl fun front ps rest hspells => ?_
      rw [ahead_status hspells]
      constructor
      · rintro (⟨heq, -⟩ | ⟨-, -, hfinal⟩)
        · exact absurd heq hnormal
        · exact hfinal
      · exact fun hfinal => .inr ⟨hlast.1, hlast.2, hfinal⟩
    · next hlast =>
      -- neither a frame nor an end
      obtain ⟨front, hpast, hspells⟩ := hn
      refine h.giveUp (fun payloads hpromise => ?_) _
      obtain ⟨-, ps, hahead, -⟩ := hpromise
      rw [hpast.content_eq] at hahead
      rcases (ahead_status hspells).mp hahead with ⟨heq, -⟩ | ⟨heq, hend, -⟩
      · exact hnormal heq
      · exact hlast ⟨heq, hend⟩

/-- A frame of which nothing is left to come is closed. -/
theorem close_lands {frame : FrameWriter}
    (h : OnCourse P origin base header g ws (.payload frame 0) s r) :
    Lands P origin base header g (work r (.payload frame 0)) r.waits
      (match s.closeFrame frame with
        | .ok store => (.go (.body header g .object), store, r)
        | .error e => Receiving.giveUpFrame s header g frame r e) := by
  obtain ⟨s', hclose, hfilling, hpayloads, hconfined⟩ :=
    Store.Filling.closeFrame (c := frame) h.filling (h.left_eq frame 0 rfl)
  rw [hclose]
  refine .go ⟨hfilling, h.confined.trans hconfined, (fun _ _ heq => nomatch heq), ?_⟩
    (Nat.lt_succ_self _) (Nat.le_refl _)
  intro payloads
  rw [h.promise, Promises, promises_iff rfl, hpayloads]
  refine and_congr_right fun _ => ?_
  constructor
  · rintro ⟨ps, hahead, rfl⟩
    obtain ⟨p, rest, ps', hlen, hcontent, rfl, hnext⟩ := ahead_payload_iff.mp hahead
    obtain rfl := List.length_eq_zero_iff.mp hlen
    refine ⟨ps', ?_, ?_⟩
    · rw [hcontent]
      exact hnext
    · show _ ++ (_ ++ []) :: ps' = _
      rw [List.append_nil, List.append_assoc]
      rfl
  · rintro ⟨ps', hnext, rfl⟩
    refine ⟨[] :: ps', ahead_payload_iff.mpr ⟨[], _, ps', rfl, rfl, rfl, hnext⟩, ?_⟩
    show _ = _ ++ (_ ++ []) :: ps'
    rw [List.append_nil, List.append_assoc]
    rfl

/-- A chunk of a payload is written. -/
theorem chunk_lands {frame : FrameWriter} {left : Nat} {chunk : Bytes}
    (h : OnCourse P origin base header g ws (.payload frame left) s r) (hpast : r.Past chunk r')
    (hpos : 0 < chunk.length) (hle : chunk.length ≤ left) :
    Lands P origin base header g (work r (.payload frame left)) r.waits
      (match s.writeChunk frame chunk with
        | .ok store => (.go (.body header g (.payload frame (left - chunk.length))), store, r')
        | .error e => Receiving.giveUpFrame s header g frame r' e) := by
  have hroom := h.left_eq frame left rfl
  have hfits : (s.frame frame.frame).payload.length + chunk.length ≤ frame.size := by omega
  obtain ⟨s', hwrite, hfilling, hpart, hpayloads, hconfined⟩ :=
    Store.Filling.writeChunk (c := frame) h.filling hfits
  rw [hwrite]
  refine .go ⟨hfilling, h.confined.trans hconfined, ?_, ?_⟩ ?_ hpast.waits_le
  · intro frame' left' heq
    obtain ⟨rfl, rfl⟩ := ReceivePhase.payload.inj heq
    rw [hpart, List.length_append]
    omega
  · intro payloads
    have hpart' : part s' (.payload frame (left - chunk.length)) =
        part s (.payload frame left) ++ chunk := hpart
    rw [h.promise, Promises, Promises, hpart', hpayloads, hpast.failure_eq, hpast.content_eq]
    refine and_congr_right fun _ => ?_
    constructor
    · rintro ⟨ps, hahead, rfl⟩
      obtain ⟨p, rest, ps', hlen, hcontent, rfl, hnext⟩ := ahead_payload_iff.mp hahead
      obtain ⟨more, rfl⟩ : chunk <+: p := by
        refine List.prefix_of_prefix_length_le (List.prefix_append chunk r'.content) ?_ (hlen ▸ hle)
        exact hcontent ▸ List.prefix_append p rest
      rw [List.append_assoc] at hcontent
      rw [List.length_append] at hlen
      refine ⟨more :: ps', ahead_payload_iff.mpr ⟨more, rest, ps', ?_, ?_, rfl, hnext⟩, ?_⟩
      · omega
      · exact List.append_cancel_left hcontent
      · show _ ++ (_ ++ (chunk ++ more)) :: ps' = _ ++ (_ ++ chunk ++ more) :: ps'
        rw [List.append_assoc]
    · rintro ⟨ps, hahead, rfl⟩
      obtain ⟨more, rest, ps', hlen, hcontent, rfl, hnext⟩ := ahead_payload_iff.mp hahead
      refine ⟨(chunk ++ more) :: ps', ahead_payload_iff.mpr
        ⟨chunk ++ more, rest, ps', ?_, ?_, rfl, hnext⟩, ?_⟩
      · rw [List.length_append]
        omega
      · rw [hcontent, List.append_assoc]
      · show _ ++ (_ ++ chunk ++ more) :: ps' = _ ++ (_ ++ (chunk ++ more)) :: ps'
        rw [List.append_assoc]
  · have hlen := hpast.length_le
    unfold work
    dsimp only
    omega

theorem payload_lands {frame : FrameWriter} {left : Nat}
    (h : OnCourse P origin base header g ws (.payload frame left) s r) :
    Lands P origin base header g (work r (.payload frame left)) r.waits
      (stepBody s header g r (.payload frame left)) := by
  have hnone : left ≠ 0 → r.content = [] →
      ∀ payloads, ¬ Promises header.flags s ws (.payload frame left) r payloads := by
    rintro hleft hcontent payloads ⟨-, ps, hahead, -⟩
    obtain ⟨p, rest, ps', hlen, hnil, -⟩ := ahead_payload_iff.mp hahead
    rw [hcontent] at hnil
    obtain ⟨rfl, -⟩ := List.append_eq_nil_iff.mp hnil.symm
    exact hleft hlen.symm
  show Lands P origin base header g _ _ (if left = 0 then _ else _)
  split
  · next hzero =>
    subst hzero
    exact close_lands h
  · next hne =>
    have hread := r.read_answers (Nat.pos_of_ne_zero hne)
    cases hx : r.read left with
    | mk attempt r' =>
        rw [hx] at hread
        cases hread with
        | @value found _ hfound =>
            cases found with
            | some chunk =>
                obtain ⟨hpast, hpos, hle⟩ := hfound
                exact chunk_lands h hpast hpos hle
            | none => exact h.giveUpFrame (hnone hne hfound) .wrongSize
        | pending hpast hlt => exact h.wait hpast hlt
        | failed hend => exact h.giveUpFrame (hnone hne hend) _

theorem final_lands (h : OnCourse P origin base header g ws .final s r) :
    Lands P origin base header g (work r .final) r.waits (stepBody s header g r .final) := by
  have hlast : ∀ payloads, Promises header.flags s ws .final r payloads ↔
      r.AtEnd ∧ payloads = s.payloads ws := by
    intro payloads
    rw [promises_iff rfl, Reader.AtEnd]
    simp only [ahead_final]
    constructor
    · rintro ⟨hfailure, ps, ⟨rfl, hcontent⟩, rfl⟩
      exact ⟨⟨hcontent, hfailure⟩, List.append_nil _⟩
    · rintro ⟨⟨hcontent, hfailure⟩, rfl⟩
      exact ⟨hfailure, [], ⟨rfl, hcontent⟩, (List.append_nil _).symm⟩
  refine h.proceed r.closed_answers ?_ ?_
  · intro _ r' hend
    refine h.complete rfl fun payloads => ?_
    rw [hlast]
    exact and_iff_right hend
  · intro e hend payloads hpromise
    exact hend ((hlast payloads).mp hpromise).1

/-- **A step stays on course or settles the group.** -/
theorem stepBody_lands (h : OnCourse P origin base header g ws phase s r) :
    Lands P origin base header g (work r phase) r.waits (stepBody s header g r phase) := by
  cases phase with
  | object => exact object_lands h
  | extensionLength => exact extensionLength_lands h
  | extension left => exact extension_lands h
  | size => exact size_lands h
  | status => exact status_lands h
  | payload frame left => exact payload_lands h
  | final => exact final_lands h

-- ── whole runs ──────────────────────────────────────────────────────

theorem Lands.weaken {more : Nat} {x : Outcome}
    (h : Lands P origin base header g measure patience x) (hle : patience ≤ more) :
    Lands P origin base header g measure more x := by
  cases h with
  | go h hlt hwaits => exact .go h hlt (Nat.le_trans hwaits hle)
  | wait h hlt => exact .wait h (Nat.lt_of_lt_of_le hlt hle)
  | stop h => exact .stop h

/-- Fuel for all the work that is left takes a receiver to a wait or to the end. -/
theorem run_lands (track : TrackWriter) (fuel : Nat) (h : OnCourse P origin base header g ws phase s r)
    (hfuel : work r phase < fuel) :
    Lands P origin base header g 0 r.waits (run track fuel s r (.body header g phase)) := by
  induction fuel generalizing ws phase s r with
  | zero => exact absurd hfuel (Nat.not_lt_zero _)
  | succ fuel ih =>
      have hstep := stepBody_lands h
      unfold run step
      dsimp only
      generalize stepBody s header g r phase = x at hstep
      cases hstep with
      | go h hlt hwaits => exact (ih h (by omega)).weaken hwaits
      | wait h hlt => exact .wait h hlt
      | stop h => exact .stop h

/-- The fuel of a poll is enough. -/
theorem work_le (r : Reader) (phase : ReceivePhase) :
    work r phase ≤ 2 * (r.buffer.length + r.source.volume) + 1 := by
  have hsource := r.source.length_bytes_le
  have hcontent : r.content.length = r.buffer.length + r.source.bytes.length := List.length_append
  unfold work
  split <;> omega

end Steps

/-- A receiver that waits is polled again until it stops, but so many times at most. -/
def resume (track : TrackWriter) : Nat → Outcome → Outcome
  | polls + 1, (.wait next, store, reader) => resume track polls (poll track store reader next)
  | _, outcome => outcome

/-- Receives a group: the receiver is polled, and again for each time that the stream makes it wait. -/
def receive (track : TrackWriter) (store : Store) (reader : Reader) : Outcome :=
  resume track reader.waits (poll track store reader .opening)

section Runs

variable (track : TrackWriter) {store : Store} {r : Reader}

/-- As many polls as there are waits are enough to settle a group that was begun. -/
theorem resume_settles {P : List Bytes → Prop} {origin : Store} {base : FrameId} {header : GroupHeader}
    {g : GroupWriter} {polls : Nat} {x : Outcome} (h : Lands P origin base header g 0 polls x) :
    ∃ s' r', resume track polls x = (.stop (.ok header), s', r') ∧ Settled P origin base g s' := by
  induction polls generalizing x with
  | zero =>
      cases h with
      | go _ hlt _ => exact absurd hlt (Nat.not_lt_zero _)
      | wait _ hlt => exact absurd hlt (Nat.not_lt_zero _)
      | stop h => exact ⟨_, _, rfl, h⟩
  | succ polls ih =>
      cases h with
      | go _ hlt _ => exact absurd hlt (Nat.not_lt_zero _)
      | @wait ws phase s r h hlt =>
          have hpoll : Lands P origin base header g 0 r.waits
              (poll track s r (.body header g phase)) :=
            run_lands track _ h (Nat.lt_add_right 2 (Nat.lt_succ_of_le (work_le r phase)))
          exact ih (hpoll.weaken (Nat.le_of_lt_succ hlt))
      | stop h => exact ⟨_, _, rfl, h⟩

variable (store) in
/-- What receiving from a reader comes to, in terms of the header and what is behind it. -/
inductive Receives (r : Reader) : Outcome → Prop where
  | unread {e : TransportError} {r' : Reader} :
      r.Refuses GroupHeader.decode e → Receives r (.stop (.error e), store, r')
  | refused {header : GroupHeader} {behind r' : Reader} {e : TransportError} :
      r.Decodes GroupHeader.decode header behind →
      store.createGroup track header.groupId = .error e → Receives r (.stop (.error e), store, r')
  | received {header : GroupHeader} {behind r' : Reader} {g : GroupWriter} {opened s' : Store} :
      r.Decodes GroupHeader.decode header behind →
      store.createGroup track header.groupId = .ok (g, opened) →
      Settled (fun payloads => behind.failure? = none ∧ Body header.flags payloads behind.content)
        opened store.frames.size g s' →
      Receives r (.stop (.ok header), s', r')

variable {track}

/-- A stream that had to be waited for is received as if it had been there at once. -/
theorem Receives.earlier {r' : Reader} {x : Outcome} (h : Receives track store r' x)
    (hpast : r.Past [] r') : Receives track store r x := by
  have hdecodes : ∀ {header behind}, r'.Decodes GroupHeader.decode header behind →
      r.Decodes GroupHeader.decode header behind := by
    rintro header behind ⟨front, hpast', hfront⟩
    exact ⟨front, hpast.trans hpast', hfront⟩
  cases h with
  | unread h =>
      obtain ⟨e, he, rfl⟩ := h
      refine .unread ⟨e, ?_, ?_⟩
      · rw [hpast.content_eq]
        exact he
      · unfold Reader.refusal
        rw [hpast.failure_eq]
  | refused h herror => exact .refused (hdecodes h) herror
  | received h hok hsettled => exact .received (hdecodes h) hok hsettled

/-- The receiver is on course once it has made its group. -/
theorem onCourse_of_createGroup {header : GroupHeader} {g : GroupWriter} {opened : Store}
    (h : store.createGroup track header.groupId = .ok (g, opened)) (r : Reader) :
    OnCourse (fun payloads => r.failure? = none ∧ Body header.flags payloads r.content)
      opened store.frames.size header g [] .object opened r := by
  refine ⟨.fresh h, .refl _, (fun _ _ heq => nomatch heq), ?_⟩
  intro payloads
  rw [promises_iff rfl]
  simp only [ahead_object_iff]
  refine and_congr_right fun _ => ⟨fun hbody => ⟨payloads, hbody, rfl⟩, ?_⟩
  rintro ⟨ps, hbody, rfl⟩
  exact hbody

theorem resume_stop (polls : Nat) (result : Except TransportError GroupHeader) (s : Store)
    (r : Reader) : resume track polls (.stop result, s, r) = (.stop result, s, r) := by
  cases polls with
  | zero => rfl
  | succ polls => rfl

variable (track store)

/-- The first poll waits for the header, or it has one and the rest follows. -/
theorem poll_opening {polls : Nat} (hpolls : r.waits ≤ polls) :
    (∃ r', poll track store r .opening = (.wait .opening, store, r') ∧ r.Past [] r' ∧
      r'.waits < r.waits) ∨
      Receives track store r (resume track polls (poll track store r .opening)) := by
  have hanswers := Reader.decode_answers GroupHeader.incremental r
  have hpoll : poll track store r .opening =
      run track (2 * (r.buffer.length + r.source.volume) + 3 + 1) store r .opening := rfl
  rw [hpoll, run, step]
  cases hx : r.decode GroupHeader.decode with
  | mk attempt behind =>
      rw [hx] at hanswers
      cases hanswers with
      | pending hpast hlt => exact .inl ⟨behind, rfl, hpast, hlt⟩
      | failed he =>
          right
          dsimp only
          rw [resume_stop]
          exact .unread he
      | @value header _ hheader =>
          right
          dsimp only
          cases hcreate : store.createGroup track header.groupId with
          | error e =>
              dsimp only
              rw [resume_stop]
              exact .refused hheader hcreate
          | ok made =>
              obtain ⟨g, opened⟩ := made
              obtain ⟨front, hpast, hfront⟩ := id hheader
              have hfuel : work behind .object < 2 * (r.buffer.length + r.source.volume) + 3 := by
                have hlen := hpast.length_le
                have hwork := work_le r .object
                unfold work at hwork ⊢
                dsimp only at hwork ⊢
                omega
              have hwaits : behind.waits ≤ polls := Nat.le_trans hpast.waits_le hpolls
              have hlands := run_lands track _ (onCourse_of_createGroup hcreate behind) hfuel
              obtain ⟨s', r', hstop, hsettled⟩ := resume_settles track (hlands.weaken hwaits)
              dsimp only
              rw [hstop]
              exact .received hheader hcreate hsettled

/-- A receiver that has read nothing is polled until it stops. -/
theorem resume_receives {polls : Nat} (hpolls : r.waits ≤ polls) :
    Receives track store r (resume track polls (poll track store r .opening)) := by
  induction polls generalizing r with
  | zero =>
      rcases poll_opening track store hpolls with ⟨r', -, -, hlt⟩ | h
      · omega
      · exact h
  | succ polls ih =>
      rcases poll_opening track store hpolls with ⟨r', hwait, hpast, hlt⟩ | h
      · rw [hwait]
        have hagain : r'.waits ≤ polls := Nat.le_of_lt_succ (Nat.lt_of_lt_of_le hlt hpolls)
        exact (ih hagain).earlier hpast
      · exact h

-- ── the result ──────────────────────────────────────────────────────

/-- The store behind a receiver that made a group for a header. Nothing but the new group, its frames and
    the list of groups on the track has changed, the group has ended, and it is complete exactly with the
    payloads that `P` holds for. -/
structure Received (header : GroupHeader) (P : List Bytes → Prop) (s' : Store) : Prop where
  /-- One group is new. -/
  groups_size : s'.groups.size = store.groups.size + 1
  groups : ∀ i ≠ store.groups.size, s'.group i = store.group i
  frames : ∀ i < store.frames.size, s'.frame i = store.frame i
  /-- The new group is on the track under the number of the header, and the oldest groups may have left
      the window. -/
  track_eq : s'.track track.track = { store.track track.track with
    retained := Track.latest
      ((store.track track.track).retained ++ [⟨store.groups.size, header.groupId⟩])
    largest := some (max header.groupId ((store.track track.track).largest.getD header.groupId)) }
  tracks : ∀ i ≠ track.track, s'.track i = store.track i
  broadcasts : s'.broadcasts = store.broadcasts
  /-- The new group is closed with all its frames, or it is aborted and all its frames with it. -/
  ended : (∃ payloads, s'.Complete store.groups.size payloads) ∨ s'.Aborted store.groups.size
  complete_iff : ∀ payloads, s'.Complete store.groups.size payloads ↔ P payloads

variable {track store}

/-- What was settled in the new group, seen from the store before it. -/
theorem Settled.received {P : List Bytes → Prop} {header : GroupHeader} {g : GroupWriter}
    {opened s' : Store} (h : Settled P opened store.frames.size g s')
    (hcreate : store.createGroup track header.groupId = .ok (g, opened))
    (htrack : track.track < store.tracks.size) : Received track store header P s' := by
  obtain ⟨hconfined, hending⟩ := h
  obtain ⟨rfl, rfl⟩ := Store.createGroup_eq_ok hcreate
  refine ⟨?_, ?_, ?_, ?_, ?_, hconfined.broadcasts, ?_, ?_⟩
  · rw [hconfined.groups_size]
    exact store.size_newGroup header.groupId
  · intro i hi
    rw [hconfined.groups i hi]
    exact store.group_newGroup header.groupId i
  · exact hconfined.frames
  · rw [Store.track, hconfined.tracks]
    exact Store.track_setTrack_self (store.newGroup header.groupId).2 htrack _
  · intro i hi
    rw [Store.track, hconfined.tracks]
    exact Store.track_setTrack_of_ne (store.newGroup header.groupId).2 hi _
  · rcases hending with ⟨payloads, hcomplete, -⟩ | ⟨haborted, -⟩
    · exact .inl ⟨payloads, hcomplete⟩
    · exact .inr haborted
  · intro payloads
    rcases hending with ⟨other, hcomplete, honly⟩ | ⟨⟨e, haborted, -⟩, hnone⟩
    · rw [honly]
      constructor
      · intro h
        exact h.payloads_eq.symm.trans hcomplete.payloads_eq
      · rintro rfl
        exact hcomplete
    · constructor
      · intro h
        cases haborted.symm.trans h.group
      · intro h
        exact absurd h (hnone payloads)

/-- If `P` holds for some payloads, then for no others. -/
theorem Received.only {P : List Bytes → Prop} {header : GroupHeader} {s' : Store}
    {payloads : List Bytes} (h : Received track store header P s') (hP : P payloads) :
    Received track store header (fun other => other = payloads) s' := by
  refine ⟨h.groups_size, h.groups, h.frames, h.track_eq, h.tracks, h.broadcasts, h.ended, ?_⟩
  have hcomplete := (h.complete_iff payloads).mpr hP
  intro other
  constructor
  · intro hother
    exact hother.payloads_eq.symm.trans hcomplete.payloads_eq
  · rintro rfl
    exact hcomplete

theorem receive_receives (track : TrackWriter) (store : Store) (r : Reader) :
    Receives track store r (receive track store r) := resume_receives track store (Nat.le_refl _)

/-- A header that cannot be decoded. -/
theorem receive_unread (track : TrackWriter) (store : Store) {r : Reader} {e : DecodeError}
    (hrun : (GroupHeader.decode.run r.content).1 = .error e) :
    ∃ r', receive track store r = (.stop (.error (r.refusal e)), store, r') := by
  have h := receive_receives track store r
  generalize receive track store r = x at h
  have hread : ∀ {header behind}, ¬ r.Decodes GroupHeader.decode header behind := by
    intro header behind hdecodes
    rw [hdecodes.run_eq GroupHeader.incremental] at hrun
    exact nomatch hrun
  cases h with
  | @unread _ r' h =>
      obtain ⟨e', he', rfl⟩ := h
      obtain rfl := Except.error.inj (hrun.symm.trans he')
      exact ⟨r', rfl⟩
  | refused h _ => exact absurd h hread
  | received h _ _ => exact absurd h hread

section Header

variable {header header' : GroupHeader} {body : Bytes}

/-- A stream has one header. -/
theorem decodes_unique {behind : Reader} (hrun : GroupHeader.decode.run r.content = (.ok header, body))
    (h : r.Decodes GroupHeader.decode header' behind) : header' = header ∧ behind.content = body := by
  obtain ⟨hheader, hbody⟩ := Prod.mk.inj ((h.run_eq GroupHeader.incremental).symm.trans hrun)
  exact ⟨Except.ok.inj hheader, hbody⟩

theorem not_refuses (hrun : GroupHeader.decode.run r.content = (.ok header, body))
    (e : TransportError) : ¬ r.Refuses GroupHeader.decode e := by
  rintro ⟨e', he', -⟩
  rw [hrun] at he'
  exact nomatch he'

/-- A header for a group that cannot be made. -/
theorem receive_refused (hrun : GroupHeader.decode.run r.content = (.ok header, body))
    {e : TransportError} (hcreate : store.createGroup track header.groupId = .error e) :
    ∃ r', receive track store r = (.stop (.error e), store, r') := by
  have h := receive_receives track store r
  generalize receive track store r = x at h
  cases h with
  | unread h => exact absurd h (not_refuses hrun _)
  | @refused _ _ r' _ h herror =>
      obtain ⟨rfl, -⟩ := decodes_unique hrun h
      obtain rfl := Except.error.inj (hcreate.symm.trans herror)
      exact ⟨r', rfl⟩
  | received h hok _ =>
      obtain ⟨rfl, -⟩ := decodes_unique hrun h
      exact nomatch hcreate.symm.trans hok

/-- A header for a group that can be made. -/
theorem receive_received (htrack : track.track < store.tracks.size)
    (hrun : GroupHeader.decode.run r.content = (.ok header, body)) {made : GroupWriter × Store}
    (hcreate : store.createGroup track header.groupId = .ok made) :
    ∃ s' r', receive track store r = (.stop (.ok header), s', r') ∧
      Received track store header
        (fun payloads => r.failure? = none ∧ Body header.flags payloads body) s' := by
  have h := receive_receives track store r
  generalize receive track store r = x at h
  cases h with
  | unread h => exact absurd h (not_refuses hrun _)
  | refused h herror =>
      obtain ⟨rfl, -⟩ := decodes_unique hrun h
      exact nomatch hcreate.symm.trans herror
  | @received _ behind r' g opened s' h hok hsettled =>
      obtain ⟨rfl, rfl⟩ := decodes_unique hrun h
      obtain ⟨front, hpast, -⟩ := h
      rw [← hpast.failure_eq]
      exact ⟨s', r', rfl, hsettled.received hok htrack⟩

end Header

/-- **A receiver accepts exactly the group streams.** For every stream, however it arrives and whether it
    ends or fails, and for every track:

    * a header that cannot be read or decoded is an error and the store is as it was;
    * so is a group that cannot be made;
    * otherwise the answer is the header, one group was made and nothing else was touched, and the group
      has ended. It is complete with given payloads if and only if the stream ends and what is behind the
      header is a body with these payloads. -/
theorem receives_exactly_bodies (track : TrackWriter) (store : Store) (r : Reader)
    (htrack : track.track < store.tracks.size) :
    (∀ e, (GroupHeader.decode.run r.content).1 = .error e →
      ∃ r', receive track store r = (.stop (.error (r.refusal e)), store, r')) ∧
    (∀ header body, GroupHeader.decode.run r.content = (.ok header, body) →
      (∀ e, store.createGroup track header.groupId = .error e →
        ∃ r', receive track store r = (.stop (.error e), store, r')) ∧
      (∀ made, store.createGroup track header.groupId = .ok made →
        ∃ s' r', receive track store r = (.stop (.ok header), s', r') ∧
          Received track store header
            (fun payloads => r.failure? = none ∧ Body header.flags payloads body) s')) := by
  refine ⟨?_, ?_⟩
  · intro e hrun
    exact receive_unread track store hrun
  · intro header body hrun
    refine ⟨?_, ?_⟩
    · intro e hcreate
      exact receive_refused hrun hcreate
    · intro made hcreate
      exact receive_received htrack hrun hcreate

/-- Two objects, the second of them empty, that arrive in three blocks with a wait in the first payload. -/
theorem receives_exactly_bodies_threeBlocks :
    let made := Store.empty.newTrack ⟨"audio", 0⟩
    made.1.track < made.2.tracks.size ∧
      ∃ s' r', receive made.1 made.2
          ⟨[24], [.data [0, 7, 0, 0], .data [2, 65], .wait, .data [66, 0, 0, 0], .finish]⟩ =
        (.stop (.ok ⟨⟨false, false, false, true⟩, 0, 7, 0, 0⟩), s', r') ∧
        s'.Complete 0 [[65, 66], []] ∧ ¬ s'.Complete 0 [[65], [66]] := by
  refine ⟨Nat.zero_lt_one, ?_⟩
  have hbody : Body ⟨false, false, false, true⟩ [[65, 66], []] [0, 2, 65, 66, 0, 0, 0] := by
    have hfirst : Object ⟨false, false, false, true⟩ [65, 66] ([0] ++ ([2] ++ [65, 66])) :=
      .full (.plain rfl (rfl : Spells 0 [0])) (List.cons_ne_nil _ _) rfl
    have hsecond : Object ⟨false, false, false, true⟩ [] ([0] ++ ([0] ++ [0])) :=
      .empty (.plain rfl (rfl : Spells 0 [0])) rfl rfl
    exact .object hfirst (.object hsecond (.terminator (.implicit rfl)))
  obtain ⟨s', r', hreceive, hreceived⟩ := ((receives_exactly_bodies
    ⟨0, ⟨"audio", 0⟩⟩ (Store.empty.newTrack ⟨"audio", 0⟩).2
    ⟨[24], [.data [0, 7, 0, 0], .data [2, 65], .wait, .data [66, 0, 0, 0], .finish]⟩
    Nat.zero_lt_one).2 _ _ rfl).2 _ rfl
  have hcomplete := (hreceived.complete_iff _).mpr ⟨rfl, hbody⟩
  refine ⟨s', r', hreceive, hcomplete, ?_⟩
  intro h
  exact absurd (h.payloads_eq.symm.trans hcomplete.payloads_eq) (by decide)

end Runs

end Receiving

end LiveMedia.Transfer
