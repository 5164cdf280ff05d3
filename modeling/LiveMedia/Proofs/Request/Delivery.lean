import LiveMedia.Proofs.Request.Reception
import LiveMedia.Proofs.Stream.Sink

/-!
# A control channel delivers what was sent

Messages are sent, and bytes of other envelopes put between them, while the queue is drained into a
stream that takes now more and now less. When nobody sends any more and the stream takes everything, the
peer receives exactly the messages, in the order in which they were sent, and then the end.

What is on its way is one byte string: what the stream has and what is queued (`Carries`). Sending puts
an envelope behind it. Draining moves a front of it, which need not be the front of a message, and so
does not change it. So in the end the stream has all envelopes, and what a reader of envelopes makes of
them is settled (`receiveAll_eq`).
-/

namespace LiveMedia.Request

open LiveMedia.Wire LiveMedia.Message LiveMedia.Stream

-- ── writing a queue ─────────────────────────────────────────────────

/-- What writing messages comes to: together with what is left, the sink has what it was given. -/
inductive WritesAll (k : Sink) (queue : List Bytes) : WriteResult × List Bytes × Sink → Prop where
  | complete {written : Bytes} : written = k.written ++ queue.flatten →
      WritesAll k queue (.complete, [], { k with written })
  | blocked {unwritten written : Bytes} {left : List Bytes} : k.blockAfter ≠ none →
      written ++ left.flatten = k.written ++ queue.flatten →
      WritesAll k queue (.blocked unwritten, left, { k with written })
  | failed {e : TransportError} {left : List Bytes} {written : Bytes} : k.failAfter ≠ none →
      WritesAll k queue (.failed e, left, { k with written })

theorem writeAll_writesAll (k : Sink) (queue : List Bytes) :
    WritesAll k queue (Channel.writeAll k queue) := by
  induction queue generalizing k with
  | nil => exact .complete (List.append_nil _).symm
  | cons bs queue ih =>
      have hwrites := k.write_writes bs
      rw [Channel.writeAll]
      generalize k.write bs = x at hwrites
      cases hwrites with
      | complete =>
          have hassoc := List.append_assoc k.written bs queue.flatten
          have hrest := ih { k with written := k.written ++ bs }
          dsimp only
          generalize Channel.writeAll { k with written := k.written ++ bs } queue = y at hrest
          cases hrest with
          | complete hwritten => exact .complete (hwritten.trans hassoc)
          | blocked hblock hwritten => exact .blocked hblock (hwritten.trans hassoc)
          | failed hfail => exact .failed hfail
      | @blocked written rest hblock hwritten =>
          refine .blocked hblock ?_
          rw [List.flatten_cons, ← List.append_assoc, hwritten, List.append_assoc]
          rfl
      | failed hfail _ _ => exact .failed hfail

-- ── a sender ────────────────────────────────────────────────────────

/-- One thing that happens where messages are sent from. -/
inductive SenderMove where
  | send (m : ControlMessage)
  /-- An envelope is queued by hand. -/
  | mix (e : Envelope)
  /-- The queue is drained as far as the stream takes it. -/
  | drain
  /-- The stream takes so many bytes, or all. -/
  | allow (limit : Option Nat)

/-- A control channel and the stream that it is drained into. -/
structure Sender where
  channel : Channel
  sink : Sink

namespace Sender

/-- The sender after an attempt to queue something. -/
def queueing (s : Sender) : Except TransportError Channel → Sender
  | .ok channel => { s with channel }
  | .error _ => s

def after (s : Sender) : SenderMove → Sender
  | .send m => s.queueing (s.channel.send m)
  | .mix e => match e.encode with
    | .ok bs => s.queueing (s.channel.push bs)
    | .error _ => s
  | .drain =>
    let (_, channel, sink) := s.channel.drain true s.sink
    ⟨channel, sink⟩
  | .allow limit => { s with sink := s.sink.allow limit }

def run (s : Sender) : List SenderMove → Sender
  | [] => s
  | move :: moves => (s.after move).run moves

/-- Nobody sends any more, and the stream takes what is left. -/
def finish (s : Sender) : Attempt TransportError Unit × Sink :=
  let (attempt, _, sink) := s.channel.drain false (s.sink.allow none)
  (attempt, sink)

/-- The messages that were sent. -/
def messages : List SenderMove → List ControlMessage
  | [] => []
  | .send m :: moves => m :: messages moves
  | _ :: moves => messages moves

/-- These messages are in the stream or on their way to it. -/
structure Carries (s : Sender) (ms : List ControlMessage) : Prop where
  isOpen : s.channel.isOpen = true
  /-- The stream does not fail. -/
  steady : s.sink.failAfter = none
  envelopes : ∃ es, known es = ms ∧
    encodeAll Envelope.encode es = .ok (s.sink.written ++ s.channel.queue.flatten)

section Steps

variable {s : Sender} {ms : List ControlMessage}

/-- What is queued stands behind everything else. -/
theorem Carries.push (h : Carries s ms) {e : Envelope} {bs : Bytes} (he : e.encode = .ok bs) :
    Carries { s with channel := { s.channel with queue := s.channel.queue ++ [bs] } }
      (ms ++ known [e]) := by
  obtain ⟨es, rfl, hes⟩ := h.envelopes
  refine ⟨h.isOpen, h.steady, es ++ [e], known_append es [e], ?_⟩
  rw [encodeAll_append hes (encodeAll_singleton he), List.flatten_append, List.flatten_singleton, List.append_assoc]

/-- What is carried stays so when bytes move from the queue to the stream. -/
theorem Carries.congr (h : Carries s ms) {s' : Sender} (hopen : s'.channel.isOpen = s.channel.isOpen)
    (hsteady : s'.sink.failAfter = s.sink.failAfter)
    (hbytes : s'.sink.written ++ s'.channel.queue.flatten =
      s.sink.written ++ s.channel.queue.flatten) : Carries s' ms where
  isOpen := hopen.trans h.isOpen
  steady := hsteady.trans h.steady
  envelopes := hbytes ▸ h.envelopes

theorem Carries.drain (h : Carries s ms) : Carries (s.after .drain) ms := by
  have hwrites := writeAll_writesAll s.sink s.channel.queue
  rw [after, Channel.drain]
  generalize Channel.writeAll s.sink s.channel.queue = x at hwrites
  cases hwrites with
  | complete hwritten => exact h.congr rfl rfl ((List.append_nil _).trans hwritten)
  | blocked _ hwritten => exact h.congr rfl rfl hwritten
  | failed hfail => exact absurd h.steady hfail

theorem Carries.after (h : Carries s ms) {move : SenderMove}
    (hsend : ∀ m, move = .send m → ∃ bs, m.encode = .ok bs)
    (hmix : ∀ e, move = .mix e → ∃ err, e.parse = .error err) :
    Carries (s.after move) (ms ++ messages [move]) := by
  cases move with
  | send m =>
      obtain ⟨bs, hbs⟩ := hsend m rfl
      obtain ⟨e, he, hparse⟩ := ControlMessage.exists_envelope hbs
      have hpush := h.push he
      rw [known_cons_of_ok hparse] at hpush
      rw [Sender.after, Channel.send, hbs]
      dsimp only
      rw [Channel.push, if_pos h.isOpen]
      exact hpush
  | mix e =>
      obtain ⟨err, herr⟩ := hmix e rfl
      rw [Sender.after]
      cases hencode : e.encode with
      | error _ => exact (List.append_nil ms).symm ▸ h
      | ok bs =>
          have hpush := h.push hencode
          rw [known_cons_of_error herr] at hpush
          dsimp only
          rw [Channel.push, if_pos h.isOpen]
          exact hpush
  | drain => exact (List.append_nil ms).symm ▸ h.drain
  | allow limit => exact (List.append_nil ms).symm ▸ h.congr rfl rfl rfl

theorem messages_cons (move : SenderMove) (moves : List SenderMove) :
    messages (move :: moves) = messages [move] ++ messages moves := by
  cases move <;> rfl

theorem Carries.run (h : Carries s ms) {moves : List SenderMove}
    (hsend : ∀ m, .send m ∈ moves → ∃ bs, m.encode = .ok bs)
    (hmix : ∀ e, .mix e ∈ moves → ∃ err, e.parse = .error err) :
    Carries (s.run moves) (ms ++ messages moves) := by
  induction moves generalizing s ms with
  | nil => exact (List.append_nil ms).symm ▸ h
  | cons move moves ih =>
      have hstep := h.after (fun m heq => hsend m (heq ▸ List.mem_cons_self))
        (fun e heq => hmix e (heq ▸ List.mem_cons_self))
      rw [messages_cons, ← List.append_assoc]
      exact ih hstep (fun m hm => hsend m (List.mem_cons_of_mem _ hm))
        (fun e he => hmix e (List.mem_cons_of_mem _ he))

/-- In the end the stream has everything, and is ended if it can be. -/
theorem Carries.finish (h : Carries s ms) :
    (s.sink.refusal = none → s.finish.1 = .ok () ∧ s.finish.2.finished = true) ∧
      ∃ es, known es = ms ∧ encodeAll Envelope.encode es = .ok s.finish.2.written := by
  have hwrites := writeAll_writesAll (s.sink.allow none) s.channel.queue
  rw [Sender.finish, Channel.drain]
  generalize Channel.writeAll (s.sink.allow none) s.channel.queue = x at hwrites
  cases hwrites with
  | @complete written hwritten =>
      obtain ⟨es, hknown, hes⟩ := h.envelopes
      constructor
      · intro hnone
        have hends := Sink.finish_of_endable (k := { s.sink.allow none with written }) hnone
        simp only [Bool.false_eq_true, if_false]
        rw [hends]
        exact ⟨rfl, rfl⟩
      · refine ⟨es, hknown, ?_⟩
        simp only [Bool.false_eq_true, if_false, Sink.written_finish]
        exact hwritten ▸ hes
  | blocked hblock _ => exact absurd rfl hblock
  | failed hfail => exact absurd h.steady hfail

/-- Queueing leaves the stream alone. -/
theorem sink_queueing (s : Sender) (x : Except TransportError Channel) :
    (s.queueing x).sink = s.sink := by
  cases x <;> rfl

/-- What is done to a stream does not change whether it can be ended. -/
theorem refusal_after (s : Sender) (move : SenderMove) :
    (s.after move).sink.refusal = s.sink.refusal := by
  cases move with
  | send m => rw [after, sink_queueing]
  | mix e =>
      rw [after]
      split
      · rw [sink_queueing]
      · rfl
  | drain =>
      have hwrites := writeAll_writesAll s.sink s.channel.queue
      rw [after, Channel.drain]
      generalize Channel.writeAll s.sink s.channel.queue = x at hwrites
      cases hwrites with
      | complete _ => rfl
      | blocked _ _ => rfl
      | failed _ => rfl
  | allow limit => rfl

theorem refusal_run (s : Sender) (moves : List SenderMove) :
    (s.run moves).sink.refusal = s.sink.refusal := by
  induction moves generalizing s with
  | nil => rfl
  | cons move moves ih => exact (ih (s.after move)).trans (refusal_after s move)

end Steps

theorem carries_start (client : Bool) (limit : RequestId) {sink : Sink} (hfresh : sink.written = [])
    (hsteady : sink.failAfter = none) : Carries ⟨.start client limit, sink⟩ [] where
  isOpen := rfl
  steady := hsteady
  envelopes := ⟨[], rfl, hfresh ▸ rfl⟩

-- ── the result ──────────────────────────────────────────────────────

/-- **A control channel delivers what was sent.** Messages that can be written are sent, in any order with
    envelopes that cannot be parsed and with drains into a stream that now and then takes no more. Then
    the drain comes to an end, with success if the stream can be ended. However the peer's stream delivers
    these bytes, the peer that is polled often enough is given exactly the messages that were sent, in
    order, and then the end. Its limit is then the largest of what it was and all that the messages
    grant. -/
theorem sent_messages_arrive (client : Bool) (limit : RequestId) (sink : Sink)
    (hfresh : sink.written = []) (hsteady : sink.failAfter = none) (moves : List SenderMove)
    (hsend : ∀ m, .send m ∈ moves → ∃ bs, m.encode = .ok bs)
    (hmix : ∀ e, .mix e ∈ moves → ∃ err, e.parse = .error err) (s : Sender)
    (hrun : s = run ⟨.start client limit, sink⟩ moves) :
    (sink.refusal = none → s.finish.1 = .ok () ∧ s.finish.2.finished = true) ∧
      ∀ (peer : Channel) (source : Source) (polls : Nat), source.bytes = s.finish.2.written →
        source.failure? = none → (messages moves).length + source.waits < polls →
        (receiveAll polls peer (.ofSource source)).1 =
            (messages moves).map (fun m => .ok (some m)) ++ [.ok none] ∧
          (receiveAll polls peer (.ofSource source)).2.allocation.limit.val =
            ((messages moves).filterMap limit?).foldl max peer.allocation.limit.val := by
  have hcarries : Carries s (messages moves) :=
    hrun ▸ (carries_start client limit hfresh hsteady).run hsend hmix
  have hrefusal : s.sink.refusal = sink.refusal := hrun ▸ refusal_run _ moves
  obtain ⟨hdone, es, hknown, hes⟩ := hcarries.finish
  refine ⟨fun hnone => hdone (hrefusal.trans hnone), ?_⟩
  intro peer source polls hbytes hfailure hpolls
  have hholds : Holds (.ofSource source) es := ⟨hes.trans (congrArg _ hbytes.symm), hfailure⟩
  have hall := receiveAll_eq peer hholds (hknown.symm ▸ hpolls)
  rw [hall, hknown]
  exact ⟨rfl, limit_applyAll peer (messages moves)⟩

/-- The stream stops within the first message. One envelope is of no known kind, and one ends too early. -/
def mixedMoves : List SenderMove :=
  [.allow (some 3), .send (.maxRequestId ⟨⟨8⟩⟩), .mix ⟨0x3f, [0x6a, 0x75, 0x6e, 0x6b]⟩, .drain,
    .send (.fetchCancel ⟨⟨4⟩⟩), .mix ⟨0x17, [0x40]⟩, .send (.maxRequestId ⟨⟨3⟩⟩)]

/-- The blocks that the peer reads begin and end within messages. -/
theorem sent_messages_arrive_mixed :
    let source : Source := [.data [0x15, 0], .wait, .data [1, 8, 0x3f, 0, 4, 0x6a, 0x75],
      .data [0x6e, 0x6b, 0x17, 0, 1, 4, 0x17], .wait, .data [0, 1, 0x40, 0x15, 0, 1, 3]]
    (receiveAll 6 (.start false ⟨5⟩) (.ofSource source)).1 =
        [.ok (some (.maxRequestId ⟨⟨8⟩⟩)), .ok (some (.fetchCancel ⟨⟨4⟩⟩)),
          .ok (some (.maxRequestId ⟨⟨3⟩⟩)), .ok none] ∧
      (receiveAll 6 (.start false ⟨5⟩) (.ofSource source)).2.allocation.limit.val = 8 := by
  intro source
  have hsend : ∀ m, .send m ∈ mixedMoves → ∃ bs, m.encode = .ok bs := by
    intro m hm
    simp only [mixedMoves, List.mem_cons, List.not_mem_nil, SenderMove.send.injEq, reduceCtorEq,
      or_false, false_or] at hm
    rcases hm with rfl | rfl | rfl <;> exact ⟨_, rfl⟩
  have hmix : ∀ e, .mix e ∈ mixedMoves → ∃ err, e.parse = .error err := by
    intro e he
    simp only [mixedMoves, List.mem_cons, List.not_mem_nil, SenderMove.mix.injEq, reduceCtorEq,
      or_false, false_or] at he
    rcases he with rfl | rfl <;> exact ⟨_, rfl⟩
  obtain ⟨-, hall⟩ :=
    sent_messages_arrive true ⟨0⟩ .unlimited rfl rfl mixedMoves hsend hmix _ rfl
  exact hall (.start false ⟨5⟩) source 6 (by decide +kernel) rfl (by decide)

end Sender

end LiveMedia.Request
