import LiveMedia.Proofs.Message.Incremental
import LiveMedia.Proofs.Message.RoundTrip
import LiveMedia.Proofs.Stream.Content
import LiveMedia.Request.Channel

/-!
# What a control channel receives

A control stream is envelopes one behind the other. However it is cut into blocks, and however often it
has to be waited for, a reader that has read some of the envelopes still holds the others (`Holds`).

The size of a body stands in front of it. So the reader is behind an envelope before anything looks at
the body, and one that cannot be parsed costs nothing but itself: what a stream of envelopes says is the
messages of those that can be parsed (`known`). Receiving takes the first of them and goes on with the
rest, or comes to the end, or is pending and has only passed over envelopes that say nothing
(`Receives`). Polled often enough, it gives all of them (`receiveAll_eq`).
-/

namespace LiveMedia.Request

open LiveMedia.Wire LiveMedia.Message LiveMedia.Stream

-- ── envelopes on the wire ───────────────────────────────────────────

theorem length_le_of_encodeAll {es : List Envelope} {bs : Bytes}
    (h : encodeAll Envelope.encode es = .ok bs) : es.length ≤ bs.length := by
  induction es generalizing bs with
  | nil => exact Nat.zero_le _
  | cons e es ih =>
      obtain ⟨front, back, hfront, hback, rfl⟩ := append_eq_ok h
      have hpos := List.length_pos_iff.mpr (Envelope.ne_nil_of_encode hfront)
      have hle := ih hback
      rw [List.length_cons, List.length_append]
      omega

/-- The reader is in front of these envelopes, with the end of the stream behind them. -/
structure Holds (r : Reader) (es : List Envelope) : Prop where
  encodeAll_eq : encodeAll Envelope.encode es = .ok r.content
  failure_eq : r.failure? = none

section Holds

variable {r r' : Reader} {es : List Envelope}

theorem Holds.past_nil (h : Holds r es) (hpast : r.Past [] r') : Holds r' es where
  encodeAll_eq := h.encodeAll_eq.trans (congrArg _ hpast.content_eq)
  failure_eq := hpast.failure_eq.trans h.failure_eq

theorem Holds.content_nil (h : Holds r []) : r.content = [] := (Except.ok.inj h.encodeAll_eq).symm

/-- Decoding takes the first envelope. -/
theorem Holds.run_eq {e : Envelope} (h : Holds r (e :: es)) :
    ∃ back, Envelope.decode.run r.content = (.ok e, back) ∧
      encodeAll Envelope.encode es = .ok back ∧ r.content ≠ [] := by
  obtain ⟨front, back, hfront, hback, heq⟩ := append_eq_ok h.encodeAll_eq
  refine ⟨back, heq ▸ Envelope.inverts e front hfront back, hback, ?_⟩
  rw [← heq]
  exact List.append_ne_nil_of_left_ne_nil (Envelope.ne_nil_of_encode hfront) back

theorem Holds.length_lt (h : Holds r es) : es.length < r.buffer.length + r.source.volume + 1 := by
  have hle := length_le_of_encodeAll h.encodeAll_eq
  have hbytes := r.source.length_bytes_le
  rw [Reader.content, List.length_append] at hle
  omega

end Holds

/-- What reading the next envelope comes to. -/
inductive Next (r : Reader) : List Envelope → Attempt TransportError (Option Envelope) × Reader → Prop where
  | envelope {e : Envelope} {es : List Envelope} {r' : Reader} : Holds r' es → r'.waits ≤ r.waits →
      Next r (e :: es) (.ok (some e), r')
  | finish {r' : Reader} : Next r [] (.ok none, r')
  | pending {es : List Envelope} {r' : Reader} : Holds r' es → r'.waits < r.waits →
      Next r es (.error .pending, r')

theorem Holds.next {r : Reader} {es : List Envelope} (h : Holds r es) :
    Next r es (r.decodeMaybe Envelope.decode) := by
  have hanswers := r.decodeMaybe_answers Envelope.incremental
  generalize r.decodeMaybe Envelope.decode = x at hanswers
  cases es with
  | nil =>
      have hnil := h.content_nil
      cases hanswers with
      | @value found r' hfound =>
          cases found with
          | none => exact .finish
          | some e =>
              have hrun := hfound.run_eq Envelope.incremental
              rw [hnil] at hrun
              cases hrun
      | pending hpast hlt => exact .pending (h.past_nil hpast) hlt
      | failed hfails => exact absurd ⟨hnil, h.failure_eq⟩ hfails.1
  | cons e es =>
      obtain ⟨back, hrun, hback, hne⟩ := h.run_eq
      cases hanswers with
      | @value found r' hfound =>
          cases found with
          | none => exact absurd hfound.1 hne
          | some e' =>
              have hrun' := hfound.run_eq Envelope.incremental
              rw [hrun] at hrun'
              obtain ⟨he, rfl⟩ := Prod.mk.inj hrun'
              obtain rfl := Except.ok.inj he
              obtain ⟨front, hpast, -⟩ := hfound
              exact .envelope ⟨hback, hpast.failure_eq.trans h.failure_eq⟩ hpast.waits_le
      | pending hpast hlt => exact .pending (h.past_nil hpast) hlt
      | failed hfails =>
          obtain ⟨err, herr⟩ := hfails.2 hne
          rw [hrun] at herr
          cases herr

-- ── messages ────────────────────────────────────────────────────────

/-- What envelopes say: the messages of those that can be parsed. -/
def known (es : List Envelope) : List ControlMessage := es.filterMap fun e => e.parse.toOption

theorem known_cons_of_ok {e : Envelope} {m : ControlMessage} (h : e.parse = .ok m)
    (es : List Envelope) : known (e :: es) = m :: known es :=
  List.filterMap_cons_some (congrArg Except.toOption h)

theorem known_cons_of_error {e : Envelope} {err : DecodeError} (h : e.parse = .error err)
    (es : List Envelope) : known (e :: es) = known es :=
  List.filterMap_cons_none (congrArg Except.toOption h)

theorem known_append (es es' : List Envelope) : known (es ++ es') = known es ++ known es' :=
  List.filterMap_append

/-- What receiving comes to. -/
inductive Receives (c : Channel) (r : Reader) (es : List Envelope) :
    Attempt TransportError (Option ControlMessage) × Channel × Reader → Prop where
  | message {m : ControlMessage} {es' : List Envelope} {r' : Reader} :
      known es = m :: known es' → Holds r' es' → r'.waits ≤ r.waits →
      Receives c r es (.ok (some m), c.apply m, r')
  | finish {r' : Reader} : known es = [] → Receives c r es (.ok none, c, r')
  | pending {es' : List Envelope} {r' : Reader} : known es = known es' → Holds r' es' →
      r'.waits < r.waits → Receives c r es (.error .pending, c, r')

section Receiving

variable {c : Channel} {r r' : Reader} {es es' : List Envelope}

/-- An envelope that says nothing was passed over. -/
theorem Receives.earlier {x : Attempt TransportError (Option ControlMessage) × Channel × Reader}
    (h : Receives c r' es' x) (hknown : known es = known es') (hwaits : r'.waits ≤ r.waits) :
    Receives c r es x := by
  cases h with
  | message hm hholds hle => exact .message (hknown.trans hm) hholds (Nat.le_trans hle hwaits)
  | finish hnil => exact .finish (hknown.trans hnil)
  | pending hrest hholds hlt =>
      exact .pending (hknown.trans hrest) hholds (Nat.lt_of_lt_of_le hlt hwaits)

theorem receiveWithin_receives (c : Channel) (h : Holds r es) {fuel : Nat} (hfuel : es.length < fuel) :
    Receives c r es (c.receiveWithin fuel r) := by
  induction fuel generalizing r es with
  | zero => exact absurd hfuel (Nat.not_lt_zero _)
  | succ fuel ih =>
      have hnext := h.next
      rw [Channel.receiveWithin]
      generalize r.decodeMaybe Envelope.decode = x at hnext
      cases hnext with
      | @envelope e es r' hholds hle =>
          dsimp only
          cases hparse : e.parse with
          | ok m => exact .message (known_cons_of_ok hparse es) hholds hle
          | error err =>
              have hrest := ih hholds (Nat.lt_of_succ_lt_succ hfuel)
              exact hrest.earlier (known_cons_of_error hparse es) hle
      | finish => exact .finish rfl
      | pending hholds hlt => exact .pending rfl hholds hlt

/-- **What receiving comes to**, on any stream of envelopes. -/
theorem receive_receives (c : Channel) (h : Holds r es) : Receives c r es (c.receive r) :=
  receiveWithin_receives c h h.length_lt

end Receiving

-- ── polling to the end ──────────────────────────────────────────────

/-- Polls for messages so many times, or until one poll finds the end of the stream or fails. Gives all
    answers but the pending ones. -/
def receiveAll : Nat → Channel → Reader →
    List (Attempt TransportError (Option ControlMessage)) × Channel
  | 0, c, _ => ([], c)
  | polls + 1, c, r => match c.receive r with
    | (.error .pending, c, r) => receiveAll polls c r
    | (.ok (some m), c, r) =>
      let (answers, c) := receiveAll polls c r
      (.ok (some m) :: answers, c)
    | (answer, c, _) => ([answer], c)

/-- **A channel that is polled often enough receives all that the envelopes say**, and then the end. -/
theorem receiveAll_eq (c : Channel) {r : Reader} {es : List Envelope} (h : Holds r es) {polls : Nat}
    (hpolls : (known es).length + r.waits < polls) :
    receiveAll polls c r =
      ((known es).map (fun m => .ok (some m)) ++ [.ok none], (known es).foldl Channel.apply c) := by
  induction polls generalizing c r es with
  | zero => exact absurd hpolls (Nat.not_lt_zero _)
  | succ polls ih =>
      have hreceives := receive_receives c h
      rw [receiveAll]
      generalize c.receive r = x at hreceives
      cases hreceives with
      | message hm hholds hle =>
          rw [hm, List.length_cons] at hpolls
          dsimp only
          rw [ih (c.apply _) hholds (by omega), hm]
          rfl
      | finish hnil =>
          rw [hnil]
          rfl
      | pending hrest hholds hlt =>
          rw [hrest] at hpolls
          dsimp only
          rw [ih c hholds (by omega), hrest]

-- ── the limit ───────────────────────────────────────────────────────

/-- The limit that a message grants. -/
def limit? : ControlMessage → Option Nat
  | .maxRequestId m => some m.requestId.val
  | _ => none

theorem limit_grant (c : Channel) (limit : RequestId) :
    (c.grant limit).allocation.limit.val = max c.allocation.limit.val limit.val := by
  unfold Channel.grant Allocation.raise
  by_cases hlt : c.allocation.limit.val < limit.val
  · rw [if_pos hlt]
    exact (Nat.max_eq_right (Nat.le_of_lt hlt)).symm
  · rw [if_neg hlt]
    exact (Nat.max_eq_left (Nat.le_of_not_lt hlt)).symm

/-- The limit is the largest of what it was and all that was granted. -/
theorem limit_applyAll (c : Channel) (ms : List ControlMessage) :
    (ms.foldl Channel.apply c).allocation.limit.val =
      (ms.filterMap limit?).foldl max c.allocation.limit.val := by
  induction ms generalizing c with
  | nil => rfl
  | cons m ms ih =>
      rw [List.foldl_cons, ih]
      cases m with
      | maxRequestId m =>
          show _ = (ms.filterMap limit?).foldl max (max c.allocation.limit.val m.requestId.val)
          rw [← limit_grant]
          rfl
      | _ => rfl

end LiveMedia.Request
