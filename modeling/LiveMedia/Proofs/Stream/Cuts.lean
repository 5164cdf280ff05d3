import LiveMedia.Proofs.Message.Incremental
import LiveMedia.Proofs.Stream.FirstWait

/-!
# A stream is read alike however it is cut

Bytes arrive in blocks, with waits between them. A call that needs more than has arrived is pending and is
polled again, until it is over. What the calls then answer, one after the other, is what they say about the
bytes as a whole: `Call.onBytes` answers each call on a byte string, without a reader, a block or a wait, and
`settleAll_eq` says that a reader answers the same.

A reader is in front of bytes (`Reader.InFrontOf`) if they are what it has in its buffer and what its stream
will deliver. One poll of a call (`Call.Polled`) either ends it, and then it has answered what the bytes in
front of it say and is in front of those that are left, or it has only moved blocks into the buffer. Skipping
alone gives up bytes while it is pending; but then it has less to skip, so it still comes to the same
(`Call.skip_onBytes`).
-/

namespace LiveMedia.Stream

open LiveMedia.Wire LiveMedia.Message

-- ── cuts ────────────────────────────────────────────────────────────

/-- The source delivers the bytes in blocks, with waits between them, and then ends. -/
inductive Source.Cuts : Source → Bytes → Prop where
  | nil : Cuts [] []
  | data {source : Source} {back : Bytes} (b : UInt8) (bs : Bytes) : Cuts source back →
      Cuts (.data (b :: bs) :: source) (b :: bs ++ back)
  | wait {source : Source} {back : Bytes} : Cuts source back → Cuts (.wait :: source) back

/-- These bytes are in the buffer or come from the source, and the stream ends behind them. -/
def Reader.InFrontOf (r : Reader) (bs : Bytes) : Prop :=
  ∃ back, r.source.Cuts back ∧ bs = r.buffer ++ back

namespace Reader

theorem inFrontOf_ofSource {source : Source} {bs : Bytes} (h : source.Cuts bs) :
    (ofSource source).InFrontOf bs := ⟨bs, h, rfl⟩

theorem inFrontOf_buffer {buffer back : Bytes} {source : Source} (h : source.Cuts back) :
    InFrontOf ⟨buffer, source⟩ (buffer ++ back) := ⟨back, h, rfl⟩

end Reader

-- ── calls ───────────────────────────────────────────────────────────

/-- A call on a reader. -/
inductive Call where
  | decode (t : WireType)
  | decodeMaybe (t : WireType)
  | peek (t : WireType)
  | readExact (n : Nat)
  | skip (n : Nat)
  | closed
deriving DecidableEq, Repr

/-- What a call gives. -/
inductive Reply where
  | value (t : WireType) (v : t.Value)
  /-- The stream has ended before a value. -/
  | ended
  | bytes (bs : Bytes)
  | done

namespace Call

def isSkip : Call → Bool
  | skip _ => true
  | _ => false

/-- The call is polled once. It comes with the call that is left when it is pending. -/
def poll (r : Reader) : Call → Attempt TransportError Reply × Call × Reader
  | decode t => ((r.decode t.codec.decode).1.map (.value t), .decode t, (r.decode t.codec.decode).2)
  | decodeMaybe t =>
    ((r.decodeMaybe t.codec.decode).1.map fun found => found.elim .ended (.value t), .decodeMaybe t,
      (r.decodeMaybe t.codec.decode).2)
  | peek t => ((r.peek t.codec.decode).1.map (.value t), .peek t, (r.peek t.codec.decode).2)
  | readExact n => ((r.readExact n).1.map .bytes, .readExact n, (r.readExact n).2)
  | skip n => ((r.skip n).1.map fun _ => .done, .skip (r.skip n).2.1, (r.skip n).2.2)
  | closed => (r.closed.1.map fun _ => .done, .closed, r.closed.2)

/-- The call is polled until it is over, but not more often than this. -/
def settle : Nat → Call → Reader → Option (Except TransportError Reply × Reader)
  | 0, _, _ => none
  | polls + 1, c, r => match c.poll r with
    | (.ok reply, _, r) => some (.ok reply, r)
    | (.error (.failed e), _, r) => some (.error e, r)
    | (.error .pending, c, r) => settle polls c r

/-- The value at the front of bytes, and the bytes behind it. An error leaves all of them. -/
def valueOn (t : WireType) (bs : Bytes) : Except TransportError Reply × Bytes :=
  match t.codec.decode.run bs with
  | (.ok v, rest) => (.ok (.value t v), rest)
  | (.error e, _) => (.error (.decode e), bs)

/-- What the call says of bytes, and the bytes that it leaves. -/
def onBytes (bs : Bytes) : Call → Except TransportError Reply × Bytes
  | decode t => valueOn t bs
  | decodeMaybe t => if bs = [] then (.ok .ended, []) else valueOn t bs
  | peek t => ((valueOn t bs).1, bs)
  | readExact n =>
    if n ≤ bs.length then (.ok (.bytes (bs.take n)), bs.drop n) else (.error (.decode .short), bs)
  | skip n => if n ≤ bs.length then (.ok .done, bs.drop n) else (.error (.decode .short), [])
  | closed => if bs = [] then (.ok .done, []) else (.error (.decode .expectedEnd), bs)

end Call

/-- Calls one after the other, each polled until it is over. -/
def settleAll (polls : Nat) : List Call → Reader → Option (List (Except TransportError Reply) × Reader)
  | [], r => some ([], r)
  | c :: cs, r => do
    let (answer, r) ← c.settle polls r
    let (answers, r) ← settleAll polls cs r
    return (answer :: answers, r)

/-- What calls say of bytes, one after the other, and the bytes that they leave. -/
def answersOn : List Call → Bytes → List (Except TransportError Reply) × Bytes
  | [], bs => ([], bs)
  | c :: cs, bs =>
    let (answer, bs) := c.onBytes bs
    let (answers, bs) := answersOn cs bs
    (answer :: answers, bs)

-- ── decoding ────────────────────────────────────────────────────────

namespace Reader

variable {α : Type} {d : Decoder α} {bs : Bytes}

/-- What waiting for a value comes to in front of bytes: the value at their front, with what is behind it
    in the buffer, or a wait less, or the error of the decoder. A decoder is short only at the end. -/
inductive Awaits (d : Decoder α) (bs : Bytes) (waits : Nat) :
    Attempt TransportError (α × Bytes) × Reader → Prop where
  | value {a : α} {rest left : Bytes} {r' : Reader} : d.run bs = (.ok a, left) → r'.InFrontOf bs →
      InFrontOf { r' with buffer := rest } left → r'.waits ≤ waits →
      Awaits d bs waits (.ok (a, rest), r')
  | pending {r' : Reader} : r'.InFrontOf bs → r'.waits < waits →
      Awaits d bs waits (.error .pending, r')
  | failed {e : DecodeError} {r' : Reader} : (d.run bs).1 = .error e → r'.InFrontOf bs →
      r'.waits ≤ waits → (e = .short → r'.source = []) →
      Awaits d bs waits (.error (.failed (.decode e)), r')

theorem Awaits.of_buffer (hd : Incremental d) {buffer back rest : Bytes} {source : Source} {a : α}
    (hcuts : source.Cuts back) (h : d.run buffer = (.ok a, rest)) :
    Awaits d (buffer ++ back) source.waits (.ok (a, rest), ⟨buffer, source⟩) :=
  .value (hd.extend h (fun heq => by cases heq) back) (inFrontOf_buffer hcuts) (inFrontOf_buffer hcuts)
    (Nat.le_refl _)

theorem Awaits.of_error (hd : Incremental d) {buffer back rest : Bytes} {source : Source}
    {e : DecodeError} (hcuts : source.Cuts back) (h : d.run buffer = (.error e, rest)) (he : e ≠ .short) :
    Awaits d (buffer ++ back) source.waits (.error (.failed (.decode e)), ⟨buffer, source⟩) := by
  have hne : (.error e : Except DecodeError α) ≠ .error .short := fun heq => he (Except.error.inj heq)
  have hrun := congrArg Prod.fst (hd.extend h hne back)
  exact .failed hrun (inFrontOf_buffer hcuts) (Nat.le_refl _) fun hshort => absurd hshort he

theorem await_awaits (hd : Incremental d) {source : Source} {back : Bytes} (h : source.Cuts back)
    (buffer : Bytes) : Awaits d (buffer ++ back) source.waits (await d buffer source) := by
  -- an answer that the buffer gives stands, so only a short decoder looks at the source
  have hbuffer : ∀ {source : Source} {back : Bytes} (buffer : Bytes), source.Cuts back →
      (∀ rest, d.run buffer = (.error .short, rest) →
        Awaits d (buffer ++ back) source.waits (await d buffer source)) →
      Awaits d (buffer ++ back) source.waits (await d buffer source) := by
    intro source back buffer hcuts hshort
    cases hrun : d.run buffer with
    | mk answer rest =>
        cases answer with
        | ok a =>
            rw [await_ok hrun]
            exact .of_buffer hd hcuts hrun
        | error e =>
            by_cases he : e = .short
            · subst he
              exact hshort rest hrun
            · rw [await_error hrun he]
              exact .of_error hd hcuts hrun he
  induction h generalizing buffer with
  | nil =>
      refine hbuffer buffer .nil fun rest hrun => ?_
      have hend := congrArg Prod.fst hrun
      rw [← List.append_nil buffer] at hend
      rw [await, hrun]
      exact .failed hend (inFrontOf_buffer .nil) (Nat.le_refl _) fun _ => rfl
  | @data source back b bs hcuts ih =>
      refine hbuffer buffer (.data b bs hcuts) fun rest hrun => ?_
      have hnext := ih (buffer ++ (b :: bs))
      rw [List.append_assoc] at hnext
      simp only [await, hrun]
      exact hnext
  | @wait source back hcuts ih =>
      refine hbuffer buffer (.wait hcuts) fun rest hrun => ?_
      rw [await, hrun]
      exact .pending (inFrontOf_buffer hcuts) (Nat.lt_succ_self _)

/-- What decoding comes to in front of bytes. It is `Awaits` with the value taken. -/
inductive DecodesFrom (d : Decoder α) (bs : Bytes) (waits : Nat) :
    Attempt TransportError α × Reader → Prop where
  | value {a : α} {left : Bytes} {r' : Reader} : d.run bs = (.ok a, left) → r'.InFrontOf left →
      r'.waits ≤ waits → DecodesFrom d bs waits (.ok a, r')
  | pending {r' : Reader} : r'.InFrontOf bs → r'.waits < waits →
      DecodesFrom d bs waits (.error .pending, r')
  | failed {e : DecodeError} {r' : Reader} : (d.run bs).1 = .error e → r'.InFrontOf bs →
      r'.waits ≤ waits → (e = .short → r'.source = []) →
      DecodesFrom d bs waits (.error (.failed (.decode e)), r')

theorem decode_decodesFrom (hd : Incremental d) {r : Reader} (h : r.InFrontOf bs) :
    DecodesFrom d bs r.waits (r.decode d) := by
  obtain ⟨back, hcuts, rfl⟩ := h
  have hawaits := await_awaits hd hcuts r.buffer
  unfold decode
  generalize await d r.buffer r.source = x at hawaits
  cases hawaits with
  | value hrun _ hleft hwaits => exact .value hrun hleft hwaits
  | pending hfront hlt => exact .pending hfront hlt
  | failed hrun hfront hwaits hend => exact .failed hrun hfront hwaits hend

-- ── filling the buffer ──────────────────────────────────────────────

/-- What filling the buffer comes to in front of bytes. -/
inductive FillsFrom (bs : Bytes) (waits : Nat) : Attempt TransportError Bool × Reader → Prop where
  | some {r' : Reader} : bs ≠ [] → r'.InFrontOf bs → r'.waits ≤ waits → FillsFrom bs waits (.ok true, r')
  | none {r' : Reader} : bs = [] → r'.InFrontOf bs → r'.waits ≤ waits → FillsFrom bs waits (.ok false, r')
  | pending {r' : Reader} : r'.InFrontOf bs → r'.waits < waits →
      FillsFrom bs waits (.error .pending, r')

theorem fill_fillsFrom {r : Reader} (h : r.InFrontOf bs) : FillsFrom bs r.waits r.fill := by
  obtain ⟨buffer, source⟩ := r
  obtain ⟨back, hcuts, rfl⟩ := h
  unfold fill
  split
  · next hbuffer =>
    obtain rfl : buffer = [] := hbuffer
    cases hcuts with
    | nil => exact .none rfl (inFrontOf_buffer .nil) (Nat.le_refl _)
    | data b bs hcuts =>
        exact .some (List.cons_ne_nil _ _) (inFrontOf_buffer hcuts) (Nat.le_refl _)
    | wait hcuts => exact .pending (inFrontOf_buffer hcuts) (Nat.lt_succ_self _)
  · next hbuffer =>
    exact .some (List.append_ne_nil_of_left_ne_nil hbuffer back) (inFrontOf_buffer hcuts) (Nat.le_refl _)

-- ── skipping ────────────────────────────────────────────────────────

/-- What skipping comes to in front of bytes. While it is pending, some of them are passed over. -/
inductive SkipsFrom (n : Nat) (bs : Bytes) (waits : Nat) :
    Attempt TransportError Unit × Nat × Reader → Prop where
  | done {left : Nat} {r' : Reader} : n ≤ bs.length → r'.InFrontOf (bs.drop n) → r'.waits ≤ waits →
      SkipsFrom n bs waits (.ok (), left, r')
  | pending {front back : Bytes} {left : Nat} {r' : Reader} : bs = front ++ back →
      n = front.length + left → r'.InFrontOf back → r'.waits < waits →
      SkipsFrom n bs waits (.error .pending, left, r')
  | failed {left : Nat} {r' : Reader} : bs.length < n → r'.InFrontOf [] → r'.source = [] →
      r'.waits ≤ waits → SkipsFrom n bs waits (.error (.failed (.decode .short)), left, r')

/-- Skipping what is in the buffer and then the rest. -/
theorem SkipsFrom.behind {n waits : Nat} {buffer back : Bytes}
    {x : Attempt TransportError Unit × Nat × Reader} (hn : buffer.length ≤ n)
    (h : SkipsFrom (n - buffer.length) back waits x) : SkipsFrom n (buffer ++ back) waits x := by
  cases h with
  | done hle hfront hwaits =>
      refine .done ?_ ?_ hwaits
      · rw [List.length_append]
        omega
      · rw [List.drop_append, List.drop_eq_nil_of_le hn]
        exact hfront
  | @pending front back' left r' hback hleft hfront hwaits =>
      have hsplit : buffer ++ back = (buffer ++ front) ++ back' := by
        rw [hback, List.append_assoc]
      refine .pending hsplit ?_ hfront hwaits
      rw [List.length_append]
      omega
  | failed hlt hfront hsource hwaits =>
      refine .failed ?_ hfront hsource hwaits
      rw [List.length_append]
      omega

theorem skipFrom_skipsFrom {source : Source} {back : Bytes} (h : source.Cuts back) (n : Nat)
    (buffer : Bytes) : SkipsFrom n (buffer ++ back) source.waits (skipFrom n buffer source) := by
  have henough : ∀ {source : Source} {back : Bytes} {n : Nat} (buffer : Bytes), source.Cuts back →
      n ≤ buffer.length →
      SkipsFrom n (buffer ++ back) source.waits (.ok (), 0, ⟨buffer.drop n, source⟩) := by
    intro source back n buffer hcuts hn
    refine .done ?_ ?_ (Nat.le_refl _)
    · rw [List.length_append]
      exact Nat.le_add_right_of_le hn
    · rw [List.drop_append_of_le_length hn]
      exact inFrontOf_buffer hcuts
  induction h generalizing n buffer with
  | nil =>
      unfold skipFrom
      split
      · next hn => exact henough buffer .nil hn
      · next hn =>
        refine .failed ?_ (inFrontOf_buffer .nil) rfl (Nat.le_refl _)
        rw [List.append_nil]
        exact Nat.lt_of_not_le hn
  | @data source back b bs hcuts ih =>
      unfold skipFrom
      split
      · next hn => exact henough buffer (.data b bs hcuts) hn
      · next hn => exact .behind (Nat.le_of_not_le hn) (ih (n - buffer.length) (b :: bs))
  | @wait source back hcuts ih =>
      unfold skipFrom
      split
      · next hn => exact henough buffer (.wait hcuts) hn
      · next hn =>
        exact .pending rfl (Nat.add_sub_of_le (Nat.le_of_not_le hn)).symm (inFrontOf_buffer hcuts)
          (Nat.lt_succ_self _)

end Reader

-- ── one poll ────────────────────────────────────────────────────────

namespace Call

/-- What one poll of a call comes to in front of bytes. It is over, with the answer and the bytes left that
    the bytes tell; or it is pending in front of bytes of which the call that is left says the same. -/
inductive Polled (c : Call) (bs : Bytes) (waits : Nat) :
    Attempt TransportError Reply × Call × Reader → Prop where
  | value {reply : Reply} {left : Bytes} {c' : Call} {r' : Reader} : c.onBytes bs = (.ok reply, left) →
      r'.InFrontOf left → r'.waits ≤ waits → Polled c bs waits (.ok reply, c', r')
  | failed {e : TransportError} {left : Bytes} {c' : Call} {r' : Reader} :
      c.onBytes bs = (.error e, left) → r'.InFrontOf left → r'.waits ≤ waits →
      (e = .decode .short → r'.source = []) → Polled c bs waits (.error (.failed e), c', r')
  | pending {bs' : Bytes} {c' : Call} {r' : Reader} : c'.onBytes bs' = c.onBytes bs → r'.InFrontOf bs' →
      r'.waits < waits → (c.isSkip = false → c' = c ∧ bs' = bs) →
      Polled c bs waits (.error .pending, c', r')

variable {bs : Bytes} {r : Reader}

/-- Who has passed over some of the bytes has less to skip. -/
theorem skip_onBytes (front back : Bytes) (left : Nat) :
    (skip left).onBytes back = (skip (front.length + left)).onBytes (front ++ back) := by
  simp only [onBytes]
  rw [List.length_append, List.drop_length_add_append]
  by_cases h : left ≤ back.length
  · rw [if_pos h, if_pos (Nat.add_le_add_left h _)]
  · rw [if_neg h, if_neg (fun hle => h (Nat.le_of_add_le_add_left hle))]

theorem valueOn_of_ok {t : WireType} {v : t.Value} {rest : Bytes}
    (h : t.codec.decode.run bs = (.ok v, rest)) : valueOn t bs = (.ok (.value t v), rest) := by
  rw [valueOn, h]

theorem valueOn_of_error {t : WireType} {e : DecodeError}
    (h : (t.codec.decode.run bs).1 = .error e) : valueOn t bs = (.error (.decode e), bs) := by
  have hrun : t.codec.decode.run bs = (.error e, (t.codec.decode.run bs).2) := Prod.ext h rfl
  rw [valueOn, hrun]

theorem valueOn_ne_ended (t : WireType) (bs : Bytes) : (valueOn t bs).1 ≠ .ok .ended := by
  unfold valueOn
  split
  · exact fun heq => by cases heq
  · exact fun heq => by cases heq

theorem decodeMaybe_ended_iff {t : WireType} :
    ((decodeMaybe t).onBytes bs).1 = .ok .ended ↔ bs = [] := by
  simp only [onBytes]
  split
  · next hnil => exact iff_of_true rfl hnil
  · next hne => exact iff_of_false (valueOn_ne_ended t bs) hne

theorem valueOn_error {t : WireType} {e : TransportError} (h : (valueOn t bs).1 = .error e) :
    (valueOn t bs).2 = bs := by
  unfold valueOn at h ⊢
  split
  · next hrun => rw [hrun] at h; cases h
  · rfl

/-- A call that fails leaves all bytes, but one that skips leaves none. -/
theorem onBytes_error {c : Call} {e : TransportError} (h : (c.onBytes bs).1 = .error e) :
    (c.onBytes bs).2 = if c.isSkip then [] else bs := by
  cases c with
  | decode t => exact valueOn_error h
  | decodeMaybe t =>
      simp only [onBytes] at h ⊢
      split at h
      · cases h
      · next hne =>
        rw [if_neg hne]
        exact valueOn_error h
  | peek t => rfl
  | readExact n =>
      simp only [onBytes] at h ⊢
      split at h
      · cases h
      · next hn => rw [if_neg hn]; rfl
  | skip n =>
      simp only [onBytes] at h ⊢
      split at h
      · cases h
      · next hn => rw [if_neg hn]; rfl
  | closed =>
      simp only [onBytes] at h ⊢
      split at h
      · cases h
      · next hne => rw [if_neg hne]; rfl

theorem decode_polled (t : WireType) (h : r.InFrontOf bs) :
    Polled (decode t) bs r.waits (poll r (decode t)) := by
  have hdecodes := Reader.decode_decodesFrom t.incremental h
  rw [poll]
  generalize r.decode t.codec.decode = x at hdecodes
  cases hdecodes with
  | value hrun hleft hwaits =>
      have hon : (decode t).onBytes bs = _ := valueOn_of_ok hrun
      exact .value hon hleft hwaits
  | pending hfront hlt => exact .pending rfl hfront hlt fun _ => ⟨rfl, rfl⟩
  | failed hrun hfront hwaits hend =>
      have hon : (decode t).onBytes bs = _ := valueOn_of_error hrun
      exact .failed hon hfront hwaits fun hshort => hend (TransportError.decode.inj hshort)

theorem decodeMaybe_polled (t : WireType) (h : r.InFrontOf bs) :
    Polled (decodeMaybe t) bs r.waits (poll r (decodeMaybe t)) := by
  have hfills := Reader.fill_fillsFrom h
  rw [poll, Reader.decodeMaybe]
  generalize r.fill = x at hfills
  cases hfills with
  | none hnil hfront hwaits =>
      subst hnil
      have hon : (decodeMaybe t).onBytes [] = (.ok .ended, []) := rfl
      exact .value hon hfront hwaits
  | pending hfront hlt => exact .pending rfl hfront hlt fun _ => ⟨rfl, rfl⟩
  | @some r' hne hfront hwaits =>
      have hvalue : (decodeMaybe t).onBytes bs = valueOn t bs := if_neg hne
      have hdecodes := Reader.decode_decodesFrom t.incremental hfront
      dsimp only
      generalize r'.decode t.codec.decode = x at hdecodes
      cases hdecodes with
      | value hrun hleft hwaits' =>
          exact .value (hvalue.trans (valueOn_of_ok hrun)) hleft (Nat.le_trans hwaits' hwaits)
      | pending hfront' hlt =>
          exact .pending rfl hfront' (Nat.lt_of_lt_of_le hlt hwaits) fun _ => ⟨rfl, rfl⟩
      | failed hrun hfront' hwaits' hend =>
          exact .failed (hvalue.trans (valueOn_of_error hrun)) hfront' (Nat.le_trans hwaits' hwaits)
            fun hshort => hend (TransportError.decode.inj hshort)

theorem peek_polled (t : WireType) (h : r.InFrontOf bs) :
    Polled (peek t) bs r.waits (poll r (peek t)) := by
  obtain ⟨back, hcuts, rfl⟩ := h
  have hawaits := Reader.await_awaits t.incremental hcuts r.buffer
  rw [poll, Reader.peek]
  generalize Reader.await t.codec.decode r.buffer r.source = x at hawaits
  cases hawaits with
  | @value a rest left r' hrun hfront _ hwaits =>
      have hon : (peek t).onBytes (r.buffer ++ back) = (.ok (.value t a), r.buffer ++ back) := by
        rw [onBytes, valueOn_of_ok hrun]
      exact .value hon hfront hwaits
  | pending hfront hlt => exact .pending rfl hfront hlt fun _ => ⟨rfl, rfl⟩
  | @failed e r' hrun hfront hwaits hend =>
      have hon : (peek t).onBytes (r.buffer ++ back) = (.error (.decode e), r.buffer ++ back) := by
        rw [onBytes, valueOn_of_error hrun]
      exact .failed hon hfront hwaits fun hshort => hend (TransportError.decode.inj hshort)

theorem readExact_polled (n : Nat) (h : r.InFrontOf bs) :
    Polled (readExact n) bs r.waits (poll r (readExact n)) := by
  have hdecodes := Reader.decode_decodesFrom (.take n) h
  rw [poll, Reader.readExact]
  generalize r.decode (Decoder.take n) = x at hdecodes
  cases hdecodes with
  | @value a left r' hrun hleft hwaits =>
      by_cases hn : n ≤ bs.length
      · rw [Decoder.run_take_of_le hn] at hrun
        cases hrun
        have hon : (readExact n).onBytes bs = (.ok (.bytes (bs.take n)), bs.drop n) := if_pos hn
        exact .value hon hleft hwaits
      · rw [Decoder.run_take_of_lt (Nat.lt_of_not_le hn)] at hrun
        cases hrun
  | pending hfront hlt => exact .pending rfl hfront hlt fun _ => ⟨rfl, rfl⟩
  | @failed e r' hrun hfront hwaits hend =>
      by_cases hn : n ≤ bs.length
      · rw [Decoder.run_take_of_le hn] at hrun
        cases hrun
      · rw [Decoder.run_take_of_lt (Nat.lt_of_not_le hn)] at hrun
        cases hrun
        have hon : (readExact n).onBytes bs = (.error (.decode .short), bs) := if_neg hn
        exact .failed hon hfront hwaits fun _ => hend rfl

theorem closed_polled (h : r.InFrontOf bs) : Polled closed bs r.waits (poll r closed) := by
  have hfills := Reader.fill_fillsFrom h
  rw [poll, Reader.closed]
  generalize r.fill = x at hfills
  cases hfills with
  | none hnil hfront hwaits =>
      subst hnil
      have hon : closed.onBytes [] = (.ok .done, []) := rfl
      exact .value hon hfront hwaits
  | pending hfront hlt => exact .pending rfl hfront hlt fun _ => ⟨rfl, rfl⟩
  | some hne hfront hwaits =>
      have hon : closed.onBytes bs = (.error (.decode .expectedEnd), bs) := if_neg hne
      refine .failed hon hfront hwaits fun hshort => ?_
      cases TransportError.decode.inj hshort

theorem skip_polled (n : Nat) (h : r.InFrontOf bs) : Polled (skip n) bs r.waits (poll r (skip n)) := by
  obtain ⟨back, hcuts, rfl⟩ := h
  have hskips := Reader.skipFrom_skipsFrom hcuts n r.buffer
  rw [poll, Reader.skip]
  generalize Reader.skipFrom n r.buffer r.source = x at hskips
  cases hskips with
  | done hle hfront hwaits =>
      have hon : (skip n).onBytes (r.buffer ++ back) = (.ok .done, (r.buffer ++ back).drop n) :=
        if_pos hle
      exact .value hon hfront hwaits
  | @pending front back' left r' hbytes hleft hfront hlt =>
      refine .pending ?_ hfront hlt fun hskip => Bool.noConfusion hskip
      rw [hbytes, hleft]
      exact skip_onBytes front back' left
  | failed hlt hfront hsource hwaits =>
      have hon : (skip n).onBytes (r.buffer ++ back) = (.error (.decode .short), []) :=
        if_neg (Nat.not_le_of_lt hlt)
      exact .failed hon hfront hwaits fun _ => hsource

/-- **What one poll of a call comes to.** -/
theorem poll_polled (c : Call) (h : r.InFrontOf bs) : Polled c bs r.waits (c.poll r) := by
  cases c with
  | decode t => exact decode_polled t h
  | decodeMaybe t => exact decodeMaybe_polled t h
  | peek t => exact peek_polled t h
  | readExact n => exact readExact_polled n h
  | skip n => exact skip_polled n h
  | closed => exact closed_polled h

-- ── calls until they are over ───────────────────────────────────────

/-- A call that is polled until it is over answers what the bytes in front of it say. -/
theorem settle_eq (c : Call) {polls : Nat} (hpolls : r.waits < polls) (h : r.InFrontOf bs) :
    ∃ r', c.settle polls r = some ((c.onBytes bs).1, r') ∧ r'.InFrontOf (c.onBytes bs).2 ∧
      r'.waits ≤ r.waits ∧ ((c.onBytes bs).1 = .error (.decode .short) → r'.source = []) := by
  induction polls generalizing c bs r with
  | zero => cases hpolls
  | succ polls ih =>
      have hpolled := poll_polled c h
      rw [settle]
      generalize c.poll r = x at hpolled
      cases hpolled with
      | value hon hfront hwaits =>
          rw [hon]
          exact ⟨_, rfl, hfront, hwaits, fun hshort => by cases hshort⟩
      | failed hon hfront hwaits hend =>
          rw [hon]
          exact ⟨_, rfl, hfront, hwaits, fun hshort => hend (Except.error.inj hshort)⟩
      | @pending bs' c' r' hon hfront hlt _ =>
          obtain ⟨r'', hsettle, hfront', hwaits, hend⟩ := ih c' (by omega) hfront
          rw [hon] at hsettle hfront' hend
          exact ⟨r'', hsettle, hfront', by omega, hend⟩

end Call

variable {bs : Bytes} {r : Reader}

theorem settleAll_eq (calls : List Call) {polls : Nat} (hpolls : r.waits < polls)
    (h : r.InFrontOf bs) :
    ∃ r', settleAll polls calls r = some ((answersOn calls bs).1, r') ∧
      r'.InFrontOf (answersOn calls bs).2 ∧ r'.waits ≤ r.waits := by
  induction calls generalizing r bs with
  | nil => exact ⟨r, rfl, h, Nat.le_refl _⟩
  | cons c calls ih =>
      obtain ⟨r', hsettle, hfront, hwaits, -⟩ := c.settle_eq hpolls h
      obtain ⟨r'', hrest, hfront', hwaits'⟩ := ih (Nat.lt_of_le_of_lt hwaits hpolls) hfront
      refine ⟨r'', ?_, hfront', Nat.le_trans hwaits' hwaits⟩
      rw [settleAll, hsettle, Option.bind_eq_bind, Option.bind_some]
      dsimp only
      rw [hrest]
      rfl

/-- All bytes in one block, or none. -/
def Source.whole : Bytes → Source
  | [] => []
  | b :: bs => [.data (b :: bs)]

theorem Source.whole_cuts (bs : Bytes) : (whole bs).Cuts bs := by
  cases bs with
  | nil => exact .nil
  | cons b bs =>
      have hcuts := Cuts.data b bs .nil
      rw [List.append_nil] at hcuts
      exact hcuts

theorem Source.whole_waits (bs : Bytes) : (whole bs).waits = 0 := by
  cases bs with
  | nil => rfl
  | cons b bs => rfl

/-- Calls that do not skip are polled while they are pending, any number of them, and are then dropped. -/
inductive Reader.Dropped : Reader → Reader → Prop where
  | none (r : Reader) : Dropped r r
  | pending {r r' r'' : Reader} {c c' : Call} : c.isSkip = false →
      c.poll r = (.error .pending, c', r') → Dropped r' r'' → Dropped r r''

/-- Calls that are dropped lose no byte. -/
theorem Reader.Dropped.inFrontOf {r' : Reader} (hdropped : r.Dropped r') (h : r.InFrontOf bs) :
    r'.InFrontOf bs ∧ r'.waits ≤ r.waits := by
  induction hdropped with
  | none r => exact ⟨h, Nat.le_refl _⟩
  | @pending r r' r'' c c' hskip hpoll _ ih =>
      have hpolled := c.poll_polled h
      rw [hpoll] at hpolled
      cases hpolled with
      | pending _ hfront hlt hsame =>
          rw [(hsame hskip).2] at hfront
          obtain ⟨hfront', hwaits⟩ := ih hfront
          exact ⟨hfront', Nat.le_of_lt (Nat.lt_of_le_of_lt hwaits hlt)⟩

/-- What calls come to on a reader that has these bytes in front of it. -/
structure Reader.Faithful (polls : Nat) (r : Reader) (bs : Bytes) : Prop where
  inFront : r.InFrontOf bs
  /-- A value that may be missing is missing exactly if no byte is left. -/
  missing_iff : ∀ t, (∃ r', (Call.decodeMaybe t).settle polls r = some (.ok .ended, r')) ↔ bs = []
  /-- What is short is so only at the end of the stream. -/
  short_at_end : ∀ (c : Call) (r' : Reader),
    c.settle polls r = some (.error (.decode .short), r') → r'.source = []
  /-- A call that fails leaves all bytes, but one that skips leaves none. -/
  left_by_failure : ∀ (c : Call) (e : TransportError) (r' : Reader),
    c.settle polls r = some (.error e, r') → r'.InFrontOf (if c.isSkip then [] else bs)
  /-- Pending calls can be dropped, unless they skip: calls after them answer as they do without them. -/
  droppable : ∀ r', r.Dropped r' → r'.InFrontOf bs ∧
    ∀ calls, (settleAll polls calls r').map Prod.fst = (settleAll polls calls r).map Prod.fst

theorem Reader.faithful {polls : Nat} (hpolls : r.waits < polls) (h : r.InFrontOf bs) :
    r.Faithful polls bs := by
  -- what a call has come to is what the bytes say of it
  have hsettled : ∀ {c : Call} {answer : Except TransportError Reply} {r' : Reader},
      c.settle polls r = some (answer, r') → (c.onBytes bs).1 = answer ∧
        r'.InFrontOf (c.onBytes bs).2 ∧ (answer = .error (.decode .short) → r'.source = []) := by
    intro c answer r' hsettle
    obtain ⟨r'', hsettle', hfront, -, hend⟩ := c.settle_eq hpolls h
    obtain ⟨rfl, rfl⟩ := Prod.mk.inj (Option.some.inj (hsettle'.symm.trans hsettle))
    exact ⟨rfl, hfront, hend⟩
  refine ⟨h, fun t => ⟨?_, fun hnil => ?_⟩, fun c r' hsettle => (hsettled hsettle).2.2 rfl, ?_, ?_⟩
  · rintro ⟨r', hsettle⟩
    exact Call.decodeMaybe_ended_iff.mp (hsettled hsettle).1
  · obtain ⟨r', hsettle, -⟩ := (Call.decodeMaybe t).settle_eq hpolls h
    rw [Call.decodeMaybe_ended_iff.mpr hnil] at hsettle
    exact ⟨r', hsettle⟩
  · intro c e r' hsettle
    obtain ⟨hon, hfront, -⟩ := hsettled hsettle
    rw [Call.onBytes_error hon] at hfront
    exact hfront
  · intro r' hdropped
    obtain ⟨hfront, hwaits⟩ := hdropped.inFrontOf h
    refine ⟨hfront, fun calls => ?_⟩
    obtain ⟨_, hanswers, -⟩ := settleAll_eq calls (Nat.lt_of_le_of_lt hwaits hpolls) hfront
    obtain ⟨_, hanswers', -⟩ := settleAll_eq calls hpolls h
    rw [hanswers, hanswers']
    rfl

/-- **Reading does not depend on how bytes arrive.** Bytes are cut into blocks with waits between them,
    and calls are made one after the other, each polled until it is over. They all come to an end, they
    answer as they do when the bytes arrive at once, and the reader then stands in front of what is left. -/
theorem reading_does_not_depend_on_arrival {source : Source} (h : source.Cuts bs) {polls : Nat}
    (hpolls : source.waits < polls) (calls : List Call) :
    ∃ r r' : Reader, settleAll polls calls (.ofSource source) = some ((answersOn calls bs).1, r) ∧
      settleAll 1 calls (.ofSource (.whole bs)) = some ((answersOn calls bs).1, r') ∧
      r.Faithful polls (answersOn calls bs).2 := by
  obtain ⟨r, hcut, hfront, hwaits⟩ := settleAll_eq calls hpolls (Reader.inFrontOf_ofSource h)
  have hwhole : (Reader.ofSource (.whole bs)).waits < 1 := by
    rw [Reader.waits, Reader.ofSource, Source.whole_waits]
    exact Nat.one_pos
  obtain ⟨r', honce, -⟩ :=
    settleAll_eq calls hwhole (Reader.inFrontOf_ofSource (Source.whole_cuts bs))
  exact ⟨r, r', hcut, honce, Reader.faithful (Nat.lt_of_le_of_lt hwaits hpolls) hfront⟩

/-- Four bytes in three blocks behind two waits. A word is looked at and taken although it is cut in two.
    An octet that is no flag stays, and so does it when the end is expected; it can still be taken as it
    is. Passing over more than is left takes what is left, and then there is no octet. -/
theorem reading_does_not_depend_on_arrival_in_blocks :
    ∃ r r' : Reader,
      settleAll 3 [.peek .word, .decode .word, .decode .flag, .closed, .readExact 1, .skip 4,
        .decodeMaybe .octet] (.ofSource [.wait, .data [1], .wait, .data [2, 5], .data [9]]) =
        some ([.ok (.value .word (258 : UInt16)), .ok (.value .word (258 : UInt16)),
          .error (.decode .invalidValue), .error (.decode .expectedEnd), .ok (.bytes [5]),
          .error (.decode .short), .ok .ended], r) ∧
      settleAll 1 [.peek .word, .decode .word, .decode .flag, .closed, .readExact 1, .skip 4,
        .decodeMaybe .octet] (.ofSource [.data [1, 2, 5, 9]]) =
        some ([.ok (.value .word (258 : UInt16)), .ok (.value .word (258 : UInt16)),
          .error (.decode .invalidValue), .error (.decode .expectedEnd), .ok (.bytes [5]),
          .error (.decode .short), .ok .ended], r') ∧
      r.Faithful 3 [] := by
  have hcuts : Source.Cuts [.wait, .data [1], .wait, .data [2, 5], .data [9]] [1, 2, 5, 9] :=
    .wait (.data 1 [] (.wait (.data 2 [5] (.data 9 [] .nil))))
  exact reading_does_not_depend_on_arrival hcuts (Nat.lt_succ_self 2)
    [.peek .word, .decode .word, .decode .flag, .closed, .readExact 1, .skip 4, .decodeMaybe .octet]

end LiveMedia.Stream
