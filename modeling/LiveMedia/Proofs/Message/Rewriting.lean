import LiveMedia.Proofs.Message.Framing
import LiveMedia.Proofs.Message.RoundTrip
import LiveMedia.Proofs.Wire.Rewriting

/-!
# Whatever was received can be sent on

A control message that is read from any bytes can be written, and it takes no more bytes than it was read
from. So a relay may pass on what it has understood, and needs no more room for it. The bytes need not be
those that this side would have written: integers may stand in longer forms than they need, and the
parameters behind a fetch, which are read and dropped, may be many.

Every field is written in its shortest form, so the body is not longer than the one that was received
(`Rewrites`). That body was in an envelope, so the new one fits into an envelope too.
-/

namespace LiveMedia.Message

open LiveMedia.Wire

-- ── fields ──────────────────────────────────────────────────────────

/-- The decoder has checked the number of parts against the limit of the encoder. -/
theorem Namespace.rewrites : Rewrites decode encode := by
  refine .first (.read rewrites_compact fun count _ => .ite (fun hcount => ?_) fun _ => .fail _)
  refine .last (rewrites_replicate rewrites_text count) fun parts hparts => ?_
  have hlength := length_of_reads_replicate hparts
  rw [encode_eq, hlength, if_pos hcount, Encoded.nil_append]

theorem Location.rewrites : Rewrites decode encode := by
  refine .first (.read rewrites_wide fun group _ => .last rewrites_wide fun object _ => ?_)
  rw [encode_eq, Encoded.nil_append]

/-- An octet that stands for an order is the octet of that order. -/
theorem GroupOrder.toOctet_of_ofOctet? {b : UInt8} {o : GroupOrder} (h : ofOctet? b = some o) :
    o.toOctet = b := by
  unfold ofOctet? at h
  split at h
  · next hb =>
    obtain rfl := Option.some.inj h
    exact hb.symm
  · split at h
    · next hb =>
      obtain rfl := Option.some.inj h
      exact hb.symm
    · split at h
      · next hb =>
        obtain rfl := Option.some.inj h
        exact hb.symm
      · cases h

theorem GroupOrder.rewrites : Rewrites decode encode := by
  refine .first (.read rewrites_octet fun b _ => ?_)
  rw [Encoded.nil_append]
  cases horder : ofOctet? b with
  | none => exact .fail _
  | some o => exact .done (congrArg encodeOctet (toOctet_of_ofOctet? horder))

theorem RequestId.rewrites : Rewrites decode encode := rewrites_wide.map fun _ _ => rfl

theorem rewrites_counter : Rewrites decodeCounter encodeCounter := rewrites_compact.map fun _ _ => rfl

/-- The type is written in one byte, in however many it was read. -/
theorem FetchRange.rewrites : Rewrites decode encode := by
  refine .first (.read rewrites_compact fun type _ => ?_)
  split
  · refine .read Namespace.rewrites fun space _ => .read rewrites_text fun track _ =>
      .read Location.rewrites fun start _ => .last Location.rewrites fun stop _ => ?_
    rw [encode_standalone]
    simp only [Encoded.append_assoc, Encoded.nil_append]
  · refine .read RequestId.rewrites fun subscription _ => .last rewrites_compact fun groupOffset _ => ?_
    rw [encode_relativeJoining]
    simp only [Encoded.append_assoc, Encoded.nil_append]
  · refine .read RequestId.rewrites fun subscription _ => .last rewrites_compact fun groupId _ => ?_
    rw [encode_absoluteJoining]
    simp only [Encoded.append_assoc, Encoded.nil_append]
  · exact .fail _

/-- Parameters that are dropped are written as none, which takes one byte; their number alone has taken as
    much. -/
theorem Parameters.rewrites_dropped : Rewrites decode fun _ => empty.encode := by
  intro bs rest p h
  obtain ⟨front, rfl, hfront⟩ := incremental.front h
  have hpos : 0 < front.length := by
    refine List.length_pos_iff.mpr ?_
    rintro rfl
    cases hfront
  refine ⟨[0], encode_empty, ?_⟩
  rw [List.length_append, List.length_singleton]
  omega

-- ── bodies ──────────────────────────────────────────────────────────

theorem Fetch.rewrites : Rewrites decodeBody encodeBody := by
  refine .first (.read RequestId.rewrites fun requestId _ => .read rewrites_octet fun priority _ =>
    .read GroupOrder.rewrites fun order _ => .read FetchRange.rewrites fun range _ =>
      .last Parameters.rewrites_dropped fun _ _ => ?_)
  rw [encodeBody_eq]
  simp only [Encoded.append_assoc, Encoded.nil_append]

theorem FetchOk.rewrites : Rewrites decodeBody encodeBody := by
  refine .first (.read RequestId.rewrites fun requestId _ => .read GroupOrder.rewrites fun order _ =>
    .read rewrites_flag fun endOfTrack _ => .read Location.rewrites fun endLocation _ =>
      .last Parameters.rewrites_dropped fun _ _ => ?_)
  rw [encodeBody_eq]
  simp only [Encoded.append_assoc, Encoded.nil_append]

theorem FetchError.rewrites : Rewrites decodeBody encodeBody := by
  refine .first (.read RequestId.rewrites fun requestId _ => .read rewrites_compact fun errorCode _ =>
    .last rewrites_text fun reason _ => ?_)
  rw [encodeBody_eq]
  simp only [Encoded.append_assoc, Encoded.nil_append]

/-- The fields of every kind can be written again. -/
theorem Known.rewrites {α : Type} {f : MessageForm α} {kind : α → ControlMessage} (h : Known f kind) :
    Rewrites f.decodeBody f.encodeBody := by
  cases h with
  | fetch => exact Fetch.rewrites
  | fetchCancel => exact RequestId.rewrites.map fun _ _ => rfl
  | fetchOk => exact FetchOk.rewrites
  | fetchError => exact FetchError.rewrites
  | maxRequestId => exact rewrites_counter.map fun _ _ => rfl
  | requestsBlocked => exact rewrites_counter.map fun _ _ => rfl

-- ── envelopes ───────────────────────────────────────────────────────

namespace Envelope

theorem rewrites : Rewrites decode encode := by
  refine .first (.read rewrites_compact fun id _ => .read rewrites_word fun size _ =>
    .last (rewrites_take size.toNat) fun body hbody => ?_)
  have hlength : body.length = size.toNat := length_of_reads_take hbody
  have hlimit : body.length ≤ bodyLimit := hlength ▸ Nat.le_of_lt_succ size.toNat_lt
  rw [encode_eq, if_pos hlimit, hlength, UInt16.ofNat_toNat]
  simp only [Encoded.append_assoc, Encoded.nil_append]

theorem sized (e : Envelope) : Sized e.encode (Varint.size ⟨e.id⟩ + (2 + e.body.length)) := by
  rw [encode_eq]
  refine sized_ite fun _ => (sized_compact e.id).append (Sized.append ?_ (sized_ok e.body))
  exact length_bigEndian 2 _ ▸ sized_ok _

/-- A body that is not longer fits into the envelope as well. -/
theorem exists_encode {e : Envelope} {wire body : Bytes} (h : e.encode = .ok wire)
    (hbody : body.length ≤ e.body.length) :
    ∃ out, Envelope.encode ⟨e.id, body⟩ = .ok out ∧ out.length ≤ wire.length := by
  have hfits : ¬ e.Exceeds := fun hexceeds => not_fails_ok wire (h ▸ e.fails_iff.mpr hexceeds)
  have hfits' : ¬ Exceeds ⟨e.id, body⟩ := by
    rintro (hid | hlong)
    · exact hfits (.inl hid)
    · exact hfits (.inr (Nat.lt_of_lt_of_le hlong hbody))
  obtain ⟨out, hout⟩ := exists_ok_of_not_fails (mt (fails_iff ⟨e.id, body⟩).mp hfits')
  refine ⟨out, hout, ?_⟩
  rw [sized ⟨e.id, body⟩ out hout, e.sized wire h]
  exact Nat.add_le_add_left (Nat.add_le_add_left hbody 2) _

end Envelope

-- ── messages ────────────────────────────────────────────────────────

namespace Known

variable {α : Type} {f : MessageForm α} {kind : α → ControlMessage}

theorem encode_eq (h : Known f kind) (a : α) : (kind a).encode = f.encode a := by
  cases h <;> rfl

/-- What was parsed in an envelope is written in one that is not longer. -/
theorem exists_encode (h : Known f kind) {e : Envelope} (he : e.id = f.id) {a : α}
    (hparse : f.parseBody e.body = .ok a) {wire : Bytes} (hwire : e.encode = .ok wire) :
    ∃ out, (kind a).encode = .ok out ∧ out.length ≤ wire.length := by
  have hfills : f.decodeBody.run e.body = (.ok a, []) := MessageForm.parseBody_eq_ok_iff.mp hparse
  obtain ⟨body, hbody, hle⟩ := h.rewrites e.body [] a hfills
  obtain ⟨out, hout, hlength⟩ := Envelope.exists_encode hwire hle
  refine ⟨out, ?_, hlength⟩
  rw [h.encode_eq, MessageForm.encode, hbody, ← he]
  exact hout

end Known

/-- A message that was parsed is of a kind that is known. -/
theorem Envelope.exists_known {e : Envelope} {m : ControlMessage} (h : e.parse = .ok m) :
    ∃ (α : Type) (f : MessageForm α) (kind : α → ControlMessage) (a : α),
      Known f kind ∧ e.id = f.id ∧ f.parseBody e.body = .ok a ∧ kind a = m := by
  by_cases hknown : ∃ (α : Type) (f : MessageForm α) (kind : α → ControlMessage),
      Known f kind ∧ e.id = f.id
  · obtain ⟨α, f, kind, hkind, hid⟩ := hknown
    rw [hkind.parse_eq hid] at h
    cases hparse : f.parseBody e.body with
    | error err =>
        rw [hparse] at h
        cases h
    | ok a =>
        rw [hparse] at h
        exact ⟨α, f, kind, a, hkind, hid, hparse, Except.ok.inj h⟩
  · have hunknown : e.parse = .error (.unknownType e.id) :=
      parse_of_unknown fun α f kind hkind hid => hknown ⟨α, f, kind, hkind, hid⟩
    cases hunknown.symm.trans h

/-- A control message is the parsed body of an envelope. -/
theorem ControlMessage.exists_envelope_of_run {bs rest : Bytes} {m : ControlMessage}
    (h : ControlMessage.decode.run bs = (.ok m, rest)) :
    ∃ e : Envelope, Envelope.decode.run bs = (.ok e, rest) ∧ e.parse = .ok m := by
  cases hrun : Envelope.decode.run bs with
  | mk answer left =>
      cases answer with
      | error err =>
          rw [decode, Decoder.run_bind_error hrun] at h
          cases h
      | ok e =>
          rw [decode, Decoder.run_bind_ok hrun] at h
          cases hparse : e.parse with
          | error err =>
              rw [hparse] at h
              cases h
          | ok m' =>
              rw [hparse] at h
              obtain ⟨hm, rfl⟩ := Prod.mk.inj h
              obtain rfl := Except.ok.inj hm
              exact ⟨e, rfl, hparse⟩

/-- The envelope that was read has room for the body that is written. -/
theorem ControlMessage.rewrites : Rewrites decode encode := by
  intro bs rest m h
  obtain ⟨e, henvelope, hparse⟩ := exists_envelope_of_run h
  obtain ⟨α, f, kind, a, hknown, hid, hbody, rfl⟩ := Envelope.exists_known hparse
  obtain ⟨wire, hwire, hle⟩ := Envelope.rewrites bs rest e henvelope
  obtain ⟨out, hout, hlength⟩ := hknown.exists_encode hid hbody hwire
  exact ⟨out, hout, by omega⟩

/-- **Whatever was received can be sent on.** A control message that is read from `n` bytes, whatever stands
    behind them, is written without an error in at most `n` bytes, and these are read as the same message,
    whatever stands behind them. -/
theorem received_messages_can_be_sent_on (bs : Bytes) (m : ControlMessage) (n : Nat)
    (h : ControlMessage.decode.answer bs = .ok (m, n)) :
    ∃ out, m.encode = .ok out ∧ out.length ≤ n ∧
      ∀ rest, ControlMessage.decode.run (out ++ rest) = (.ok m, rest) := by
  obtain ⟨hn, hrun⟩ := ControlMessage.incremental.run_of_answer h
  obtain ⟨out, hout, hle⟩ := ControlMessage.rewrites bs (bs.drop n) m hrun
  rw [List.length_drop] at hle
  exact ⟨out, hout, by omega, m.inverts out hout⟩

/-- A fetch with its numbers in two bytes and with a parameter behind it. Eighteen bytes of it are read, and
    with the next message behind it, it is read again from ten. -/
theorem received_messages_can_be_sent_on_shorter :
    let m : ControlMessage := .fetch ⟨⟨4⟩, 128, .ascending, .relativeJoining ⟨6⟩ 0⟩
    ControlMessage.decode.answer
        [64, 0x16, 0, 14, 64, 4, 128, 1, 64, 2, 64, 6, 64, 0, 1, 64, 2, 5, 255] = .ok (m, 18) ∧
      m.encode = .ok [0x16, 0, 7, 4, 128, 1, 2, 6, 0, 0] ∧
      ControlMessage.decode.run ([0x16, 0, 7, 4, 128, 1, 2, 6, 0, 0] ++ [0x17, 0]) =
        (.ok m, [0x17, 0]) := by
  intro m
  have hanswer : ControlMessage.decode.answer
      [64, 0x16, 0, 14, 64, 4, 128, 1, 64, 2, 64, 6, 64, 0, 1, 64, 2, 5, 255] = .ok (m, 18) := rfl
  have hencode : m.encode = .ok [0x16, 0, 7, 4, 128, 1, 2, 6, 0, 0] := rfl
  obtain ⟨out, hout, -, hagain⟩ := received_messages_can_be_sent_on _ _ _ hanswer
  obtain rfl := Except.ok.inj (hencode.symm.trans hout)
  exact ⟨hanswer, hencode, hagain [0x17, 0]⟩

end LiveMedia.Message
