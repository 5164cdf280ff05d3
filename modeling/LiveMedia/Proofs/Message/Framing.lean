import LiveMedia.Proofs.Message.Incremental
import LiveMedia.Proofs.Wire.Primitive

/-!
# A message never disturbs its neighbours

A complete envelope stands at the front of some bytes (`Envelope.Spelled`). Whichever way it is read, as an
envelope, as any control message or as a message of one kind, exactly the envelope is consumed, whether
that succeeds or fails, and what comes of it depends on the ID and the body alone. Nobody asks for more
bytes: the body is complete, so one that ends inside a field is wrong and not early.

The ways agree, because each of them reads the envelope first and then the body by the same form. `Known`
lists the six forms, and what is said of the body of one holds of any form whose fields may be read as they
arrive (`Incremental`): a body is a message exactly if the fields use it up (`MessageForm.Fills`), a front
of such a body lacks data, and such a body with more behind it is too long.
-/

namespace LiveMedia.Message

open LiveMedia.Wire

-- ── envelopes ───────────────────────────────────────────────────────

/-- The bytes are the whole envelope: the ID in any length that a number may have, the size in two bytes,
    and the body. -/
inductive Envelope.Spelled (e : Envelope) : Bytes → Prop where
  | mk {id : Bytes} : decodeCompact.run id = (.ok e.id, []) → e.body.length ≤ Envelope.bodyLimit →
      Spelled e (id ++ (bigEndian 2 e.body.length ++ e.body))

namespace Envelope

variable {e : Envelope} {bs : Bytes}

/-- **The envelope is consumed and nothing else.** -/
theorem Spelled.run_eq (h : e.Spelled bs) (rest : Bytes) : decode.run (bs ++ rest) = (.ok e, rest) := by
  cases h with
  | @mk id hid hbody =>
      have hword : (UInt16.ofNat e.body.length).toNat = e.body.length :=
        UInt16.toNat_ofNat_of_lt (Nat.lt_succ_of_le hbody)
      have hsize : decodeWord.run (bigEndian 2 e.body.length ++ (e.body ++ rest)) =
          (.ok (UInt16.ofNat e.body.length), e.body ++ rest) := by
        have hencode : encodeWord (UInt16.ofNat e.body.length) = .ok (bigEndian 2 e.body.length) := by
          rw [encodeWord, hword]
        exact inverts_word _ _ hencode _
      have hfirst := Incremental.compact.extend hid (fun hshort => by cases hshort)
        (bigEndian 2 e.body.length ++ (e.body ++ rest))
      rw [List.nil_append] at hfirst
      rw [List.append_assoc, List.append_assoc, decode, Decoder.run_bind_ok hfirst,
        Decoder.run_bind_ok hsize, hword]
      exact Decoder.run_bind_ok (Decoder.run_take_append e.body rest)

end Envelope

-- ── bodies ──────────────────────────────────────────────────────────

namespace MessageForm

variable {α : Type} {f : MessageForm α} {a : α} {body : Bytes}

/-- The fields of a message use up the body. -/
def Fills (f : MessageForm α) (a : α) (body : Bytes) : Prop := f.decodeBody.run body = (.ok a, [])

/-- The body ends inside a field. -/
def EndsInside (f : MessageForm α) (body : Bytes) : Prop := (f.decodeBody.run body).1 = .error .short

theorem parseBody_of_fills (h : f.Fills a body) : f.parseBody body = .ok a := by
  have hfields : f.decodeBody body = (.ok a, []) := h
  rw [parseBody, hfields]

theorem parseBody_of_rest {rest : Bytes} (h : f.decodeBody.run body = (.ok a, rest))
    (hrest : rest ≠ []) : f.parseBody body = .error .long := by
  have hfields : f.decodeBody body = (.ok a, rest) := h
  obtain ⟨b, more, rfl⟩ := List.exists_cons_of_ne_nil hrest
  rw [parseBody, hfields]

theorem parseBody_of_endsInside (h : f.EndsInside body) : f.parseBody body = .error .expectedData := by
  have hfields : f.decodeBody body = (.error .short, (f.decodeBody.run body).2) := Prod.ext h rfl
  rw [parseBody, hfields]

theorem parseBody_of_error {e : DecodeError} (h : (f.decodeBody.run body).1 = .error e)
    (he : e ≠ .short) : f.parseBody body = .error e := by
  have hfields : f.decodeBody body = (.error e, (f.decodeBody.run body).2) := Prod.ext h rfl
  rw [parseBody, hfields]
  cases e with
  | short => exact absurd rfl he
  | _ => rfl

/-- **A body is a message exactly if its fields use it up.** -/
theorem parseBody_eq_ok_iff : f.parseBody body = .ok a ↔ f.Fills a body := by
  constructor
  · intro h
    cases hrun : f.decodeBody.run body with
    | mk r rest =>
        cases r with
        | ok a' =>
            by_cases hrest : rest = []
            · subst hrest
              rw [parseBody_of_fills hrun] at h
              obtain rfl := Except.ok.inj h
              exact hrun
            · rw [parseBody_of_rest hrun hrest] at h
              cases h
        | error e =>
            have hfst : (f.decodeBody.run body).1 = .error e := congrArg Prod.fst hrun
            by_cases he : e = .short
            · subst he
              rw [parseBody_of_endsInside hfst] at h
              cases h
            · rw [parseBody_of_error hfst he] at h
              cases h
  · exact parseBody_of_fills

/-- Nobody asks for more bytes of a body. -/
theorem parseBody_ne_short (f : MessageForm α) (body : Bytes) : f.parseBody body ≠ .error .short := by
  rw [parseBody]
  split
  · intro h
    cases h
  · intro h
    cases h
  · intro h
    cases h
  · next hne _ =>
    intro h
    exact hne (Except.error.inj h)

/-- A body that is used up is too long with anything behind it. -/
theorem Fills.long (hd : Incremental f.decodeBody) (h : f.Fills a body) {back : Bytes}
    (hback : back ≠ []) : f.parseBody (body ++ back) = .error .long := by
  have hrun : f.decodeBody.run (body ++ back) = (.ok a, back) :=
    hd.extend h (fun hshort => by cases hshort) back
  exact parseBody_of_rest hrun hback

/-- A proper front of a body that is used up ends inside a field. -/
theorem Fills.endsInside (hd : Incremental f.decodeBody) {more : Bytes} (h : f.Fills a (body ++ more))
    (hmore : more ≠ []) : f.EndsInside body := hd.short_of_lt h hmore

end MessageForm

-- ── the six kinds ───────────────────────────────────────────────────

theorem Fetch.incremental_body : Incremental Fetch.decodeBody :=
  RequestId.incremental.bind fun _ => Incremental.octet.bind fun _ => GroupOrder.incremental.bind fun _ =>
    FetchRange.incremental.bind fun _ => Parameters.incremental.map _

theorem FetchCancel.incremental_body : Incremental FetchCancel.decodeBody := RequestId.incremental.map _

theorem FetchOk.incremental_body : Incremental FetchOk.decodeBody :=
  RequestId.incremental.bind fun _ => GroupOrder.incremental.bind fun _ => Incremental.flag.bind fun _ =>
    Location.incremental.bind fun _ => Parameters.incremental.map _

theorem FetchError.incremental_body : Incremental FetchError.decodeBody :=
  RequestId.incremental.bind fun _ => Incremental.compact.bind fun _ => Incremental.text.map _

theorem incremental_counter : Incremental decodeCounter := Incremental.compact.map _

/-- The forms of the six kinds of messages, each with the control message that it makes. -/
inductive Known : {α : Type} → MessageForm α → (α → ControlMessage) → Prop where
  | fetch : Known Fetch.form .fetch
  | fetchCancel : Known FetchCancel.form .fetchCancel
  | fetchOk : Known FetchOk.form .fetchOk
  | fetchError : Known FetchError.form .fetchError
  | maxRequestId : Known MaxRequestId.form .maxRequestId
  | requestsBlocked : Known RequestsBlocked.form .requestsBlocked

namespace Known

variable {α : Type} {f : MessageForm α} {kind : α → ControlMessage}

/-- The fields of every kind may be read as they arrive. -/
theorem incremental (h : Known f kind) : Incremental f.decodeBody := by
  cases h with
  | fetch => exact Fetch.incremental_body
  | fetchCancel => exact FetchCancel.incremental_body
  | fetchOk => exact FetchOk.incremental_body
  | fetchError => exact FetchError.incremental_body
  | maxRequestId => exact incremental_counter.map _
  | requestsBlocked => exact incremental_counter.map _

/-- The ID names the form by which the body is parsed. -/
theorem parse_eq (h : Known f kind) {e : Envelope} (he : e.id = f.id) :
    e.parse = (f.parseBody e.body).map kind := by
  obtain ⟨id, body⟩ := e
  obtain rfl : id = f.id := he
  cases h <;> rfl

end Known

theorem Envelope.parse_of_unknown {e : Envelope}
    (h : ∀ (α : Type) (f : MessageForm α) (kind : α → ControlMessage), Known f kind → e.id ≠ f.id) :
    e.parse = .error (.unknownType e.id) := by
  rw [parse, if_neg (h _ _ _ .fetch), if_neg (h _ _ _ .fetchCancel), if_neg (h _ _ _ .fetchOk),
    if_neg (h _ _ _ .fetchError), if_neg (h _ _ _ .maxRequestId), if_neg (h _ _ _ .requestsBlocked)]

theorem Envelope.parse_ne_short (e : Envelope) : e.parse ≠ .error .short := by
  by_cases h : ∃ (α : Type) (f : MessageForm α) (kind : α → ControlMessage), Known f kind ∧ e.id = f.id
  · obtain ⟨α, f, kind, hknown, hid⟩ := h
    have hne := f.parseBody_ne_short e.body
    rw [hknown.parse_eq hid]
    cases hparse : f.parseBody e.body with
    | ok a =>
        intro heq
        cases heq
    | error err =>
        intro heq
        exact hne (hparse.trans (congrArg _ (Except.error.inj heq)))
  · have hunknown : e.parse = .error (.unknownType e.id) :=
      parse_of_unknown fun α f kind hknown hid => h ⟨α, f, kind, hknown, hid⟩
    rw [hunknown]
    intro heq
    cases heq

-- ── reading ─────────────────────────────────────────────────────────

section Reading

variable {e : Envelope} {bs : Bytes}

theorem MessageForm.run_of_spelled {α : Type} (f : MessageForm α) (h : e.Spelled bs) (rest : Bytes) :
    f.decode.run (bs ++ rest) =
      (if e.id = f.id then f.parseBody e.body else .error (.unknownType e.id), rest) := by
  rw [MessageForm.decode, Decoder.run_bind_ok (h.run_eq rest)]
  by_cases hid : e.id = f.id
  · rw [if_pos hid, if_pos hid]
    cases f.parseBody e.body <;> rfl
  · rw [if_neg hid, if_neg hid]
    rfl

theorem ControlMessage.run_of_spelled (h : e.Spelled bs) (rest : Bytes) :
    ControlMessage.decode.run (bs ++ rest) = (e.parse, rest) := by
  rw [ControlMessage.decode, Decoder.run_bind_ok (h.run_eq rest)]
  cases e.parse <;> rfl

end Reading

/-- **A message never disturbs its neighbours.** A complete envelope with any bytes behind it:

    * read as an envelope, as any control message or as a message of one kind it is consumed, and nothing
      of what is behind it, and what comes of it is told by the ID and the body;
    * nobody asks for more bytes;
    * by the kind that the ID names, a control message and a message of that kind are the same or fail
      alike. A message comes of a body exactly if the fields use it up; a body that ends inside a field, as
      each proper front of such a body does, lacks data; one with more behind the fields is too long; and
      any other error is that of the fields;
    * an ID that names no kind is an unknown type. -/
theorem messages_keep_to_their_envelopes {e : Envelope} {bs : Bytes} (h : e.Spelled bs) :
    (∀ rest, Envelope.decode.run (bs ++ rest) = (.ok e, rest) ∧
      ControlMessage.decode.run (bs ++ rest) = (e.parse, rest) ∧
      ∀ (α : Type) (f : MessageForm α), f.decode.run (bs ++ rest) =
        (if e.id = f.id then f.parseBody e.body else .error (.unknownType e.id), rest)) ∧
    (e.parse ≠ .error .short ∧
      ∀ (α : Type) (f : MessageForm α), f.parseBody e.body ≠ .error .short) ∧
    (∀ (α : Type) (f : MessageForm α) (kind : α → ControlMessage), Known f kind → e.id = f.id →
      e.parse = (f.parseBody e.body).map kind ∧
      (∀ a, f.parseBody e.body = .ok a ↔ f.Fills a e.body) ∧
      (f.EndsInside e.body → f.parseBody e.body = .error .expectedData) ∧
      (∀ a more, more ≠ [] → f.Fills a (e.body ++ more) → f.EndsInside e.body) ∧
      (∀ a front back, e.body = front ++ back → back ≠ [] → f.Fills a front →
        f.parseBody e.body = .error .long) ∧
      ∀ err, (f.decodeBody.run e.body).1 = .error err → err ≠ .short →
        f.parseBody e.body = .error err) ∧
    ((∀ (α : Type) (f : MessageForm α) (kind : α → ControlMessage), Known f kind → e.id ≠ f.id) →
      e.parse = .error (.unknownType e.id)) := by
  refine ⟨fun rest => ⟨h.run_eq rest, ControlMessage.run_of_spelled h rest, ?_⟩, ⟨e.parse_ne_short, ?_⟩,
    ?_, Envelope.parse_of_unknown⟩
  · intro α f
    exact f.run_of_spelled h rest
  · intro α f
    exact f.parseBody_ne_short e.body
  · intro α f kind hknown hid
    refine ⟨hknown.parse_eq hid, fun _ => MessageForm.parseBody_eq_ok_iff,
      MessageForm.parseBody_of_endsInside, ?_, ?_, fun _ => MessageForm.parseBody_of_error⟩
    · intro a more hmore hfills
      exact hfills.endsInside hknown.incremental hmore
    · intro a front back hbody hback hfills
      rw [hbody]
      exact hfills.long hknown.incremental hback

/-- A canceled fetch with a byte too many, its ID written in two bytes, and the beginning of the next
    message behind it. -/
theorem messages_keep_to_their_envelopes_long :
    Envelope.Spelled ⟨0x17, [4, 255]⟩ [64, 0x17, 0, 2, 4, 255] ∧
      ControlMessage.decode.run ([64, 0x17, 0, 2, 4, 255] ++ [0x17, 0]) = (.error .long, [0x17, 0]) ∧
      FetchCancel.form.decode.run ([64, 0x17, 0, 2, 4, 255] ++ [0x17, 0]) =
        (.error .long, [0x17, 0]) := by
  have hid : decodeCompact.run [64, 0x17] = (.ok 0x17, []) := rfl
  have hbody : ([4, 255] : Bytes).length ≤ Envelope.bodyLimit := by decide
  have hspelled : Envelope.Spelled ⟨0x17, [4, 255]⟩ [64, 0x17, 0, 2, 4, 255] :=
    @Envelope.Spelled.mk ⟨0x17, [4, 255]⟩ _ hid hbody
  obtain ⟨hruns, -, hkinds, -⟩ := messages_keep_to_their_envelopes hspelled
  obtain ⟨-, hcontrol, hforms⟩ := hruns [0x17, 0]
  obtain ⟨hparse, -, -, -, hlong, -⟩ := hkinds _ _ _ .fetchCancel rfl
  have hfails := hlong ⟨⟨4⟩⟩ [4] [255] rfl (by decide) rfl
  refine ⟨hspelled, ?_, ?_⟩
  · rw [hcontrol, hparse, hfails]
    rfl
  · rw [hforms, hfails]
    rfl

end LiveMedia.Message
