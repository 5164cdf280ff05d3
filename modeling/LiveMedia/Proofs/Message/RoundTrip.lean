import LiveMedia.Message.WireType
import LiveMedia.Proofs.Message.Body

/-!
# Round trips of everything that travels

For every wire type, reading what was written gives the value back and leaves what stands behind it, and
the values without a wire form are known exactly: a number exceeds its class, a namespace has too many
parts, a header has a subgroup that its flags deny, or a body is longer than its envelope can tell.

An envelope carries a body as bytes, so a message is read in two steps. What makes them one is that the
body was written to its end: `Described.parseBody` reads it without a rest, and the outer decoder leaves
what follows the envelope. The size of each body is known from its fields (`Described.sized`), so the
bound on bodies is a bound on fields.
-/

namespace LiveMedia.Message

open LiveMedia.Wire LiveMedia.Time

-- ── envelopes ───────────────────────────────────────────────────────

namespace Envelope

/-- The ID is too large, or the body does not fit. -/
def Exceeds (e : Envelope) : Prop := Varint.compactMaximum < e.id ∨ bodyLimit < e.body.length

theorem encode_eq (e : Envelope) :
    e.encode = if e.body.length ≤ bodyLimit
      then Encoded.append (encodeCompact e.id)
        (Encoded.append (encodeWord (UInt16.ofNat e.body.length)) (.ok e.body))
      else .error (.tooLarge e.body.length) := by
  simp only [encode, Encoded.append, bind_assoc, pure_bind]
  rfl

theorem inverts (e : Envelope) : Inverts decode e e.encode := by
  rw [encode_eq]
  refine inverts_ite fun h => (inverts_compact _).andThen ((inverts_word _).andThen ?_)
  have hsize : (UInt16.ofNat e.body.length).toNat = e.body.length :=
    UInt16.toNat_ofNat_of_lt (Nat.lt_succ_of_le h)
  rw [hsize]
  exact (inverts_take e.body).thenPure rfl

theorem fails_iff (e : Envelope) : Fails e.encode ↔ e.Exceeds := by
  rw [encode_eq, fails_ite, fails_append, fails_compact, fails_append,
    or_iff_right (not_fails_word _), or_iff_left (not_fails_ok _), Nat.not_le]
  exact or_comm

theorem ne_nil_of_encode {e : Envelope} {bs : Bytes} (h : e.encode = .ok bs) : bs ≠ [] := by
  rintro rfl
  have hrun : decode.run [] = (.ok e, []) := inverts e [] h []
  cases hrun

end Envelope

-- ── messages in envelopes ───────────────────────────────────────────

section Forms

variable {α : Type} {f : MessageForm α} {exceeds : α → Prop} {bodySize : α → Nat}

/-- A body is read to its end. -/
theorem Described.parseBody (h : Described f.encodeBody f.decodeBody exceeds bodySize) {a : α}
    {body : Bytes} (hbody : f.encodeBody a = .ok body) : f.parseBody body = .ok a := by
  have hrun := h.inverts a body hbody []
  rw [List.append_nil] at hrun
  have happly : f.decodeBody body = (.ok a, []) := hrun
  rw [MessageForm.parseBody, happly]

/-- **A message in its envelope** is read back by any decoder that takes the envelope and then what its
    body was written from. -/
theorem Described.inverts_envelope (h : Described f.encodeBody f.decodeBody exceeds bodySize)
    {β : Type} {k : Envelope → Decoder β} {a : α} {b : β}
    (hk : ∀ body, f.parseBody body = .ok a → k ⟨f.id, body⟩ = pure b) :
    Inverts (Envelope.decode >>= k) b (f.encode a) := by
  rw [MessageForm.encode]
  cases hbody : f.encodeBody a with
  | error e => exact inverts_error _ _ _
  | ok body => exact (Envelope.inverts ⟨f.id, body⟩).thenPure (hk body (h.parseBody hbody))

/-- A message is read back, for its body fills the envelope. -/
theorem Described.inverts_form (h : Described f.encodeBody f.decodeBody exceeds bodySize) (a : α) :
    Inverts f.decode a (f.encode a) := by
  refine h.inverts_envelope fun body hparse => ?_
  rw [if_pos rfl, hparse]

theorem Described.fails_form (h : Described f.encodeBody f.decodeBody exceeds bodySize)
    (hid : f.id ≤ Varint.compactMaximum) (a : α) :
    Fails (f.encode a) ↔ exceeds a ∨ Envelope.bodyLimit < bodySize a := by
  rw [← h.fails_iff]
  rw [MessageForm.encode]
  cases hbody : f.encodeBody a with
  | error e => exact iff_of_true ⟨e, rfl⟩ (Or.inl ⟨e, rfl⟩)
  | ok body =>
      rw [or_iff_right (not_fails_ok body), ← h.sized a body hbody]
      exact (Envelope.fails_iff ⟨f.id, body⟩).trans (or_iff_right (Nat.not_lt_of_le hid))

end Forms

-- ── any control message ─────────────────────────────────────────────

namespace ControlMessage

/-- A field of the message exceeds its class, or its body is too long. -/
def Exceeds : ControlMessage → Prop
  | fetch m => m.Exceeds ∨ Envelope.bodyLimit < m.bodySize
  | fetchCancel m => m.Exceeds ∨ Envelope.bodyLimit < m.bodySize
  | fetchOk m => m.Exceeds ∨ Envelope.bodyLimit < m.bodySize
  | fetchError m => m.Exceeds ∨ Envelope.bodyLimit < m.bodySize
  | maxRequestId m => m.Exceeds ∨ Envelope.bodyLimit < m.bodySize
  | requestsBlocked m => m.Exceeds ∨ Envelope.bodyLimit < m.bodySize

/-- A message of a kind whose ID is told apart is read back as that kind. -/
theorem inverts_kind {α : Type} {f : MessageForm α} {exceeds : α → Prop} {bodySize : α → Nat}
    {kind : α → ControlMessage} (h : Described f.encodeBody f.decodeBody exceeds bodySize)
    (hkind : ∀ body, Envelope.parse ⟨f.id, body⟩ = (f.parseBody body).map kind) (a : α) :
    Inverts decode (kind a) (f.encode a) := by
  refine h.inverts_envelope fun body hparse => ?_
  rw [hkind, hparse]
  rfl

theorem inverts (m : ControlMessage) : Inverts decode m m.encode := by
  cases m with
  | fetch m => exact inverts_kind (f := Fetch.form) Fetch.described (fun _ => rfl) m
  | fetchCancel m => exact inverts_kind (f := FetchCancel.form) FetchCancel.described (fun _ => rfl) m
  | fetchOk m => exact inverts_kind (f := FetchOk.form) FetchOk.described (fun _ => rfl) m
  | fetchError m => exact inverts_kind (f := FetchError.form) FetchError.described (fun _ => rfl) m
  | maxRequestId m =>
      exact inverts_kind (f := MaxRequestId.form) MaxRequestId.described (fun _ => rfl) m
  | requestsBlocked m =>
      exact inverts_kind (f := RequestsBlocked.form) RequestsBlocked.described (fun _ => rfl) m

/-- Messages that are written as the same bytes are the same. -/
theorem eq_of_encode {m m' : ControlMessage} {bs : Bytes} (h : m.encode = .ok bs)
    (h' : m'.encode = .ok bs) : m = m' := by
  have hrun := m.inverts bs h []
  rw [m'.inverts bs h' []] at hrun
  exact (Except.ok.inj (congrArg Prod.fst hrun)).symm

theorem exists_envelope_kind {α : Type} {f : MessageForm α} {exceeds : α → Prop} {bodySize : α → Nat}
    {kind : α → ControlMessage} (h : Described f.encodeBody f.decodeBody exceeds bodySize)
    (hkind : ∀ body, Envelope.parse ⟨f.id, body⟩ = (f.parseBody body).map kind) {a : α} {bs : Bytes}
    (hencode : f.encode a = .ok bs) : ∃ e : Envelope, e.encode = .ok bs ∧ e.parse = .ok (kind a) := by
  rw [MessageForm.encode] at hencode
  cases hbody : f.encodeBody a with
  | error err =>
      rw [hbody] at hencode
      cases hencode
  | ok body =>
      rw [hbody] at hencode
      refine ⟨⟨f.id, body⟩, hencode, ?_⟩
      rw [hkind, h.parseBody hbody]
      rfl

/-- What a message is written as is an envelope, and parsing it gives the message. -/
theorem exists_envelope {m : ControlMessage} {bs : Bytes} (h : m.encode = .ok bs) :
    ∃ e : Envelope, e.encode = .ok bs ∧ e.parse = .ok m := by
  cases m with
  | fetch m => exact exists_envelope_kind Fetch.described (fun _ => rfl) h
  | fetchCancel m => exact exists_envelope_kind FetchCancel.described (fun _ => rfl) h
  | fetchOk m => exact exists_envelope_kind FetchOk.described (fun _ => rfl) h
  | fetchError m => exact exists_envelope_kind FetchError.described (fun _ => rfl) h
  | maxRequestId m => exact exists_envelope_kind MaxRequestId.described (fun _ => rfl) h
  | requestsBlocked m => exact exists_envelope_kind RequestsBlocked.described (fun _ => rfl) h

theorem fails_iff (m : ControlMessage) : Fails m.encode ↔ m.Exceeds := by
  cases m with
  | fetch m => exact Fetch.described.fails_form (f := Fetch.form) (by decide) m
  | fetchCancel m => exact FetchCancel.described.fails_form (f := FetchCancel.form) (by decide) m
  | fetchOk m => exact FetchOk.described.fails_form (f := FetchOk.form) (by decide) m
  | fetchError m => exact FetchError.described.fails_form (f := FetchError.form) (by decide) m
  | maxRequestId m => exact MaxRequestId.described.fails_form (f := MaxRequestId.form) (by decide) m
  | requestsBlocked m =>
      exact RequestsBlocked.described.fails_form (f := RequestsBlocked.form) (by decide) m

end ControlMessage

-- ── every wire type ─────────────────────────────────────────────────

namespace WireType

/-- Parameters, or optional ones. -/
def holdsParameters : WireType → Bool
  | parameters => true
  | optional t => t.holdsParameters
  | _ => false

/-- Variable-length integers and times are at most the largest of the wide class, as their constructors
    keep them. -/
def InRange : (t : WireType) → t.Value → Prop
  | varint, (v : Varint) => v.val ≤ Varint.maximum
  | time _, (t : Timescale _) => t.ticks.val ≤ Varint.maximum
  | optional t, (v : Option t.Value) => ∀ a, v = some a → t.InRange a
  | _, _ => True

/-- The values that have no wire form. -/
def Exceeds : (t : WireType) → t.Value → Prop
  | compact, (n : Nat) => Varint.compactMaximum < n
  | text, (s : String) => Varint.compactMaximum < s.utf8ByteSize
  | bytes, (bs : Bytes) => Varint.compactMaximum < bs.length
  | optional t, (v : Option t.Value) => ∃ a, v = some a ∧ t.Exceeds a
  | space, (ns : Namespace) => ns.Exceeds
  | location, (l : Location) => l.Exceeds
  | requestId, (id : RequestId) => Varint.maximum < id.val
  | groupHeader, (h : GroupHeader) => h.Exceeds
  | fetchRange, (r : FetchRange) => r.Exceeds
  | envelope, (e : Envelope) => e.Exceeds
  | fetch, (m : Fetch) => ControlMessage.Exceeds (.fetch m)
  | fetchCancel, (m : FetchCancel) => ControlMessage.Exceeds (.fetchCancel m)
  | fetchOk, (m : FetchOk) => ControlMessage.Exceeds (.fetchOk m)
  | fetchError, (m : FetchError) => ControlMessage.Exceeds (.fetchError m)
  | maxRequestId, (m : MaxRequestId) => ControlMessage.Exceeds (.maxRequestId m)
  | requestsBlocked, (m : RequestsBlocked) => ControlMessage.Exceeds (.requestsBlocked m)
  | control, (m : ControlMessage) => m.Exceeds
  | _, _ => False

theorem inverts (t : WireType) (ht : t.holdsParameters = false) (v : t.Value) (hv : t.InRange v) :
    Inverts t.codec.decode v (t.codec.encode v) := by
  induction t with
  | flag => exact inverts_flag v
  | octet => exact inverts_octet v
  | word => exact inverts_word v
  | compact => exact inverts_compact v
  | varint => exact Varint.inverts hv
  | text => exact inverts_text v
  | bytes => exact inverts_bytes v
  | optional t ih => exact inverts_optional fun a ha => ih ht a (hv a ha)
  | space => exact Namespace.inverts v
  | location => exact Location.inverts v
  | groupOrder => exact GroupOrder.inverts v
  | requestId => exact RequestId.inverts v
  | time scale => exact (Varint.inverts hv).thenPure rfl
  | groupHeader => exact GroupHeader.inverts v
  | fetchRange => exact FetchRange.inverts v
  | parameters => exact Bool.noConfusion ht
  | envelope => exact Envelope.inverts v
  | fetch => exact Fetch.described.inverts_form (f := Fetch.form) v
  | fetchCancel => exact FetchCancel.described.inverts_form (f := FetchCancel.form) v
  | fetchOk => exact FetchOk.described.inverts_form (f := FetchOk.form) v
  | fetchError => exact FetchError.described.inverts_form (f := FetchError.form) v
  | maxRequestId => exact MaxRequestId.described.inverts_form (f := MaxRequestId.form) v
  | requestsBlocked => exact RequestsBlocked.described.inverts_form (f := RequestsBlocked.form) v
  | control => exact ControlMessage.inverts v

theorem fails_iff (t : WireType) (ht : t.holdsParameters = false) (v : t.Value) :
    Fails (t.codec.encode v) ↔ t.Exceeds v := by
  induction t with
  | flag => exact iff_of_false (not_fails_flag v) id
  | octet => exact iff_of_false (not_fails_octet v) id
  | word => exact iff_of_false (not_fails_word v) id
  | compact => exact fails_compact v
  | varint => exact iff_of_false (not_fails_ok _) id
  | text => exact fails_text v
  | bytes => exact fails_bytes v
  | optional t ih =>
      refine (fails_optional v).trans ?_
      exact exists_congr fun a => and_congr_right fun _ => ih ht a
  | space => exact Namespace.fails_iff v
  | location => exact Location.fails_iff v
  | groupOrder => exact iff_of_false (GroupOrder.not_fails v) id
  | requestId => exact RequestId.fails_iff v
  | time scale => exact iff_of_false (not_fails_ok _) id
  | groupHeader => exact GroupHeader.fails_iff v
  | fetchRange => exact FetchRange.fails_iff v
  | parameters => exact Bool.noConfusion ht
  | envelope => exact Envelope.fails_iff v
  | fetch => exact ControlMessage.fails_iff (.fetch v)
  | fetchCancel => exact ControlMessage.fails_iff (.fetchCancel v)
  | fetchOk => exact ControlMessage.fails_iff (.fetchOk v)
  | fetchError => exact ControlMessage.fails_iff (.fetchError v)
  | maxRequestId => exact ControlMessage.fails_iff (.maxRequestId v)
  | requestsBlocked => exact ControlMessage.fails_iff (.requestsBlocked v)
  | control => exact ControlMessage.fails_iff v

/-- **Round trip.** For every wire type, with any bytes behind it: what was written is read back as the
    same value and nothing of what follows is taken. Writing fails for exactly the values of `Exceeds`. -/
theorem round_trip (t : WireType) (ht : t.holdsParameters = false) (v : t.Value) (hv : t.InRange v) :
    (∀ bs, t.codec.encode v = .ok bs → ∀ rest, t.codec.decode.run (bs ++ rest) = (.ok v, rest)) ∧
      ((∃ e, t.codec.encode v = .error e) ↔ t.Exceeds v) :=
  ⟨t.inverts ht v hv, t.fails_iff ht v⟩

/-- An optional time at the end of its range, with a byte behind it. -/
theorem round_trip_last :
    (optional (time 1000000)).codec.decode.run
        (1 :: 255 :: 255 :: 255 :: 255 :: 255 :: 255 :: 255 :: 255 :: 7 :: []) =
      (.ok (some ⟨⟨Varint.maximum⟩⟩), [7]) ∧
    ¬ ∃ e, (optional (time 1000000)).codec.encode (some ⟨⟨Varint.maximum⟩⟩) = .error e := by
  have hlast := round_trip (optional (time 1000000)) rfl (some ⟨⟨Varint.maximum⟩⟩) (by
    intro a ha
    obtain rfl := Option.some.inj ha
    exact Nat.le_refl _)
  refine ⟨hlast.1 _ rfl [7], ?_⟩
  rw [hlast.2]
  rintro ⟨a, -, ha⟩
  exact ha

end WireType

end LiveMedia.Message
