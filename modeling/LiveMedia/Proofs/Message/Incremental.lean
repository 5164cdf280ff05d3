import LiveMedia.Message.WireType
import LiveMedia.Proofs.Stream.Content

/-!
# Everything that travels may be read as it arrives

For every wire type, an answer other than `short` stands whatever comes behind the bytes: the same value
from the same number of bytes, or the same error. So a reader that tries again with more bytes never
takes an answer back, and its first answer is the one that the whole stream gives.

Each decoder is a sequence of decoders of fields, and `Incremental.bind` reads the property off the
sequence. The decisions in between look at values alone: a count that is too large, a type that is
unknown, an ID that is there already, a body that does not fill its envelope. The body of a message
needs nothing of its own, because its envelope is complete before the body is looked at.
-/

namespace LiveMedia.Message

open LiveMedia.Wire LiveMedia.Time LiveMedia.Stream

-- ── fields ──────────────────────────────────────────────────────────

/-- A number of parts that is too large is refused before the first part. -/
theorem Namespace.incremental : Incremental Namespace.decode :=
  Incremental.compact.bind fun n =>
    .ite (fun _ => (Incremental.text.replicate n).map _) (fun _ => .fail _)

theorem Location.incremental : Incremental Location.decode :=
  Incremental.wide.bind fun _ => Incremental.wide.map _

theorem GroupOrder.incremental : Incremental GroupOrder.decode := by
  refine Incremental.octet.bind fun b => ?_
  cases GroupOrder.ofOctet? b with
  | some o => exact .pure o
  | none => exact .fail _

theorem RequestId.incremental : Incremental RequestId.decode := Incremental.wide.map _

/-- The flags come first and say whether there is a subgroup to wait for. -/
theorem GroupHeader.incremental : Incremental GroupHeader.decode := by
  refine Incremental.compact.bind fun type => ?_
  cases GroupFlags.ofTypeId type with
  | error e => exact .fail e
  | ok flags =>
      refine Incremental.wide.bind fun _ => Incremental.compact.bind fun _ => ?_
      exact .ite (fun _ => Incremental.compact.bind fun _ => Incremental.octet.map _)
        (fun _ => (Incremental.pure 0).bind fun _ => Incremental.octet.map _)

/-- The type comes first and says which fields follow. -/
theorem FetchRange.incremental : Incremental FetchRange.decode := by
  refine Incremental.compact.bind fun type => ?_
  split
  · exact Namespace.incremental.bind fun _ => Incremental.text.bind fun _ =>
      Location.incremental.bind fun _ => Location.incremental.map _
  · exact RequestId.incremental.bind fun _ => Incremental.compact.map _
  · exact RequestId.incremental.bind fun _ => Incremental.compact.map _
  · exact .fail _

-- ── parameters ──────────────────────────────────────────────────────

namespace Parameters

/-- A repeated ID is refused before its value, so the refusal does not wait for the value. -/
theorem incremental_entry (p : Parameters) : Incremental p.decodeEntry := by
  refine Incremental.wide.bind fun id => .ite (fun _ => ?_) (fun _ => ?_)
  · cases p.numbers.find? id with
    | some _ => exact .fail _
    | none => exact Incremental.wide.map _
  · cases p.blobs.find? id with
    | some _ => exact .fail _
    | none => exact Incremental.bytes.map _

/-- The entries that were read decide what the next one may be, so the induction is on their number for
    every table before them. -/
theorem incremental_entries (n : Nat) (p : Parameters) : Incremental (p.decodeEntries n) := by
  induction n generalizing p with
  | zero => exact .pure p
  | succ n ih => exact p.incremental_entry.bind ih

theorem incremental : Incremental Parameters.decode :=
  Incremental.compact.bind fun n => .ite (fun _ => incremental_entries n _) (fun _ => .fail _)

end Parameters

-- ── messages ────────────────────────────────────────────────────────

/-- An envelope is read only as a whole. -/
theorem Envelope.incremental : Incremental Envelope.decode :=
  Incremental.compact.bind fun _ => Incremental.word.bind fun _ => (Incremental.take _).map _

/-- Once the envelope is there, the body is judged without the bytes behind it. -/
theorem MessageForm.incremental {α : Type} (f : MessageForm α) : Incremental f.decode := by
  refine Envelope.incremental.bind fun e => .ite (fun _ => ?_) (fun _ => .fail _)
  cases f.parseBody e.body with
  | ok a => exact .pure a
  | error err => exact .fail err

theorem ControlMessage.incremental : Incremental ControlMessage.decode := by
  refine Envelope.incremental.bind fun e => ?_
  cases e.parse with
  | ok m => exact .pure m
  | error err => exact .fail err

-- ── all types ───────────────────────────────────────────────────────

namespace WireType

theorem incremental (t : WireType) : Incremental t.codec.decode := by
  induction t with
  | flag => exact .flag
  | octet => exact .octet
  | word => exact .word
  | compact => exact .compact
  | varint => exact .varint
  | text => exact .text
  | bytes => exact .bytes
  | optional t ih => exact ih.optional
  | space => exact Namespace.incremental
  | location => exact Location.incremental
  | groupOrder => exact GroupOrder.incremental
  | requestId => exact RequestId.incremental
  | time scale => exact Incremental.varint.map _
  | groupHeader => exact GroupHeader.incremental
  | fetchRange => exact FetchRange.incremental
  | parameters => exact Parameters.incremental
  | envelope => exact Envelope.incremental
  | fetch => exact Fetch.form.incremental
  | fetchCancel => exact FetchCancel.form.incremental
  | fetchOk => exact FetchOk.form.incremental
  | fetchError => exact FetchError.form.incremental
  | maxRequestId => exact MaxRequestId.form.incremental
  | requestsBlocked => exact RequestsBlocked.form.incremental
  | control => exact ControlMessage.incremental

/-- **An answer that was given stands.** For every wire type and all bytes, with anything behind them: a
    value is read again from the same number of bytes, an error other than `short` is found again, and
    only `short` may become another answer. A reader of a stream that answers, however little has
    arrived, gives the answer that the whole stream gives. -/
theorem answer_stands (t : WireType) (bs more : Bytes) :
    (∀ v n, t.codec.decode.answer bs = .ok (v, n) →
      t.codec.decode.answer (bs ++ more) = .ok (v, n) ∧ n ≤ bs.length ∧
        t.codec.decode.run bs = (.ok v, bs.drop n)) ∧
    (∀ e, e ≠ .short → t.codec.decode.answer bs = .error e →
      t.codec.decode.answer (bs ++ more) = .error e) ∧
    (t.codec.decode.answer (bs ++ more) ≠ t.codec.decode.answer bs →
      t.codec.decode.answer bs = .error .short) ∧
    (∀ (r r' : Reader) v, r.decode t.codec.decode = (.ok v, r') →
      t.codec.decode.run r.content = (.ok v, r'.content)) ∧
    (∀ (r r' : Reader) e, e ≠ .short →
      r.decode t.codec.decode = (.error (.failed (.decode e)), r') →
        t.codec.decode.answer r.content = .error e) := by
  have hd := t.incremental
  refine ⟨?_, ?_, ?_, ?_, ?_⟩
  · intro v n h
    have hne : t.codec.decode.answer bs ≠ .error .short := by
      rw [h]
      exact fun heq => nomatch heq
    obtain ⟨hle, hrun⟩ := hd.run_of_answer h
    exact ⟨(hd.answer_append hne more).trans h, hle, hrun⟩
  · intro e he h
    have hne : t.codec.decode.answer bs ≠ .error .short := by
      rw [h]
      exact fun heq => he (Except.error.inj heq)
    exact (hd.answer_append hne more).trans h
  · intro hchanged
    by_cases hshort : t.codec.decode.answer bs = .error .short
    · exact hshort
    · exact absurd (hd.answer_append hshort more) hchanged
  · intro r r' v h
    have hanswers := Reader.decode_answers hd r
    rw [h] at hanswers
    cases hanswers with
    | value h => exact h.run_eq hd
  · intro r r' e he h
    have hanswers := Reader.decode_answers hd r
    rw [h] at hanswers
    cases hanswers with
    | failed h => exact h.answer_eq he

/-- Answers that are given before the bytes end: a repeated ID without its value, an optional number in a
    longer form than it needs, half a word, a word that arrives in two blocks, and an octet that is no
    flag, with a wait behind it. -/
theorem answer_stands_early :
    parameters.codec.decode.answer ([2, 2, 5, 2] ++ [7]) = .error (.duplicateParameter 2) ∧
    (optional compact).codec.decode.answer ([1, 64, 5] ++ [9]) = .ok (some (5 : Nat), 3) ∧
    word.codec.decode.answer [1] = .error .short ∧
    word.codec.decode.run [1, 2, 3] = (.ok (258 : UInt16), [3]) ∧
    flag.codec.decode.answer [2, 0] = .error .invalidValue := by
  refine ⟨?_, ?_, ?_, ?_, ?_⟩
  · exact (answer_stands parameters [2, 2, 5, 2] [7]).2.1 _ (by decide) rfl
  · exact ((answer_stands (optional compact) [1, 64, 5] [9]).1 _ _ rfl).1
  · refine (answer_stands word [1] [2]).2.2.1 ?_
    show Except.ok ((258 : UInt16), 2) ≠ Except.error DecodeError.short
    exact fun h => nomatch h
  · exact (answer_stands word [] []).2.2.2.1 ⟨[1], [.data [2, 3]]⟩ ⟨[3], []⟩ _ rfl
  · exact (answer_stands flag [] []).2.2.2.2 ⟨[], [.data [2], .wait, .data [0]]⟩
      ⟨[2], [.wait, .data [0]]⟩ _ (by decide) rfl

end WireType

end LiveMedia.Message
