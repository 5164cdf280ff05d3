import LiveMedia.Proofs.Wire.Primitive
import LiveMedia.Stored.Forms

/-!
# The range of integers and times

An integer of the variable-length form has 62 bits on the wire, and the encoder relies on that without a
look. So each way in which an integer or a time comes about has to establish it: the constants, the checked
and the narrow constructors, the conversions between scales and from spans, the arithmetic, the reader of
the wire form and the reader of the stored one. `Varint.Made` and `Timescale.Made` list these ways, and an
operation on times takes any times that were made, so chains of any length are covered.

Every way but one lands in the range, because it ends in `Varint.ofNat?`, has too few bits to leave it, or
gives one of its arguments. The exception is the stored form, which takes every word of 64 bits as it stands.
What is above the range can therefore only be such a word, passed on unchanged; it is written without its
top two bits and read back as another number.
-/

namespace LiveMedia.Wire.Varint

/-- How an integer comes about. -/
inductive Made : Varint → Prop where
  | zero : Made ⟨0⟩
  | largest : Made ⟨maximum⟩
  | largestCompact : Made ⟨compactMaximum⟩
  /-- From a word of at most 32 bits, which is not looked at. -/
  | narrow {n : Nat} : n < 2 ^ 32 → Made ⟨n⟩
  /-- From a wider word. -/
  | checked {n : Nat} {v : Varint} : ofNat? n = some v → Made v
  | decoded {bs rest : Bytes} {v : Varint} : decode.run bs = (.ok v, rest) → Made v
  | stored {document : String} {v : Varint} : Stored.varint.ofText? document = some v → Made v

end LiveMedia.Wire.Varint

namespace LiveMedia.Time.Timescale

open LiveMedia.Wire (Varint Bytes Inverts)

variable {scale : Nat}

/-- How a time comes about. -/
inductive Made : Timescale scale → Prop where
  | zero : Made zero
  | last : Made last
  | ticks {n : Nat} {t : Timescale scale} : ofTicks n = .ok t → Made t
  | scaled {n other : Nat} {t : Timescale scale} : ofScale n other = .ok t → Made t
  | seconds {n : Nat} {t : Timescale scale} : ofSeconds n = .ok t → Made t
  | millis {n : Nat} {t : Timescale scale} : ofMillis n = .ok t → Made t
  | micros {n : Nat} {t : Timescale scale} : ofMicros n = .ok t → Made t
  | span {d : Span} {t : Timescale scale} : ofSpan d = .ok t → Made t
  | sum {a b t : Timescale scale} : Made a → Made b → a.checkedAdd b = .ok t → Made t
  | difference {a b t : Timescale scale} : Made a → Made b → a.checkedSub b = .ok t → Made t
  | remainder {a b : Timescale scale} : Made a → Made b → Made (a.saturatingSub b)
  | later {a b : Timescale scale} : Made a → Made b → Made (a.latest b)
  | decoded {bs rest : Bytes} {t : Timescale scale} : decode.run bs = (.ok t, rest) → Made t
  | stored {document : String} {t : Timescale scale} :
      (Stored.timescale scale).ofText? document = some t → Made t

theorem ofTicks_eq_ok_iff {n : Nat} {t : Timescale scale} :
    ofTicks n = .ok t ↔ n ≤ Varint.maximum ∧ t = ⟨⟨n⟩⟩ := by
  rw [ofTicks, Varint.ofNat?]
  by_cases hle : n ≤ Varint.maximum
  · rw [if_pos hle, and_iff_right hle]
    exact ⟨fun h => (Except.ok.inj h).symm, fun h => congrArg Except.ok h.symm⟩
  · rw [if_neg hle]
    refine iff_of_false ?_ fun h => hle h.1
    rintro ⟨⟩

theorem ofTicks_le {n : Nat} {t : Timescale scale} (h : ofTicks n = .ok t) :
    t.value ≤ Varint.maximum := by
  obtain ⟨hle, rfl⟩ := ofTicks_eq_ok_iff.mp h
  exact hle

theorem ofScale_le {n other : Nat} {t : Timescale scale} (h : ofScale n other = .ok t) :
    t.value ≤ Varint.maximum := by
  rw [ofScale] at h
  split at h
  · cases h
  · exact ofTicks_le h

theorem inverts {t : Timescale scale} (h : t.value ≤ Varint.maximum) : Inverts decode t t.encode :=
  (Varint.inverts (v := t.ticks) h).thenPure rfl

end LiveMedia.Time.Timescale
