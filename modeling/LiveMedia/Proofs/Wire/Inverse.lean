import LiveMedia.Wire.Decoder
import Mathlib.Algebra.GroupWithZero.Nat

/-!
# Decoders that undo encoders

Three things are said of a wire form: reading undoes writing (`Inverts`), when writing fails (`Fails`),
and how many bytes it takes (`Sized`). Forms are put one after the other with `Encoded.append`, and
each of the three is told of the parts: a decoder that runs two others in a row undoes the two forms in
a row, a sequence fails when one of its parts fails, and sizes add up. What is proved of the few
primitive forms then carries over to every message by reading its fields in order.

`Inverts` speaks of any bytes that may follow. That is what makes it compose, and it says at the same
time that a decoder leaves exactly what does not belong to it.
-/

namespace LiveMedia.Wire

variable {α β : Type}

/-- One wire form and then another. -/
def Encoded.append (x y : Encoded) : Encoded := do
  let front ← x
  let back ← y
  return front ++ back

/-- There is no wire form. -/
def Fails (x : Encoded) : Prop := ∃ e, x = .error e

/-- The wire form, if there is one, has `n` bytes. -/
def Sized (x : Encoded) (n : Nat) : Prop := ∀ bs, x = .ok bs → bs.length = n

/-- Whatever was written, with any bytes behind it, `d` reads as `a` and leaves these bytes. -/
def Inverts (d : Decoder α) (a : α) (x : Encoded) : Prop :=
  ∀ bs, x = .ok bs → ∀ rest, d.run (bs ++ rest) = (.ok a, rest)

-- ── one form after another ──────────────────────────────────────────

/-- A sequence that has a wire form is made of the wire forms of its parts. -/
theorem append_eq_ok {x y : Encoded} {bs : Bytes} (h : Encoded.append x y = .ok bs) :
    ∃ front back, x = .ok front ∧ y = .ok back ∧ front ++ back = bs := by
  cases x with
  | error e => exact nomatch h
  | ok front =>
      cases y with
      | error e => exact nomatch h
      | ok back => exact ⟨front, back, rfl, rfl, Except.ok.inj h⟩

/-- A sequence fails when one of its parts fails. -/
theorem fails_append {x y : Encoded} : Fails (Encoded.append x y) ↔ Fails x ∨ Fails y := by
  cases x with
  | error e => exact iff_of_true ⟨e, rfl⟩ (Or.inl ⟨e, rfl⟩)
  | ok front =>
      cases y with
      | error e => exact iff_of_true ⟨e, rfl⟩ (Or.inr ⟨e, rfl⟩)
      | ok back =>
          refine iff_of_false ?_ ?_
          · rintro ⟨e, he⟩
            exact nomatch he
          · rintro (⟨e, he⟩ | ⟨e, he⟩) <;> exact nomatch he

theorem not_fails_ok (bs : Bytes) : ¬ Fails (.ok bs) := fun ⟨_, h⟩ => nomatch h

/-- The sizes of the parts add up. -/
theorem Sized.append {x y : Encoded} {m n : Nat} (hx : Sized x m) (hy : Sized y n) :
    Sized (Encoded.append x y) (m + n) := by
  intro bs h
  obtain ⟨front, back, hfront, hback, rfl⟩ := append_eq_ok h
  rw [List.length_append, hx front hfront, hy back hback]

theorem sized_ok (bs : Bytes) : Sized (.ok bs) bs.length := fun _ h => congrArg _ (Except.ok.inj h).symm

variable {d : Decoder α} {f : α → Decoder β} {a : α} {b : β} {x y : Encoded}

/-- **Two forms in a row** are undone by two decoders in a row. -/
theorem Inverts.andThen (hx : Inverts d a x) (hy : Inverts (f a) b y) :
    Inverts (d >>= f) b (Encoded.append x y) := by
  intro bs h rest
  obtain ⟨front, back, hfront, hback, rfl⟩ := append_eq_ok h
  rw [List.append_assoc, Decoder.run_bind_ok (hx front hfront (back ++ rest))]
  exact hy back hback rest

/-- A decoder may make something of what it read, without reading on. -/
theorem Inverts.thenPure (hx : Inverts d a x) (hf : f a = pure b) : Inverts (d >>= f) b x := by
  intro bs h rest
  rw [Decoder.run_bind_ok (hx bs h rest), hf]
  exact Decoder.run_pure b rest

/-- What is known without reading takes no bytes. -/
theorem inverts_nil (a : α) : Inverts (pure a) a (.ok []) := by
  intro bs h rest
  rw [← Except.ok.inj h]
  exact Decoder.run_pure a rest

/-- Where there is no wire form, nothing has to be undone. -/
theorem inverts_error (d : Decoder α) (a : α) (e : EncodeError) : Inverts d a (.error e) :=
  fun _ h => nomatch h

/-- Bytes are read back when their number is known. -/
theorem inverts_take (bs : Bytes) : Inverts (Decoder.take bs.length) bs (.ok bs) := by
  intro bs' h rest
  rw [← Except.ok.inj h]
  exact Decoder.run_take_append bs rest

-- ── forms under a condition ─────────────────────────────────────────

section Conditions

variable {c : Prop} [Decidable c] {e : EncodeError}

/-- The condition of an encoder may be assumed where reading undoes it. -/
theorem inverts_ite (h : c → Inverts d a x) : Inverts d a (if c then x else .error e) := by
  by_cases hc : c
  · rw [if_pos hc]
    exact h hc
  · rw [if_neg hc]
    exact inverts_error d a e

/-- A form under a condition fails when the condition does. -/
theorem fails_ite : Fails (if c then x else .error e) ↔ ¬ c ∨ Fails x := by
  by_cases hc : c
  · rw [if_pos hc]
    exact (or_iff_right (not_not_intro hc)).symm
  · rw [if_neg hc]
    exact iff_of_true ⟨e, rfl⟩ (Or.inl hc)

theorem sized_ite {n : Nat} (h : c → Sized x n) : Sized (if c then x else .error e) n := by
  by_cases hc : c
  · rw [if_pos hc]
    exact h hc
  · rw [if_neg hc]
    exact fun _ hbs => nomatch hbs

end Conditions

-- ── lists ───────────────────────────────────────────────────────────

section Lists

variable {encode : α → Encoded} {decode : Decoder α}

theorem encodeAll_cons (a : α) (as : List α) :
    encodeAll encode (a :: as) = Encoded.append (encode a) (encodeAll encode as) := rfl

/-- Elements that are written in two runs are written one run after the other. -/
theorem encodeAll_append {as as' : List α} {bs bs' : Bytes} (h : encodeAll encode as = .ok bs)
    (h' : encodeAll encode as' = .ok bs') : encodeAll encode (as ++ as') = .ok (bs ++ bs') := by
  induction as generalizing bs with
  | nil =>
      obtain rfl := Except.ok.inj h
      exact h'
  | cons a as ih =>
      obtain ⟨front, back, hfront, hback, rfl⟩ := append_eq_ok h
      show Encoded.append (encode a) (encodeAll encode (as ++ as')) = _
      rw [hfront, ih hback]
      exact congrArg Except.ok (List.append_assoc front back bs').symm

theorem encodeAll_singleton {a : α} {bs : Bytes} (h : encode a = .ok bs) :
    encodeAll encode [a] = .ok bs := by
  show Encoded.append (encode a) (.ok []) = _
  rw [h]
  exact congrArg Except.ok (List.append_nil bs)

/-- Elements are read back one by one when their number is known. -/
theorem inverts_encodeAll (h : ∀ a, Inverts decode a (encode a)) (as : List α) :
    Inverts (Decoder.replicate decode as.length) as (encodeAll encode as) := by
  induction as with
  | nil => exact inverts_nil []
  | cons a as ih =>
      rw [encodeAll_cons]
      exact (h a).andThen (ih.thenPure rfl)

/-- A list has no wire form if one of its elements has none. -/
theorem fails_encodeAll (as : List α) :
    Fails (encodeAll encode as) ↔ ∃ a ∈ as, Fails (encode a) := by
  induction as with
  | nil =>
      refine iff_of_false (not_fails_ok []) ?_
      rintro ⟨a, ha, -⟩
      exact List.not_mem_nil ha
  | cons a as ih =>
      rw [encodeAll_cons, fails_append, ih]
      simp only [List.mem_cons, exists_eq_or_imp]

/-- The size of a list is the sum of the sizes of its elements. -/
theorem sized_encodeAll {size : α → Nat} (h : ∀ a, Sized (encode a) (size a)) (as : List α) :
    Sized (encodeAll encode as) (as.map size).sum := by
  induction as with
  | nil => exact sized_ok []
  | cons a as ih =>
      rw [encodeAll_cons, List.map_cons, List.sum_cons]
      exact (h a).append ih

end Lists

end LiveMedia.Wire
