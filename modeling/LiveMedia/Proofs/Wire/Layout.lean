import LiveMedia.Proofs.Wire.Lengths
import LiveMedia.Proofs.Wire.Rewriting

/-!
# The layout of integers

An integer stands in one of four length classes. In class `c` it takes `2 ^ c` bytes: the class is in the
top two bits, and all bits below them are for the number (`Varint.padded`). So a number has one form in each
class that has room for it, from the shortest one on (`Varint.lengthClass`).

The encoder writes the form of the shortest class. The decoder looks at the top two bits of the first byte and
takes the bytes that they announce, so it is short or has a number, and every form of a number is read. The
compact class of numbers has no layout of its own: it is the wide class with a bound that is checked after
reading.
-/

namespace LiveMedia.Wire

-- ── the four classes ────────────────────────────────────────────────

namespace Varint

/-- A number in a length class: the class in the top two bits, the number in the bits below. -/
def padded (c n : Nat) : Bytes := bigEndian (2 ^ c) (c * 2 ^ (8 * 2 ^ c - 2) + n)

/-- The shortest class that has room for a number. -/
def lengthClass (n : Nat) : Nat :=
  if n < 2 ^ 6 then 0 else if n < 2 ^ 14 then 1 else if n < 2 ^ 30 then 2 else 3

variable {n c : Nat}

@[simp] theorem length_padded (c n : Nat) : (padded c n).length = 2 ^ c := length_bigEndian _ _

/-- A number has room in its class and in all longer ones. -/
theorem lt_iff_lengthClass_le (hn : n < 2 ^ 62) (hc : c < 4) :
    n < 2 ^ (8 * 2 ^ c - 2) ↔ lengthClass n ≤ c := by
  unfold lengthClass
  match c, hc with
  | 0, _ | 1, _ | 2, _ | 3, _ => grind

/-- **The encoder writes the form of the shortest class.** -/
theorem encode_eq_padded (hn : n < 2 ^ 62) : encode ⟨n⟩ = padded (lengthClass n) n := by
  unfold encode lengthClass
  by_cases h1 : n < 2 ^ 6
  · have hzero : 0 * 2 ^ (8 * 2 ^ 0 - 2) + n = n := by rw [Nat.zero_mul, Nat.zero_add]
    rw [if_pos (Nat.le_of_lt_succ h1), if_pos h1, padded, hzero]
    rfl
  · rw [if_neg fun hle => h1 (Nat.lt_succ_of_le hle), if_neg h1]
    by_cases h2 : n < 2 ^ 14
    · rw [if_pos (Nat.le_of_lt_succ h2), if_pos h2]
      rfl
    · rw [if_neg fun hle => h2 (Nat.lt_succ_of_le hle), if_neg h2]
      by_cases h4 : n < 2 ^ 30
      · rw [if_pos (Nat.le_of_lt_succ h4), if_pos h4]
        rfl
      · have hmod : n % (1 <<< 62) = n := Nat.mod_eq_of_lt hn
        rw [if_neg fun hle => h4 (Nat.lt_succ_of_le hle), if_neg h4, hmod]
        rfl

/-- Every form of a number is a spelling of it. -/
theorem spelled_padded (hn : n < 2 ^ 62) (hc : c < 4) (hle : lengthClass n ≤ c) : Spelled n (padded c n) :=
  ⟨c, hc, (lt_iff_lengthClass_le hn hc).mpr hle, rfl⟩

-- ── what a first byte announces ─────────────────────────────────────

theorem announced_eq_two_pow (first : UInt8) : announced first = 2 ^ (first.toNat / 64) := Nat.one_shiftLeft _

theorem announced_cases (first : UInt8) :
    announced first = 1 ∨ announced first = 2 ∨ announced first = 4 ∨ announced first = 8 := by
  have hclass : first.toNat / 64 < 4 := by
    have hbyte := first.toNat_lt
    omega
  rw [announced_eq_two_pow]
  match first.toNat / 64, hclass with
  | 0, _ => exact .inl rfl
  | 1, _ => exact .inr (.inl rfl)
  | 2, _ => exact .inr (.inr (.inl rfl))
  | 3, _ => exact .inr (.inr (.inr rfl))

/-- Fewer bytes than announced are short, and stay where they are. -/
theorem decode_cons_of_lt {first : UInt8} {more : Bytes} (h : (first :: more).length < announced first) :
    decode.run (first :: more) = (.error .short, first :: more) := by
  rw [Incremental.run_varint_cons]
  exact Decoder.run_bind_error (Decoder.run_take_of_lt h)

/-- **The announced bytes are taken**, and they are the form of a number in the announced class. -/
theorem decode_cons_of_le {first : UInt8} {more : Bytes} (h : announced first ≤ (first :: more).length) :
    ∃ v : Varint, v.val < 2 ^ 62 ∧
      (first :: more).take (announced first) = padded (first.toNat / 64) v.val ∧
      decode.run (first :: more) = (.ok v, (first :: more).drop (announced first)) := by
  have hrun : ∃ v, decode.run (first :: more) = (.ok v, (first :: more).drop (announced first)) := by
    rw [Incremental.run_varint_cons, Decoder.run_bind_ok (Decoder.run_take_of_le h)]
    exact ⟨_, rfl⟩
  obtain ⟨v, hv⟩ := hrun
  obtain ⟨front, ⟨c, -, -, hfront⟩, hsplit⟩ := spelled_of_decode hv
  have hform : (first :: more).take (announced first) = padded c v.val := by
    have hsame := (List.take_append_drop (announced first) (first :: more)).trans hsplit
    exact (List.append_cancel_right hsame).trans hfront
  -- the number of bytes is that of one class only
  have hclass : 2 ^ c = 2 ^ (first.toNat / 64) := by
    rw [← length_padded c v.val, ← hform, List.length_take_of_le h, announced_eq_two_pow]
  rw [Nat.pow_right_injective (Nat.le_refl 2) hclass] at hform
  exact ⟨v, Nat.lt_succ_of_le (decode_le_maximum hv), hform, hv⟩

/-- No bytes at all are short as well, and nothing else can go wrong. -/
theorem short_of_decode {bs rest : Bytes} {e : DecodeError} (h : decode.run bs = (.error e, rest)) :
    e = .short := by
  cases bs with
  | nil =>
      obtain ⟨he, -⟩ := Prod.mk.inj h
      exact (Except.error.inj he).symm
  | cons first more =>
      rcases Nat.lt_or_ge (first :: more).length (announced first) with hlt | hle
      · rw [decode_cons_of_lt hlt] at h
        exact (Except.error.inj (Prod.mk.inj h).1).symm
      · obtain ⟨v, -, -, hv⟩ := decode_cons_of_le hle
        rw [hv] at h
        cases (Prod.mk.inj h).1

end Varint

-- ── the two classes of numbers ──────────────────────────────────────

section Classes

variable {n : Nat} {bs rest : Bytes} {e : DecodeError}

theorem wide_of_varint {v : Varint} (h : Varint.decode.run bs = (.ok v, rest)) :
    decodeWide.run bs = (.ok v.val, rest) := Decoder.run_bind_ok h

theorem wide_of_varint_error (h : Varint.decode.run bs = (.error e, rest)) :
    decodeWide.run bs = (.error e, rest) := Decoder.run_bind_error h

/-- A number of the wide class was read as an integer. -/
theorem varint_of_wide (h : decodeWide.run bs = (.ok n, rest)) : Varint.decode.run bs = (.ok ⟨n⟩, rest) := by
  obtain ⟨v, left, hrun, hval⟩ := Decoder.exists_of_run_bind h
  obtain ⟨hn, rfl⟩ := Prod.mk.inj hval
  obtain rfl := Except.ok.inj hn
  exact hrun

/-- Reading a number fails only for want of bytes. -/
theorem short_of_wide (h : decodeWide.run bs = (.error e, rest)) : e = .short := by
  cases hrun : Varint.decode.run bs with
  | mk answer left =>
      cases answer with
      | error e' =>
          rw [wide_of_varint_error hrun] at h
          obtain rfl := Except.error.inj (Prod.mk.inj h).1
          exact Varint.short_of_decode hrun
      | ok v =>
          rw [wide_of_varint hrun] at h
          cases (Prod.mk.inj h).1

/-- **The compact class is the wide class with a bound.** -/
theorem run_compact (bs : Bytes) : decodeCompact.run bs = match decodeWide.run bs with
    | (.ok n, rest) => if n < 2 ^ 53 then (.ok n, rest) else (.error .boundsExceeded, rest)
    | (.error e, rest) => (.error e, rest) := by
  cases hrun : Varint.decode.run bs with
  | mk answer rest =>
      cases answer with
      | error e =>
          rw [wide_of_varint_error hrun]
          exact Decoder.run_bind_error hrun
      | ok v =>
          rw [wide_of_varint hrun, decodeCompact, Decoder.run_bind_ok hrun]
          by_cases hle : v.val ≤ Varint.compactMaximum
          · have hlt : v.val < 2 ^ 53 := Nat.lt_succ_of_le hle
            rw [if_pos hle]
            exact (if_pos hlt).symm
          · have hge : ¬ v.val < 2 ^ 53 := fun hlt => hle (Nat.le_of_lt_succ hlt)
            rw [if_neg hle]
            exact (if_neg hge).symm

end Classes

/-- **The layout of integers.** A number below `2 ^ 62` is written in the shortest class that has room for it,
    which takes `Varint.size` bytes; it is read from its form in this and in every longer class, and from no
    fewer bytes than were written. Bytes with a first one are read by what this one announces, which is 1,
    2, 4 or 8: with fewer bytes the reader is short and takes none, and otherwise it takes just these, which
    are the form of a number below `2 ^ 62`. In the compact class the reader has the same answer, but numbers
    from `2 ^ 53` on are taken and refused. -/
theorem integers_are_laid_out_by_class (n : Nat) (first : UInt8) (more bs : Bytes) :
    (n < 2 ^ 62 → let wire := Varint.padded (Varint.lengthClass n) n
      encodeWide n = .ok wire ∧ wire.length = Varint.size ⟨n⟩ ∧
        (∀ c < 4, Varint.lengthClass n ≤ c → ∀ rest,
          decodeWide.run (Varint.padded c n ++ rest) = (.ok n, rest)) ∧
        (∀ other rest, decodeWide.run other = (.ok n, rest) → wire.length + rest.length ≤ other.length)) ∧
    (let k := Varint.announced first
     k = 2 ^ (first.toNat / 64) ∧ (k = 1 ∨ k = 2 ∨ k = 4 ∨ k = 8) ∧
       ((first :: more).length < k → decodeWide.run (first :: more) = (.error .short, first :: more)) ∧
       (k ≤ (first :: more).length → ∃ v < 2 ^ 62,
         (first :: more).take k = Varint.padded (first.toNat / 64) v ∧
         decodeWide.run (first :: more) = (.ok v, (first :: more).drop k))) ∧
    (∀ e rest, decodeWide.run bs = (.error e, rest) →
      e = .short ∧ decodeCompact.run bs = (.error .short, rest)) ∧
    (∀ v rest, decodeWide.run bs = (.ok v, rest) →
      (v < 2 ^ 53 → decodeCompact.run bs = (.ok v, rest)) ∧
      (2 ^ 53 ≤ v → decodeCompact.run bs = (.error .boundsExceeded, rest))) := by
  refine ⟨fun hn => ?_, ⟨Varint.announced_eq_two_pow first, Varint.announced_cases first, fun hlt => ?_,
    fun hle => ?_⟩, fun e rest hrun => ?_, fun v rest hrun => ⟨fun hlt => ?_, fun hge => ?_⟩⟩
  · intro wire
    have hwire : Varint.encode ⟨n⟩ = wire := Varint.encode_eq_padded hn
    have hlength : wire.length = Varint.size ⟨n⟩ := hwire ▸ Varint.length_encode ⟨n⟩
    refine ⟨?_, hlength, fun c hc hle rest => ?_, fun other rest hrun => ?_⟩
    · rw [← hwire]
      exact if_pos (Nat.le_of_lt_succ hn)
    · exact (Varint.spelled_padded hn hc hle).wide rest
    · rw [hlength]
      exact (Varint.size_le_of_run (varint_of_wide hrun)).2
  · exact wide_of_varint_error (Varint.decode_cons_of_lt hlt)
  · obtain ⟨v, hv, hform, hrun⟩ := Varint.decode_cons_of_le hle
    exact ⟨v.val, hv, hform, wide_of_varint hrun⟩
  · obtain rfl := short_of_wide hrun
    rw [run_compact, hrun]
    exact ⟨rfl, rfl⟩
  · rw [run_compact, hrun]
    exact if_pos hlt
  · rw [run_compact, hrun]
    exact if_neg (Nat.not_lt_of_le hge)

/-- The number 37 in two bytes and in eight with others behind, two of four bytes, and the first number that
    the compact class refuses. -/
theorem integers_are_laid_out_by_class_padded :
    encodeWide 37 = .ok [37] ∧ decodeWide.run [64, 37] = (.ok 37, []) ∧
      decodeWide.run [192, 0, 0, 0, 0, 0, 0, 37, 255] = (.ok 37, [255]) ∧
      decodeWide.run [128, 1] = (.error .short, [128, 1]) ∧
      decodeCompact.run [192, 32, 0, 0, 0, 0, 0, 0] = (.error .boundsExceeded, []) := by
  obtain ⟨hwrite, -, hread, -⟩ := (integers_are_laid_out_by_class 37 0 [] []).1 (by decide)
  obtain ⟨-, -, hshort, -⟩ := (integers_are_laid_out_by_class 0 128 [1] []).2.1
  have hlarge := (integers_are_laid_out_by_class 0 0 [] [192, 32, 0, 0, 0, 0, 0, 0]).2.2.2 (2 ^ 53) [] rfl
  exact ⟨hwrite, hread 1 (by decide) (by decide) [], hread 3 (by decide) (by decide) [255],
    hshort (by decide), hlarge.2 (Nat.le_refl _)⟩

end LiveMedia.Wire
