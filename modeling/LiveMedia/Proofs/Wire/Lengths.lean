import LiveMedia.Proofs.Wire.Incremental
import LiveMedia.Proofs.Wire.Primitive
import Mathlib.Tactic.Ring

/-!
# Integers in any of their lengths

An encoder writes an integer in the shortest of the four lengths. A decoder takes it in any length that has
room for it, so for one value there are up to four forms. `Varint.Spelled` says what these are without the
decoder: the length class in the top two bits, and the value below them. Reading is then told in both
directions. Every spelling of a value is read as this value (`Varint.Spelled.decode`), and whatever is read
was spelled (`Varint.spelled_of_decode`).

For the second direction the bytes that were taken have to be those of a number in network order, which any
bytes are (`bigEndian_ofBigEndian`).
-/

namespace LiveMedia.Wire

-- ── bytes as numbers ────────────────────────────────────────────────

theorem foldl_bigEndian (bs : Bytes) (acc : Nat) :
    bs.foldl (fun acc b => acc * 256 + b.toNat) acc = acc * 256 ^ bs.length + ofBigEndian bs := by
  induction bs generalizing acc with
  | nil => simp [ofBigEndian]
  | cons b bs ih =>
      rw [List.foldl_cons, ih]
      conv_rhs => rw [ofBigEndian, List.foldl_cons, ih]
      rw [List.length_cons, Nat.pow_succ]
      ring

theorem ofBigEndian_cons (b : UInt8) (bs : Bytes) :
    ofBigEndian (b :: bs) = b.toNat * 256 ^ bs.length + ofBigEndian bs := by
  rw [ofBigEndian, List.foldl_cons, foldl_bigEndian, Nat.zero_mul, Nat.zero_add]

theorem ofBigEndian_lt (bs : Bytes) : ofBigEndian bs < 256 ^ bs.length := by
  induction bs with
  | nil => exact Nat.one_pos
  | cons b bs ih =>
      have hb : (b.toNat + 1) * 256 ^ bs.length ≤ 256 * 256 ^ bs.length :=
        Nat.mul_le_mul_right _ b.toNat_lt
      rw [ofBigEndian_cons, List.length_cons, Nat.pow_succ]
      rw [Nat.add_one_mul] at hb
      omega

/-- What is above the bytes is not written. -/
theorem bigEndian_add_mul (n a x : Nat) : bigEndian n (a * 256 ^ n + x) = bigEndian n x := by
  induction n generalizing a with
  | zero => rfl
  | succ n ih =>
      have hsplit : a * 256 ^ (n + 1) + x = a * 256 * 256 ^ n + x := by
        rw [Nat.pow_succ]
        ring
      have hdiv : (a * 256 * 256 ^ n + x) / 256 ^ n = a * 256 + x / 256 ^ n := by
        rw [Nat.add_comm, Nat.add_mul_div_right _ _ (Nat.pow_pos (by decide)), Nat.add_comm]
      have hbyte : UInt8.ofNat (a * 256 + x / 256 ^ n) = UInt8.ofNat (x / 256 ^ n) := by
        refine UInt8.toNat_inj.mp ?_
        rw [UInt8.toNat_ofNat', UInt8.toNat_ofNat']
        omega
      rw [bigEndian_succ, bigEndian_succ, hsplit, ih, hdiv, hbyte]

/-- **Any bytes are those of a number.** -/
theorem bigEndian_ofBigEndian (bs : Bytes) : bigEndian bs.length (ofBigEndian bs) = bs := by
  induction bs with
  | nil => rfl
  | cons b bs ih =>
      have hdiv : (b.toNat * 256 ^ bs.length + ofBigEndian bs) / 256 ^ bs.length = b.toNat := by
        rw [Nat.add_comm, Nat.add_mul_div_right _ _ (Nat.pow_pos (by decide)),
          Nat.div_eq_of_lt (ofBigEndian_lt bs), Nat.zero_add]
      rw [List.length_cons, bigEndian_succ, ofBigEndian_cons, hdiv, bigEndian_add_mul, ih,
        UInt8.ofNat_toNat]

-- ── spellings ───────────────────────────────────────────────────────

namespace Varint

/-- The bytes are the value in one of the four lengths, which need not be the shortest. -/
def Spelled (n : Nat) (bs : Bytes) : Prop :=
  ∃ c < 4, n < 2 ^ (8 * 2 ^ c - 2) ∧ bs = bigEndian (2 ^ c) (c * 2 ^ (8 * 2 ^ c - 2) + n)

/-- **Every spelling is read.** -/
theorem Spelled.decode {n : Nat} {bs : Bytes} (h : Spelled n bs) (rest : Bytes) :
    decode.run (bs ++ rest) = (.ok ⟨n⟩, rest) := by
  obtain ⟨c, hc, hlt, rfl⟩ := h
  have hread : ∀ m x, 2 ^ c = m + 1 → x / 256 ^ m % 256 / 64 = c →
      x % 256 ^ (m + 1) % 2 ^ (8 * (m + 1) - 2) = n →
      Varint.decode.run (bigEndian (2 ^ c) x ++ rest) = (.ok ⟨n⟩, rest) := by
    intro m x hlen hclass hval
    rw [hlen, decode_bigEndian (hclass.symm ▸ hlen), hval]
  -- the four classes, with constants for the places of their bits
  match c, hc with
  | 0, _ => exact hread 0 _ rfl (by omega) (by omega)
  | 1, _ => exact hread 1 _ rfl (by omega) (by omega)
  | 2, _ => exact hread 3 _ rfl (by omega) (by omega)
  | 3, _ => exact hread 7 _ rfl (by omega) (by omega)

/-- The first of so many bytes has the class of their number in its top two bits. -/
theorem class_ofBigEndian (first : UInt8) (bs : Bytes) :
    ofBigEndian (first :: bs) / 2 ^ (8 * (bs.length + 1) - 2) = first.toNat / 64 := by
  have hbits : 8 * (bs.length + 1) - 2 = 8 * bs.length + 6 := by omega
  have hpow : 2 ^ (8 * (bs.length + 1) - 2) = 256 ^ bs.length * 64 := by
    rw [hbits, Nat.pow_add, Nat.pow_mul]
  have hfirst : (first.toNat * 256 ^ bs.length + ofBigEndian bs) / 256 ^ bs.length = first.toNat := by
    rw [Nat.add_comm, Nat.add_mul_div_right _ _ (Nat.pow_pos (by decide)),
      Nat.div_eq_of_lt (ofBigEndian_lt bs), Nat.zero_add]
  rw [hpow, ofBigEndian_cons, ← Nat.div_div_eq_div_mul, hfirst]

/-- **Whatever is read was spelled.** -/
theorem spelled_of_decode {bs rest : Bytes} {v : Varint} (h : decode.run bs = (.ok v, rest)) :
    ∃ front, Spelled v.val front ∧ bs = front ++ rest := by
  cases bs with
  | nil => cases (Prod.mk.inj h).1
  | cons first more =>
      obtain ⟨m, hlen⟩ : ∃ m, 2 ^ (first.toNat / 64) = m + 1 :=
        Nat.exists_eq_add_one.mpr (Nat.two_pow_pos _)
      have hannounced : announced first = m + 1 := by rw [announced, Nat.one_shiftLeft, hlen]
      rw [Incremental.run_varint_cons, hannounced] at h
      by_cases hle : m ≤ more.length
      · have hlong : m + 1 ≤ (first :: more).length := Nat.succ_le_succ hle
        have htake := Decoder.run_take_of_le hlong
        rw [Decoder.run_bind_ok htake] at h
        obtain ⟨hval, rfl⟩ := Prod.mk.inj h
        obtain rfl := Except.ok.inj hval
        have hsize : (more.take m).length = m := List.length_take_of_le hle
        have hclass := class_ofBigEndian first (more.take m)
        have hbytes := bigEndian_ofBigEndian (first :: more.take m)
        rw [hsize] at hclass
        rw [List.length_cons, hsize] at hbytes
        refine ⟨first :: more.take m, ⟨first.toNat / 64, ?_, ?_, ?_⟩, ?_⟩
        · have hbyte := first.toNat_lt
          omega
        · rw [hlen, Nat.one_shiftLeft]
          exact Nat.mod_lt _ (Nat.two_pow_pos _)
        · rw [hlen, Nat.one_shiftLeft, List.take_succ_cons, ← hclass, Nat.div_add_mod', hbytes]
        · rw [List.cons_append, List.drop_succ_cons, List.take_append_drop]
      · have hshort : (first :: more).length < m + 1 := Nat.succ_lt_succ (Nat.lt_of_not_le hle)
        have htake := Decoder.run_take_of_lt hshort
        rw [Decoder.run_bind_error htake] at h
        cases (Prod.mk.inj h).1

end Varint

-- ── the classes, and byte strings ───────────────────────────────────

/-- A value that was read by one decoder after another was read in two steps. -/
theorem Decoder.exists_of_run_bind {α β : Type} {d : Decoder α} {f : α → Decoder β} {bs rest : Bytes}
    {b : β} (h : (d >>= f).run bs = (.ok b, rest)) :
    ∃ a left, d.run bs = (.ok a, left) ∧ (f a).run left = (.ok b, rest) := by
  cases hrun : d.run bs with
  | mk answer left =>
      cases answer with
      | error e =>
          rw [Decoder.run_bind_error hrun] at h
          cases (Prod.mk.inj h).1
      | ok a =>
          rw [Decoder.run_bind_ok hrun] at h
          exact ⟨a, left, rfl, h⟩

section Classes

variable {n : Nat} {bs value rest : Bytes}

theorem Varint.Spelled.wide (h : Varint.Spelled n bs) (rest : Bytes) :
    decodeWide.run (bs ++ rest) = (.ok n, rest) := by
  rw [decodeWide, Decoder.run_bind_ok (h.decode rest)]
  rfl

theorem spelled_of_wide (h : decodeWide.run bs = (.ok n, rest)) :
    ∃ front, Varint.Spelled n front ∧ bs = front ++ rest := by
  obtain ⟨v, left, hrun, hpure⟩ := Decoder.exists_of_run_bind h
  obtain ⟨hval, rfl⟩ := Prod.mk.inj hpure
  obtain rfl := Except.ok.inj hval
  exact Varint.spelled_of_decode hrun

theorem Varint.Spelled.compact (h : Varint.Spelled n bs) (hn : n ≤ Varint.compactMaximum) (rest : Bytes) :
    decodeCompact.run (bs ++ rest) = (.ok n, rest) := by
  rw [decodeCompact, Decoder.run_bind_ok (h.decode rest), if_pos hn]
  rfl

theorem spelled_of_compact (h : decodeCompact.run bs = (.ok n, rest)) :
    ∃ front, Varint.Spelled n front ∧ n ≤ Varint.compactMaximum ∧ bs = front ++ rest := by
  obtain ⟨v, left, hrun, hbound⟩ := Decoder.exists_of_run_bind h
  split at hbound
  · next hle =>
    obtain ⟨hval, rfl⟩ := Prod.mk.inj hbound
    obtain rfl := Except.ok.inj hval
    obtain ⟨front, hspelled, hbs⟩ := Varint.spelled_of_decode hrun
    exact ⟨front, hspelled, hle, hbs⟩
  · cases (Prod.mk.inj hbound).1

/-- A byte string has its length in front, in any of the lengths of an integer. -/
theorem Varint.Spelled.bytes (h : Varint.Spelled value.length bs)
    (hvalue : value.length ≤ Varint.compactMaximum) (rest : Bytes) :
    decodeBytes.run (bs ++ value ++ rest) = (.ok value, rest) := by
  rw [decodeBytes, List.append_assoc, Decoder.run_bind_ok (h.compact hvalue (value ++ rest))]
  exact Decoder.run_take_append value rest

theorem spelled_of_bytes (h : decodeBytes.run bs = (.ok value, rest)) :
    ∃ front, Varint.Spelled value.length front ∧ value.length ≤ Varint.compactMaximum ∧
      bs = front ++ value ++ rest := by
  obtain ⟨n, left, hrun, htake⟩ := Decoder.exists_of_run_bind h
  obtain ⟨front, hspelled, hle, rfl⟩ := spelled_of_compact hrun
  by_cases hn : n ≤ left.length
  · rw [Decoder.run_take_of_le hn] at htake
    obtain ⟨hval, rfl⟩ := Prod.mk.inj htake
    obtain rfl := Except.ok.inj hval
    rw [List.length_take_of_le hn]
    refine ⟨front, hspelled, hle, ?_⟩
    rw [List.append_assoc, List.take_append_drop]
  · rw [Decoder.run_take_of_lt (Nat.lt_of_not_le hn)] at htake
    cases (Prod.mk.inj htake).1

end Classes

end LiveMedia.Wire
