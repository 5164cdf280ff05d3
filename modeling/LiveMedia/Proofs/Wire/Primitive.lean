import LiveMedia.Proofs.Wire.Inverse
import LiveMedia.Wire.Primitive

/-!
# Primitive wire forms

Reading undoes writing for integers, flags, words, byte strings, texts and optional values, whatever
stands behind them. Beside each form stands when it fails and how long it is.

An integer of `n + 1` bytes announces its length in its first byte. `decode_bigEndian` reads such a form
back up to the bits of the length, so each of the four classes is left with arithmetic on constants.
-/

namespace LiveMedia.Wire

-- ── numbers in network order ────────────────────────────────────────

/-- The first byte of a number in network order is its highest one. -/
theorem bigEndian_succ (n x : Nat) :
    bigEndian (n + 1) x = UInt8.ofNat (x / 256 ^ n) :: bigEndian n x := by
  have hpow : 2 ^ (8 * n) = 256 ^ n := Nat.pow_mul 2 8 n
  rw [bigEndian, Nat.shiftRight_eq_div_pow, hpow]

/-- Reading a number back gives as many of its bytes as were written. -/
theorem ofBigEndian_bigEndian (n x : Nat) : ofBigEndian (bigEndian n x) = x % 256 ^ n := by
  have hfold : ∀ acc, (bigEndian n x).foldl (fun acc b => acc * 256 + b.toNat) acc =
      acc * 256 ^ n + x % 256 ^ n := by
    induction n with
    | zero =>
        intro acc
        rw [Nat.pow_zero, Nat.mod_one, Nat.mul_one]
        rfl
    | succ n ih =>
        intro acc
        have hbyte : (UInt8.ofNat (x / 256 ^ n)).toNat = x / 256 ^ n % 256 := UInt8.toNat_ofNat'
        rw [bigEndian_succ, List.foldl_cons, ih, hbyte, Nat.mod_pow_succ, Nat.pow_succ, Nat.add_mul]
        rw [Nat.mul_comm (256 ^ n) 256, ← Nat.mul_assoc, Nat.mul_comm (256 ^ n) (x / 256 ^ n % 256)]
        omega
  have h := hfold 0
  rw [Nat.zero_mul, Nat.zero_add] at h
  exact h

namespace Varint

/-- The two highest bits of the first byte are the logarithm of the length. -/
theorem announced_ofNat (k : Nat) : announced (UInt8.ofNat k) = 2 ^ (k % 256 / 64) := by
  rw [announced, UInt8.toNat_ofNat', Nat.one_shiftLeft]

/-- A number whose first byte announces the length that it has is read back without the length bits. -/
theorem decode_bigEndian {n x : Nat} (h : 2 ^ (x / 256 ^ n % 256 / 64) = n + 1) (rest : Bytes) :
    decode.run (bigEndian (n + 1) x ++ rest) =
      (.ok ⟨x % 256 ^ (n + 1) % 2 ^ (8 * (n + 1) - 2)⟩, rest) := by
  have htake : (Decoder.take (n + 1)).run (bigEndian (n + 1) x ++ rest) =
      (.ok (bigEndian (n + 1) x), rest) := by
    have hfront := Decoder.run_take_append (bigEndian (n + 1) x) rest
    rw [length_bigEndian] at hfront
    exact hfront
  have hrun : decode.run (bigEndian (n + 1) x ++ rest) =
      ((Decoder.take (n + 1)).andThen fun bs =>
        pure ⟨ofBigEndian bs % 2 ^ (8 * (n + 1) - 2)⟩).run (bigEndian (n + 1) x ++ rest) := by
    rw [bigEndian_succ, List.cons_append]
    simp only [Decoder.run, decode, announced_ofNat, h, Nat.one_shiftLeft]
  rw [hrun]
  refine (Decoder.run_bind_ok htake).trans ?_
  rw [ofBigEndian_bigEndian]
  exact Decoder.run_pure _ rest

/-- **An integer of the wide class is read back**, in each of the four lengths. -/
theorem inverts {v : Varint} (hv : v.val ≤ maximum) : Inverts decode v (.ok v.encode) := by
  intro bs h rest
  obtain rfl := Except.ok.inj h
  have hmax : v.val < 2 ^ 62 := Nat.lt_of_le_of_lt hv (by decide)
  -- the class in the top bits says how many bytes there are, and the bits below it are the value
  have hread : ∀ n x c, v.encode = bigEndian (n + 1) x → x / 256 ^ n % 256 / 64 = c → 2 ^ c = n + 1 →
      x % 256 ^ (n + 1) % 2 ^ (8 * (n + 1) - 2) = v.val →
      decode.run (v.encode ++ rest) = (.ok v, rest) := by
    intro n x c henc hclass hlen hval
    rw [henc, decode_bigEndian (hclass.symm ▸ hlen), hval]
  by_cases h1 : v.val ≤ 0x3f
  · have henc : v.encode = bigEndian 1 v.val := if_pos h1
    exact hread 0 _ 0 henc (by omega) rfl (by omega)
  · by_cases h2 : v.val ≤ 0x3fff
    · have henc : v.encode = bigEndian 2 (0x4000 + v.val) := (if_neg h1).trans (if_pos h2)
      exact hread 1 _ 1 henc (by omega) rfl (by omega)
    · by_cases h4 : v.val ≤ 0x3fffffff
      · have henc : v.encode = bigEndian 4 (0x80000000 + v.val) :=
          (if_neg h1).trans ((if_neg h2).trans (if_pos h4))
        exact hread 3 _ 2 henc (by omega) rfl (by omega)
      · have henc : v.encode = bigEndian 8 (0xc000000000000000 + v.val % 2 ^ 62) :=
          (if_neg h1).trans ((if_neg h2).trans (if_neg h4))
        exact hread 7 _ 3 henc (by omega) rfl (by omega)

/-- An integer that is read from the wire is in its range. -/
theorem decode_le_maximum {bs rest : Bytes} {v : Varint} (h : decode.run bs = (.ok v, rest)) :
    v.val ≤ maximum := by
  cases bs with
  | nil => cases (Prod.mk.inj h).1
  | cons first more =>
      -- the length of an integer leaves 6, 14, 30 or 62 bits for its value
      have hbits : 8 * announced first - 2 ≤ 62 := by
        have hclass : first.toNat / 64 ≤ 3 := by
          have hbyte := first.toNat_lt
          omega
        have hlen : announced first ≤ 1 <<< 3 := by
          rw [announced, Nat.one_shiftLeft, Nat.one_shiftLeft]
          exact Nat.pow_le_pow_right (by decide) hclass
        have height : (1 <<< 3 : Nat) = 8 := rfl
        omega
      have hval : ∃ n, v.val = n % (1 <<< (8 * announced first - 2)) := by
        have hrun : ((Decoder.take (announced first)) >>= fun bs =>
            (pure ⟨ofBigEndian bs % (1 <<< (8 * announced first - 2))⟩ : Decoder Varint)).run
              (first :: more) = (.ok v, rest) := h
        rw [Decoder.run_bind] at hrun
        split at hrun
        · obtain rfl := Except.ok.inj (Prod.mk.inj hrun).1
          exact ⟨_, rfl⟩
        · cases (Prod.mk.inj hrun).1
      obtain ⟨n, hn⟩ := hval
      have hlt : v.val < 2 ^ (8 * announced first - 2) := by
        rw [hn, Nat.one_shiftLeft]
        exact Nat.mod_lt _ (Nat.two_pow_pos _)
      have hpow : 2 ^ (8 * announced first - 2) ≤ 2 ^ 62 :=
        Nat.pow_le_pow_right (by decide) hbits
      have hmax : maximum = 2 ^ 62 - 1 := rfl
      omega

/-- No integer takes more than eight bytes. -/
theorem size_le (v : Varint) : v.size ≤ 8 := by
  unfold size
  split
  · decide
  · split
    · decide
    · split <;> decide

end Varint

-- ── the two classes of integers ─────────────────────────────────────

/-- The announced size of an integer is the one that it is written in. -/
theorem sized_varint (n : Nat) : Sized (.ok (Varint.encode ⟨n⟩)) (Varint.size ⟨n⟩) := by
  rw [← Varint.length_encode]
  exact sized_ok _

theorem inverts_wide (n : Nat) : Inverts decodeWide n (encodeWide n) :=
  inverts_ite fun h => (Varint.inverts h).thenPure rfl

/-- Only what is above 62 bits is refused by the wide class. -/
theorem fails_wide (n : Nat) : Fails (encodeWide n) ↔ Varint.maximum < n := by
  rw [encodeWide, fails_ite, or_iff_left (not_fails_ok _), Nat.not_le]

theorem sized_wide (n : Nat) : Sized (encodeWide n) (Varint.size ⟨n⟩) :=
  sized_ite fun _ => sized_varint n

/-- The compact class is read back, since its reader refuses only what its writer refuses. -/
theorem inverts_compact (n : Nat) : Inverts decodeCompact n (encodeCompact n) := by
  refine inverts_ite fun h => ?_
  -- the compact class lies in the wide one
  have hwide : n ≤ Varint.maximum := Nat.le_trans h (by decide)
  exact (Varint.inverts (v := ⟨n⟩) hwide).thenPure (if_pos h)

/-- Only what is above the compact maximum is refused by the compact class. -/
theorem fails_compact (n : Nat) : Fails (encodeCompact n) ↔ Varint.compactMaximum < n := by
  rw [encodeCompact, fails_ite, or_iff_left (not_fails_ok _), Nat.not_le]

theorem sized_compact (n : Nat) : Sized (encodeCompact n) (Varint.size ⟨n⟩) :=
  sized_ite fun _ => sized_varint n

-- ── single bytes and words ──────────────────────────────────────────

theorem inverts_octet (b : UInt8) : Inverts decodeOctet b (encodeOctet b) := by
  intro bs h rest
  rw [← Except.ok.inj h]
  rfl

theorem not_fails_octet (b : UInt8) : ¬ Fails (encodeOctet b) := not_fails_ok [b]

theorem sized_octet (b : UInt8) : Sized (encodeOctet b) 1 := sized_ok [b]

/-- The two octets of a flag are read as the two flags. -/
theorem inverts_flag (b : Bool) : Inverts decodeFlag b (encodeFlag b) := by
  refine (inverts_octet _).thenPure ?_
  cases b <;> rfl

theorem not_fails_flag (b : Bool) : ¬ Fails (encodeFlag b) := not_fails_octet _

theorem sized_flag (b : Bool) : Sized (encodeFlag b) 1 := sized_octet _

/-- A word is read back from its two bytes. -/
theorem inverts_word (w : UInt16) : Inverts decodeWord w (encodeWord w) := by
  have htake := inverts_take (bigEndian 2 w.toNat)
  rw [length_bigEndian] at htake
  refine htake.thenPure ?_
  have hlt : w.toNat < 256 ^ 2 := w.toNat_lt
  rw [ofBigEndian_bigEndian, Nat.mod_eq_of_lt hlt, UInt16.ofNat_toNat]

theorem not_fails_word (w : UInt16) : ¬ Fails (encodeWord w) := not_fails_ok _

-- ── byte strings and texts ──────────────────────────────────────────

theorem encodeBytes_eq (bs : Bytes) :
    encodeBytes bs = Encoded.append (encodeCompact bs.length) (.ok bs) := rfl

/-- A byte string is read back, whatever stands behind it, because its length comes first. -/
theorem inverts_bytes (bs : Bytes) : Inverts decodeBytes bs (encodeBytes bs) :=
  (inverts_compact bs.length).andThen (inverts_take bs)

/-- A byte string fails with its length, and never because of its contents. -/
theorem fails_bytes (bs : Bytes) : Fails (encodeBytes bs) ↔ Varint.compactMaximum < bs.length := by
  rw [encodeBytes_eq, fails_append, fails_compact, or_iff_left (not_fails_ok bs)]

/-- The bytes that a byte string of `n` bytes takes. -/
def bytesSize (n : Nat) : Nat := Varint.size ⟨n⟩ + n

theorem sized_bytes (bs : Bytes) : Sized (encodeBytes bs) (bytesSize bs.length) :=
  (sized_compact bs.length).append (sized_ok bs)

@[simp] theorem length_utf8 (s : String) : (utf8 s).length = s.utf8ByteSize := by
  rfl

/-- A text is a text again when its bytes are read. -/
@[simp] theorem ofUtf8?_utf8 (s : String) : ofUtf8? (utf8 s) = some s := by
  show String.fromUTF8? s.toByteArray = some s
  exact dif_pos s.isValidUTF8

/-- A text is read back from its bytes, which are valid wherever they come from a text. -/
theorem inverts_text (s : String) : Inverts decodeText s (encodeText s) := by
  refine (inverts_bytes (utf8 s)).thenPure ?_
  rw [ofUtf8?_utf8]

theorem fails_text (s : String) :
    Fails (encodeText s) ↔ Varint.compactMaximum < s.utf8ByteSize := by
  rw [encodeText, fails_bytes, length_utf8]

theorem sized_text (s : String) : Sized (encodeText s) (bytesSize s.utf8ByteSize) := by
  rw [← length_utf8]
  exact sized_bytes (utf8 s)

-- ── optional values ─────────────────────────────────────────────────

section Optional

variable {α : Type} {encode : α → Encoded} {decode : Decoder α}

theorem encodeOptional_some (a : α) :
    encodeOptional encode (some a) = Encoded.append (encodeFlag true) (encode a) := rfl

/-- An optional value is read back if the value that is there is. -/
theorem inverts_optional {v : Option α} (h : ∀ a, v = some a → Inverts decode a (encode a)) :
    Inverts (decodeOptional decode) v (encodeOptional encode v) := by
  cases v with
  | none => exact (inverts_flag false).thenPure rfl
  | some a =>
      rw [encodeOptional_some]
      exact (inverts_flag true).andThen ((h a rfl).thenPure rfl)

/-- A missing value never fails, and one that is there fails by itself. -/
theorem fails_optional (v : Option α) :
    Fails (encodeOptional encode v) ↔ ∃ a, v = some a ∧ Fails (encode a) := by
  cases v with
  | none =>
      refine iff_of_false (not_fails_flag false) ?_
      rintro ⟨a, ha, -⟩
      exact nomatch ha
  | some a =>
      rw [encodeOptional_some, fails_append, or_iff_right (not_fails_flag true)]
      constructor
      · intro h
        exact ⟨a, rfl, h⟩
      · rintro ⟨a', ha, h⟩
        obtain rfl := Option.some.inj ha
        exact h

end Optional

end LiveMedia.Wire
