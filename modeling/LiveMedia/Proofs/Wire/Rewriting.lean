import LiveMedia.Proofs.Wire.Incremental
import LiveMedia.Proofs.Wire.Primitive

/-!
# What was read can be written again

A decoder reads more byte strings than an encoder writes: an integer may stand in a longer form than it
needs. Whatever is read can nevertheless be written, and what is written then is never longer than what was
read (`Rewrites`). The reason is that an integer is written in the shortest of its forms, and that every
bound of an encoder is one that its decoder has checked, or that the form cannot exceed.

A message is read field by field, so the property is carried along with what has been read so far.
`RewritesBehind` speaks of a decoder that stands behind other fields, whose wire form is known;
`RewritesBehind.read` adds one field, and at the end of the fields the wire form is that of the message.
-/

namespace LiveMedia.Wire

variable {α β : Type}

-- ── forms without bytes ─────────────────────────────────────────────

@[simp] theorem Encoded.nil_append (x : Encoded) : Encoded.append (.ok []) x = x := by
  cases x <;> rfl

/-- It does not matter which of three forms are put together first. -/
theorem Encoded.append_assoc (x y z : Encoded) :
    Encoded.append (Encoded.append x y) z = Encoded.append x (Encoded.append y z) := by
  cases x with
  | error e => rfl
  | ok front =>
      cases y with
      | error e => rfl
      | ok middle =>
          cases z with
          | error e => rfl
          | ok back => exact congrArg Except.ok (List.append_assoc front middle back)

theorem exists_ok_of_not_fails {x : Encoded} (h : ¬ Fails x) : ∃ bs, x = .ok bs := by
  cases x with
  | error e => exact absurd ⟨e, rfl⟩ h
  | ok bs => exact ⟨bs, rfl⟩

-- ── reading and writing again ───────────────────────────────────────

/-- The decoder reads the value from some bytes. -/
def Reads (d : Decoder α) (a : α) : Prop := ∃ bs rest, d.run bs = (.ok a, rest)

/-- What two decoders in a row read was read by each of them. -/
theorem reads_bind {d : Decoder α} {f : α → Decoder β} {b : β} (h : Reads (d >>= f) b) :
    ∃ a, Reads d a ∧ Reads (f a) b := by
  obtain ⟨bs, rest, hrun⟩ := h
  cases hfirst : d.run bs with
  | mk answer left =>
      cases answer with
      | error e =>
          rw [Decoder.run_bind_error hfirst] at hrun
          cases hrun
      | ok a =>
          rw [Decoder.run_bind_ok hfirst] at hrun
          exact ⟨a, ⟨bs, left, hfirst⟩, left, rest, hrun⟩

theorem reads_pure {a a' : α} (h : Reads (pure a) a') : a' = a := by
  obtain ⟨bs, rest, hrun⟩ := h
  exact (Except.ok.inj (Prod.mk.inj hrun).1).symm

/-- Whatever `d` reads has a wire form, and it takes no more bytes than were read. -/
def Rewrites (d : Decoder α) (encode : α → Encoded) : Prop :=
  ∀ bs rest a, d.run bs = (.ok a, rest) →
    ∃ out, encode a = .ok out ∧ out.length + rest.length ≤ bs.length

/-- The fields before `d` have the wire form `front`. Whatever is made of them and of what `d` reads has a
    wire form, and it takes no more bytes than `front` and what `d` has read. -/
def RewritesBehind (front : Encoded) (d : Decoder α) (encode : α → Encoded) : Prop :=
  ∀ before, front = .ok before → ∀ bs rest a, d.run bs = (.ok a, rest) →
    ∃ out, encode a = .ok out ∧ out.length + rest.length ≤ before.length + bs.length

section Fields

variable {d : Decoder α} {f : α → Decoder β} {x : α → Encoded} {z : β → Encoded} {front : Encoded}

/-- Nothing stands before the first field. -/
theorem Rewrites.first (h : RewritesBehind (.ok []) d x) : Rewrites d x := by
  intro bs rest a hrun
  obtain ⟨out, hout, hle⟩ := h [] rfl bs rest a hrun
  exact ⟨out, hout, Nat.zero_add bs.length ▸ hle⟩

/-- **One field more.** -/
theorem RewritesBehind.read (hd : Rewrites d x)
    (hf : ∀ a, Reads d a → RewritesBehind (Encoded.append front (x a)) (f a) z) :
    RewritesBehind front (d >>= f) z := by
  intro before hbefore bs rest b hrun
  cases hfirst : d.run bs with
  | mk answer left =>
      cases answer with
      | error e =>
          rw [Decoder.run_bind_error hfirst] at hrun
          cases hrun
      | ok a =>
          rw [Decoder.run_bind_ok hfirst] at hrun
          obtain ⟨field, hfield, hle⟩ := hd bs left a hfirst
          have hnext : Encoded.append front (x a) = .ok (before ++ field) := by
            rw [hbefore, hfield]
            rfl
          obtain ⟨out, hout, hle'⟩ := hf a ⟨bs, left, hfirst⟩ _ hnext left rest b hrun
          rw [List.length_append] at hle'
          exact ⟨out, hout, by omega⟩

/-- Behind the last field the wire form is known. -/
theorem RewritesBehind.done {b : β} (h : z b = front) : RewritesBehind front (pure b) z := by
  intro before hbefore bs rest b' hrun
  obtain ⟨hb, rfl⟩ := Prod.mk.inj hrun
  obtain rfl := Except.ok.inj hb
  exact ⟨before, h.trans hbefore, Nat.le_refl _⟩

/-- What is refused is not written again. -/
theorem RewritesBehind.fail (e : DecodeError) : RewritesBehind front (.fail e) z := by
  intro before _ bs rest b hrun
  cases hrun

/-- The condition that a decoder has checked may be used where the form is written. -/
theorem RewritesBehind.ite {c : Prop} [Decidable c] {d d' : Decoder β}
    (h : c → RewritesBehind front d z) (h' : ¬ c → RewritesBehind front d' z) :
    RewritesBehind front (if c then d else d') z := by
  split
  · next hc => exact h hc
  · next hc => exact h' hc

/-- The wire form of the last field ends that of the message. -/
theorem RewritesBehind.ends {z : α → Encoded} (hd : Rewrites d x)
    (hz : ∀ a, Reads d a → z a = Encoded.append front (x a)) : RewritesBehind front d z := by
  intro before hbefore bs rest a hrun
  obtain ⟨field, hfield, hle⟩ := hd bs rest a hrun
  refine ⟨before ++ field, ?_, ?_⟩
  · rw [hz a ⟨bs, rest, hrun⟩, hbefore, hfield]
    rfl
  · rw [List.length_append]
    omega

/-- The last field may be made into the message. -/
theorem RewritesBehind.last (hd : Rewrites d x) {g : α → β}
    (hz : ∀ a, Reads d a → z (g a) = Encoded.append front (x a)) :
    RewritesBehind front (d >>= fun a => pure (g a)) z :=
  .read hd fun a ha => .done (hz a ha)

/-- What is made of one field is written like the field. -/
theorem Rewrites.map (hd : Rewrites d x) {g : α → β} (hz : ∀ a, Reads d a → z (g a) = x a) :
    Rewrites (d >>= fun a => pure (g a)) z :=
  .first (.last hd fun a ha => (hz a ha).trans (Encoded.nil_append (x a)).symm)

end Fields

-- ── integers ────────────────────────────────────────────────────────

/-- An integer that leaves room for the length bits of a class takes no more bytes than the class. -/
theorem Varint.size_le_of_lt {v : Varint} {c : Nat} (hc : c < 4) (h : v.val < 2 ^ (8 * 2 ^ c - 2)) :
    v.size ≤ 2 ^ c := by
  unfold Varint.size
  match c, hc with
  | 0, _ =>
      have hle : v.val ≤ 0x3f := Nat.le_of_lt_succ h
      rw [if_pos hle]
      exact Nat.le_refl 1
  | 1, _ =>
      have hle : v.val ≤ 0x3fff := Nat.le_of_lt_succ h
      rw [if_pos hle]
      split <;> decide
  | 2, _ =>
      have hle : v.val ≤ 0x3fffffff := Nat.le_of_lt_succ h
      rw [if_pos hle]
      split
      · decide
      · split <;> decide
  | 3, _ => exact v.size_le

/-- **An integer is written in its shortest form**, and what is read is of the wide class. -/
theorem Varint.size_le_of_run {bs rest : Bytes} {v : Varint} (h : Varint.decode.run bs = (.ok v, rest)) :
    v.val ≤ maximum ∧ v.size + rest.length ≤ bs.length := by
  cases bs with
  | nil => cases h
  | cons first bs =>
      rw [Incremental.run_varint_cons] at h
      generalize first :: bs = bytes at h ⊢
      have hclass : first.toNat / 64 < 4 := by
        have hlt := first.toNat_lt
        omega
      have hannounced : announced first = 2 ^ (first.toNat / 64) := Nat.one_shiftLeft _
      rw [hannounced] at h
      generalize first.toNat / 64 = c at h hclass
      by_cases henough : 2 ^ c ≤ bytes.length
      · rw [Decoder.run_bind_ok (Decoder.run_take_of_le henough)] at h
        obtain ⟨hv, rfl⟩ := Prod.mk.inj h
        have hlt : v.val < 2 ^ (8 * 2 ^ c - 2) := by
          obtain rfl := Except.ok.inj hv
          show _ % (1 <<< (8 * 2 ^ c - 2)) < _
          rw [Nat.one_shiftLeft]
          exact Nat.mod_lt _ (Nat.two_pow_pos _)
        constructor
        · -- the longest class is the wide one
          have hlongest : 8 * 2 ^ c - 2 ≤ 62 := by
            have hpow : 2 ^ c ≤ 2 ^ 3 := Nat.pow_le_pow_right (by decide) (Nat.le_of_lt_succ hclass)
            omega
          exact Nat.le_of_lt_succ (Nat.lt_of_lt_of_le hlt (Nat.pow_le_pow_right (by decide) hlongest))
        · have hsize := size_le_of_lt hclass hlt
          rw [List.length_drop]
          omega
      · rw [Decoder.run_bind_error (Decoder.run_take_of_lt (Nat.lt_of_not_le henough))] at h
        cases h

theorem rewrites_varint : Rewrites Varint.decode fun v => .ok v.encode := by
  intro bs rest v h
  refine ⟨v.encode, rfl, ?_⟩
  rw [Varint.length_encode]
  exact (Varint.size_le_of_run h).2

theorem rewrites_wide : Rewrites decodeWide encodeWide := by
  refine rewrites_varint.map fun v hv => ?_
  obtain ⟨bs, rest, hrun⟩ := hv
  exact if_pos (Varint.size_le_of_run hrun).1

theorem rewrites_compact : Rewrites decodeCompact encodeCompact := by
  refine .first (.read rewrites_varint fun v _ => .ite (fun hle => .done ?_) fun _ => .fail _)
  rw [Encoded.nil_append]
  exact if_pos hle

-- ── octets and flags ────────────────────────────────────────────────

theorem rewrites_octet : Rewrites decodeOctet encodeOctet := by
  intro bs rest b h
  cases bs with
  | nil => cases h
  | cons b' bs =>
      obtain ⟨hb, rfl⟩ := Prod.mk.inj h
      exact ⟨[b], rfl, Nat.le_of_eq (Nat.add_comm 1 bs.length)⟩

theorem rewrites_flag : Rewrites decodeFlag encodeFlag := by
  refine .first (.read rewrites_octet fun b _ => ?_)
  rw [Encoded.nil_append]
  refine .ite (fun hzero => .done ?_) fun _ => .ite (fun hone => .done ?_) fun _ => .fail _
  · rw [hzero]
    rfl
  · rw [hone]
    rfl

-- ── words, bytes and texts ──────────────────────────────────────────

/-- As many bytes are read as were asked for. -/
theorem length_of_reads_take {n : Nat} {bs : Bytes} (h : Reads (Decoder.take n) bs) : bs.length = n := by
  obtain ⟨all, rest, hrun⟩ := h
  by_cases hn : n ≤ all.length
  · rw [Decoder.run_take_of_le hn] at hrun
    obtain rfl := Except.ok.inj (Prod.mk.inj hrun).1
    exact List.length_take_of_le hn
  · rw [Decoder.run_take_of_lt (Nat.lt_of_not_le hn)] at hrun
    cases hrun

theorem rewrites_take (n : Nat) : Rewrites (Decoder.take n) .ok := by
  intro bs rest out h
  refine ⟨out, rfl, ?_⟩
  by_cases hn : n ≤ bs.length
  · rw [Decoder.run_take_of_le hn] at h
    obtain ⟨hout, rfl⟩ := Prod.mk.inj h
    obtain rfl := Except.ok.inj hout
    have hlength : (bs.take n).length + (bs.drop n).length = bs.length := by
      rw [← List.length_append, List.take_append_drop]
    exact Nat.le_of_eq hlength
  · rw [Decoder.run_take_of_lt (Nat.lt_of_not_le hn)] at h
    cases h

theorem rewrites_word : Rewrites decodeWord encodeWord := by
  intro bs rest w h
  refine ⟨bigEndian 2 w.toNat, rfl, ?_⟩
  rw [length_bigEndian]
  by_cases hn : 2 ≤ bs.length
  · rw [decodeWord, Decoder.run_bind_ok (Decoder.run_take_of_le hn)] at h
    obtain ⟨-, rfl⟩ := Prod.mk.inj h
    rw [List.length_drop]
    omega
  · rw [decodeWord, Decoder.run_bind_error (Decoder.run_take_of_lt (Nat.lt_of_not_le hn))] at h
    cases h

theorem rewrites_bytes : Rewrites decodeBytes encodeBytes := by
  refine .first (.read rewrites_compact fun n _ => .ends (rewrites_take n) fun bs hbs => ?_)
  rw [encodeBytes_eq, length_of_reads_take hbs, Encoded.nil_append]

/-- A text that was read has the bytes that it was read from. -/
theorem utf8_of_ofUtf8? {bs : Bytes} {s : String} (h : ofUtf8? bs = some s) : utf8 s = bs := by
  unfold ofUtf8? String.fromUTF8? at h
  split at h
  · obtain rfl := Option.some.inj h
    rfl
  · cases h

theorem rewrites_text : Rewrites decodeText encodeText := by
  refine .first (.read rewrites_bytes fun bs _ => ?_)
  rw [Encoded.nil_append]
  cases htext : ofUtf8? bs with
  | none => exact .fail _
  | some s =>
      refine .done ?_
      rw [encodeText, utf8_of_ofUtf8? htext]

-- ── lists ───────────────────────────────────────────────────────────

section Lists

variable {d : Decoder α} {x : α → Encoded}

theorem length_of_reads_replicate {n : Nat} {as : List α} (h : Reads (Decoder.replicate d n) as) :
    as.length = n := by
  induction n generalizing as with
  | zero => exact congrArg List.length (reads_pure h)
  | succ n ih =>
      obtain ⟨a, -, hrest⟩ := reads_bind h
      obtain ⟨as', has', hpure⟩ := reads_bind hrest
      rw [reads_pure hpure, List.length_cons, ih has']

theorem rewrites_replicate (hd : Rewrites d x) (n : Nat) :
    Rewrites (Decoder.replicate d n) (encodeAll x) := by
  induction n with
  | zero => exact .first (.done rfl)
  | succ n ih =>
      refine .first (.read hd fun a _ => .last ih fun as _ => ?_)
      rw [Encoded.nil_append]
      exact encodeAll_cons a as

end Lists

end LiveMedia.Wire
