import LiveMedia.Wire.Primitive

/-!
# Decoders that may be asked too early

A reader runs a decoder on what has arrived and runs it again when it was short. That is sound only if
an answer once given stands: `Incremental.extend` says that every answer but `short` stays the same
when more bytes come behind, and that these bytes are left over. No decoder may therefore look at how
many bytes are behind its value. `Incremental.front` is the other half: the bytes that a value was read
from are enough to read it.

Both are kept by running one decoder after another (`Incremental.bind`), so each decoder of a message
inherits them from its fields.
-/

namespace LiveMedia.Wire

variable {α β : Type}

/-- The answer of a decoder: a value with the number of bytes that it takes, or an error. -/
def Decoder.answer (d : Decoder α) (bs : Bytes) : Except DecodeError (α × Nat) :=
  match d.run bs with
  | (.ok a, rest) => .ok (a, bs.length - rest.length)
  | (.error e, _) => .error e

/-- Only `short` depends on what is missing. -/
structure Incremental (d : Decoder α) : Prop where
  /-- An answer other than `short` stands, and whatever comes behind is left over. -/
  extend : ∀ {bs rest : Bytes} {r : Except DecodeError α}, d.run bs = (r, rest) →
    r ≠ .error .short → ∀ more, d.run (bs ++ more) = (r, rest ++ more)
  /-- A value is read from a front of the bytes, and that front is enough. -/
  front : ∀ {bs rest : Bytes} {a : α}, d.run bs = (.ok a, rest) →
    ∃ front, bs = front ++ rest ∧ d.run front = (.ok a, [])

namespace Incremental

variable {d : Decoder α} {f : α → Decoder β}

-- ── what follows from it ────────────────────────────────────────────

/-- A value is read from exactly one front, whatever stands behind it. -/
theorem run_eq_ok_iff (hd : Incremental d) {bs rest : Bytes} {a : α} :
    d.run bs = (.ok a, rest) ↔ ∃ front, bs = front ++ rest ∧ d.run front = (.ok a, []) := by
  constructor
  · exact hd.front
  · rintro ⟨front, rfl, hfront⟩
    exact hd.extend hfront (fun h => nomatch h) rest

/-- Part of a front is not enough. -/
theorem short_of_lt (hd : Incremental d) {cut left : Bytes} {a : α}
    (h : d.run (cut ++ left) = (.ok a, [])) (hleft : left ≠ []) :
    (d.run cut).1 = .error .short := by
  by_cases hshort : (d.run cut).1 = .error .short
  · exact hshort
  · have hsame : d.run (cut ++ left) = ((d.run cut).1, (d.run cut).2 ++ left) :=
      hd.extend rfl hshort left
    rw [h] at hsame
    have hnil : [] = (d.run cut).2 ++ left := congrArg Prod.snd hsame
    exact absurd (List.append_eq_nil_iff.mp hnil.symm).2 hleft

/-- The answer with its number of bytes stands as well. -/
theorem answer_append (hd : Incremental d) {bs : Bytes} (h : d.answer bs ≠ .error .short)
    (more : Bytes) : d.answer (bs ++ more) = d.answer bs := by
  unfold Decoder.answer at h ⊢
  cases hrun : d.run bs with
  | mk r rest =>
      rw [hrun] at h
      cases r with
      | ok a =>
          rw [hd.extend hrun (fun h => nomatch h) more]
          show Except.ok (a, _) = Except.ok (a, _)
          rw [List.length_append, List.length_append, Nat.add_sub_add_right]
      | error e =>
          have he : (.error e : Except DecodeError α) ≠ .error .short := by
            intro heq
            obtain rfl := Except.error.inj heq
            exact h rfl
          rw [hd.extend hrun he more]

/-- The number of bytes that a value takes is where its rest begins. -/
theorem run_of_answer (hd : Incremental d) {bs : Bytes} {a : α} {n : Nat}
    (h : d.answer bs = .ok (a, n)) : n ≤ bs.length ∧ d.run bs = (.ok a, bs.drop n) := by
  unfold Decoder.answer at h
  cases hrun : d.run bs with
  | mk r rest =>
      rw [hrun] at h
      cases r with
      | error e => exact nomatch h
      | ok a' =>
          obtain ⟨rfl, rfl⟩ := Prod.mk.inj (Except.ok.inj h)
          obtain ⟨front, rfl, -⟩ := hd.front hrun
          have hlen : (front ++ rest).length - rest.length = front.length := by
            rw [List.length_append, Nat.add_sub_cancel]
          rw [hlen, List.drop_left]
          exact ⟨List.length_append ▸ Nat.le_add_right _ _, rfl⟩

-- ── building decoders ───────────────────────────────────────────────

protected theorem pure (a : α) : Incremental (pure a : Decoder α) where
  extend := by
    intro bs rest r h _ more
    obtain ⟨rfl, rfl⟩ := Prod.mk.inj h
    exact Decoder.run_pure a _
  front := by
    intro bs rest a' h
    obtain ⟨ha, rfl⟩ := Prod.mk.inj h
    obtain rfl := Except.ok.inj ha
    exact ⟨[], rfl, Decoder.run_pure _ _⟩

protected theorem fail (e : DecodeError) : Incremental (.fail e : Decoder α) where
  extend := by
    intro bs rest r h _ more
    obtain ⟨rfl, rfl⟩ := Prod.mk.inj h
    exact Decoder.run_fail e _
  front := by
    intro bs rest a h
    exact nomatch h

/-- **One decoder after another.** -/
theorem bind (hd : Incremental d) (hf : ∀ a, Incremental (f a)) : Incremental (d >>= f) where
  extend := by
    intro bs rest r h hr more
    cases hrun : d.run bs with
    | mk first left =>
        cases first with
        | ok a =>
            rw [Decoder.run_bind_ok hrun] at h
            have hfirst := hd.extend hrun (fun h => nomatch h) more
            rw [Decoder.run_bind_ok hfirst]
            exact (hf a).extend h hr more
        | error e =>
            rw [Decoder.run_bind_error hrun] at h
            obtain ⟨rfl, rfl⟩ := Prod.mk.inj h
            have he : (.error e : Except DecodeError α) ≠ .error .short := by
              intro heq
              exact hr (congrArg _ (Except.error.inj heq))
            exact Decoder.run_bind_error (hd.extend hrun he more)
  front := by
    intro bs rest b h
    cases hrun : d.run bs with
    | mk first left =>
        cases first with
        | error e =>
            rw [Decoder.run_bind_error hrun] at h
            exact nomatch h
        | ok a =>
            rw [Decoder.run_bind_ok hrun] at h
            obtain ⟨one, rfl, hone⟩ := hd.front hrun
            obtain ⟨two, rfl, htwo⟩ := (hf a).front h
            refine ⟨one ++ two, (List.append_assoc one two rest).symm, ?_⟩
            have hfirst : d.run (one ++ two) = (.ok a, two) :=
              hd.extend hone (fun h => nomatch h) two
            rw [Decoder.run_bind_ok hfirst]
            exact htwo

/-- A value may be made into another one. -/
theorem map (hd : Incremental d) (g : α → β) : Incremental (d >>= fun a => pure (g a)) :=
  hd.bind fun a => .pure (g a)

theorem ite {c : Prop} [Decidable c] {d' : Decoder α} (hd : c → Incremental d)
    (hd' : ¬ c → Incremental d') : Incremental (if c then d else d') := by
  split
  · next h => exact hd h
  · next h => exact hd' h

theorem take (n : Nat) : Incremental (Decoder.take n) where
  extend := by
    intro bs rest r h hr more
    by_cases hn : n ≤ bs.length
    · rw [Decoder.run_take_of_le hn] at h
      obtain ⟨rfl, rfl⟩ := Prod.mk.inj h
      have hmore : n ≤ (bs ++ more).length := by
        rw [List.length_append]
        exact Nat.le_add_right_of_le hn
      rw [Decoder.run_take_of_le hmore, List.take_append_of_le_length hn,
        List.drop_append_of_le_length hn]
    · rw [Decoder.run_take_of_lt (Nat.lt_of_not_le hn)] at h
      exact absurd (congrArg Prod.fst h).symm hr
  front := by
    intro bs rest a h
    by_cases hn : n ≤ bs.length
    · rw [Decoder.run_take_of_le hn] at h
      obtain ⟨ha, rfl⟩ := Prod.mk.inj h
      obtain rfl := Except.ok.inj ha
      refine ⟨bs.take n, (List.take_append_drop n bs).symm, ?_⟩
      have hlen : (bs.take n).length = n := List.length_take_of_le hn
      have hrun := Decoder.run_take_append (bs.take n) []
      rw [hlen, List.append_nil] at hrun
      exact hrun
    · rw [Decoder.run_take_of_lt (Nat.lt_of_not_le hn)] at h
      exact nomatch h

theorem replicate (hd : Incremental d) (n : Nat) : Incremental (Decoder.replicate d n) := by
  induction n with
  | zero => exact .pure []
  | succ n ih => exact hd.bind fun a => ih.map fun as => a :: as

-- ── primitive forms ─────────────────────────────────────────────────

theorem octet : Incremental decodeOctet where
  extend := by
    intro bs rest r h hr more
    cases bs with
    | nil => exact absurd (congrArg Prod.fst h).symm hr
    | cons b bs =>
        obtain ⟨rfl, rfl⟩ := Prod.mk.inj h
        rfl
  front := by
    intro bs rest a h
    cases bs with
    | nil => exact nomatch h
    | cons b bs =>
        obtain ⟨hb, rfl⟩ := Prod.mk.inj h
        obtain rfl := Except.ok.inj hb
        exact ⟨[b], rfl, rfl⟩

/-- An integer is read by a decoder that depends on the first byte alone. -/
theorem run_varint_cons (first : UInt8) (rest : Bytes) :
    Varint.decode.run (first :: rest) =
      (Decoder.take (Varint.announced first) >>= fun bs =>
        pure ⟨ofBigEndian bs % (1 <<< (8 * Varint.announced first - 2))⟩ :
        Decoder Varint).run (first :: rest) := rfl

/-- Every integer has at least the byte that announces its length. -/
theorem announced_pos (first : UInt8) : 0 < Varint.announced first := by
  rw [Varint.announced, Nat.one_shiftLeft]
  exact Nat.two_pow_pos _

/-- The first byte says how many bytes to wait for. -/
theorem varint : Incremental Varint.decode where
  extend := by
    intro bs rest r h hr more
    cases bs with
    | nil => exact absurd (congrArg Prod.fst h).symm hr
    | cons first bs =>
        rw [run_varint_cons] at h
        rw [List.cons_append, run_varint_cons]
        exact ((take _).map _).extend h hr more
  front := by
    intro bs rest v h
    cases bs with
    | nil => exact nomatch h
    | cons first bs =>
        rw [run_varint_cons] at h
        obtain ⟨front, hbs, hfront⟩ := ((take _).map _).front h
        -- the front is not empty, so it starts with the byte that announces its length
        cases front with
        | nil =>
            rw [Decoder.run_bind_error (Decoder.run_take_of_lt (announced_pos first))] at hfront
            exact nomatch hfront
        | cons other front =>
            obtain ⟨rfl, rfl⟩ := List.cons.inj hbs
            exact ⟨first :: front, rfl, hfront⟩

theorem wide : Incremental decodeWide := varint.map _

theorem compact : Incremental decodeCompact :=
  varint.bind fun _ => ite (fun _ => .pure _) (fun _ => .fail _)

theorem flag : Incremental decodeFlag :=
  octet.bind fun _ => ite (fun _ => .pure _) fun _ => ite (fun _ => .pure _) (fun _ => .fail _)

theorem word : Incremental decodeWord := (take 2).map _

/-- The length comes first and says how many bytes to wait for. -/
theorem bytes : Incremental decodeBytes := compact.bind take

/-- Bytes that are no text are found so only when all of them are there. -/
theorem text : Incremental decodeText := by
  refine bytes.bind fun bs => ?_
  cases ofUtf8? bs with
  | some s => exact .pure s
  | none => exact .fail _

theorem optional (hd : Incremental d) : Incremental (decodeOptional d) :=
  flag.bind fun _ => ite (fun _ => hd.map _) (fun _ => .pure _)

end Incremental

end LiveMedia.Wire
