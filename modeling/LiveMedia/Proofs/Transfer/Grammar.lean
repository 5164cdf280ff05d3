import LiveMedia.Proofs.Wire.Incremental
import LiveMedia.Transfer.Receiving

/-!
# The grammar of a group stream

Behind its header a group stream is a list of objects and then what ends the group: nothing, if the
header says that the group ends with its stream, else a last object of size zero with a status of its
own. `Body` says so for the payloads of the objects and the bytes of the stream. Numbers may be written
in any length that the compact class has, IDs may have gaps and extensions may hold anything.

A receiver knows one item at a time. `Ahead` is the same grammar cut at the items: what may follow,
given what is read next. `ahead_object_iff` ties the two together, and the lemmas `ahead_…` say how what is
ahead changes when one item is read. Two facts about streams follow from them: what is ahead is read in
one way only, and `Ahead.cut` finds the place of a complete group inside a longer one.
-/

namespace LiveMedia.Transfer

open LiveMedia.Wire LiveMedia.Message

-- ── the grammar ─────────────────────────────────────────────────────

/-- The bytes are a number of the compact class. -/
def Spells (n : Nat) (bs : Bytes) : Prop := decodeCompact.run bs = (.ok n, [])

/-- What stands before the size of an object: an ID delta, and behind it the length of the extensions and
    the extensions themselves if the objects of the group have any. -/
inductive Opening (flags : GroupFlags) : Bytes → Prop where
  | plain {delta : Nat} {d : Bytes} :
      flags.hasExtensions = false → Spells delta d → Opening flags d
  | extended {delta : Nat} {d l extensions : Bytes} :
      flags.hasExtensions = true → Spells delta d → Spells extensions.length l →
      Opening flags (d ++ (l ++ extensions))

/-- An object with its payload. An empty payload has a status in its place. -/
inductive Object (flags : GroupFlags) : Bytes → Bytes → Prop where
  | empty {o s status : Bytes} :
      Opening flags o → Spells 0 s → Spells statusNormal status → Object flags [] (o ++ (s ++ status))
  | full {o s payload : Bytes} :
      Opening flags o → payload ≠ [] → Spells payload.length s →
      Object flags payload (o ++ (s ++ payload))

/-- What ends a group: the end of its stream, or an object that says so. -/
inductive Terminator (flags : GroupFlags) : Bytes → Prop where
  | implicit : flags.hasEnd = true → Terminator flags []
  | marker {o s status : Bytes} :
      flags.hasEnd = false → Opening flags o → Spells 0 s → Spells statusEndOfGroup status →
      Terminator flags (o ++ (s ++ status))

/-- What stands behind a header: the payloads of the objects and the bytes. -/
inductive Body (flags : GroupFlags) : List Bytes → Bytes → Prop where
  | terminator {bs : Bytes} : Terminator flags bs → Body flags [] bs
  | object {payload bs rest : Bytes} {payloads : List Bytes} :
      Object flags payload bs → Body flags payloads rest →
      Body flags (payload :: payloads) (bs ++ rest)

-- ── numbers ─────────────────────────────────────────────────────────

theorem Spells.ne_nil {n : Nat} {bs : Bytes} (h : Spells n bs) : bs ≠ [] := by
  rintro rfl
  exact nomatch h

/-- A number is read in one way only. -/
theorem Spells.append_inj {m n : Nat} {a b x y : Bytes} (h : Spells m a) (h' : Spells n b)
    (heq : a ++ x = b ++ y) : m = n ∧ x = y := by
  have hleft : decodeCompact.run (a ++ x) = (.ok m, x) :=
    Incremental.compact.run_eq_ok_iff.mpr ⟨a, rfl, h⟩
  have hright : decodeCompact.run (a ++ x) = (.ok n, y) :=
    Incremental.compact.run_eq_ok_iff.mpr ⟨b, heq, h'⟩
  obtain ⟨hvalue, hrest⟩ := Prod.mk.inj (hleft.symm.trans hright)
  exact ⟨Except.ok.inj hvalue, hrest⟩

-- ── the grammar, cut at items ───────────────────────────────────────

variable {flags : GroupFlags}

/-- What is read behind an ID delta. -/
def behindDelta (flags : GroupFlags) : ReceivePhase :=
  if flags.hasExtensions then .extensionLength else .size

/-- What completes a group, given what is read next: the payloads to come and the bytes. In the middle
    of a payload the first of them is what is left of it. -/
inductive Ahead (flags : GroupFlags) : ReceivePhase → List Bytes → Bytes → Prop where
  | ended : flags.hasEnd = true → Ahead flags .object [] []
  | delta {n : Nat} {d rest : Bytes} {ps : List Bytes} :
      Spells n d → Ahead flags (behindDelta flags) ps rest → Ahead flags .object ps (d ++ rest)
  | extensionLength {n : Nat} {l rest : Bytes} {ps : List Bytes} :
      Spells n l → Ahead flags (.extension n) ps rest → Ahead flags .extensionLength ps (l ++ rest)
  | extension {extensions rest : Bytes} {ps : List Bytes} :
      Ahead flags .size ps rest → Ahead flags (.extension extensions.length) ps (extensions ++ rest)
  | empty {s rest : Bytes} {ps : List Bytes} :
      Spells 0 s → Ahead flags .status ps rest → Ahead flags .size ps (s ++ rest)
  | sized {n : Nat} {s rest : Bytes} {ps : List Bytes} {frame : Live.FrameWriter} :
      Spells n s → n ≠ 0 → Ahead flags (.payload frame n) ps rest → Ahead flags .size ps (s ++ rest)
  | normal {status rest : Bytes} {ps : List Bytes} :
      Spells statusNormal status → Ahead flags .object ps rest →
      Ahead flags .status ([] :: ps) (status ++ rest)
  | last {status rest : Bytes} {ps : List Bytes} :
      flags.hasEnd = false → Spells statusEndOfGroup status → Ahead flags .final ps rest →
      Ahead flags .status ps (status ++ rest)
  | payload {p rest : Bytes} {ps : List Bytes} {frame : Live.FrameWriter} :
      Ahead flags .object ps rest → Ahead flags (.payload frame p.length) (p :: ps) (p ++ rest)
  | final : Ahead flags .final [] []

-- ── reading one item ────────────────────────────────────────────────

section Items

variable {n : Nat} {bs front rest : Bytes} {ps : List Bytes} {frame other : Live.FrameWriter}

theorem ahead_object_nil : Ahead flags .object ps [] ↔ flags.hasEnd = true ∧ ps = [] := by
  constructor
  · intro h
    generalize hbs : [] = bs at h
    cases h with
    | ended hend => exact ⟨hend, rfl⟩
    | delta hd _ => exact absurd (List.append_eq_nil_iff.mp hbs.symm).1 hd.ne_nil
  · rintro ⟨hend, rfl⟩
    exact .ended hend

theorem ahead_object (hn : Spells n front) :
    Ahead flags .object ps (front ++ rest) ↔ Ahead flags (behindDelta flags) ps rest := by
  constructor
  · intro h
    generalize hbs : front ++ rest = bs at h
    cases h with
    | ended _ => exact absurd (List.append_eq_nil_iff.mp hbs).1 hn.ne_nil
    | delta hd h =>
        obtain ⟨rfl, rfl⟩ := hn.append_inj hd hbs
        exact h
  · exact .delta hn

theorem ahead_extensionLength (hn : Spells n front) :
    Ahead flags .extensionLength ps (front ++ rest) ↔ Ahead flags (.extension n) ps rest := by
  constructor
  · intro h
    generalize hbs : front ++ rest = bs at h
    cases h with
    | extensionLength hl h =>
        obtain ⟨rfl, rfl⟩ := hn.append_inj hl hbs
        exact h
  · exact .extensionLength hn

theorem ahead_extension_iff : Ahead flags (.extension n) ps bs ↔
    ∃ extensions rest, extensions.length = n ∧ bs = extensions ++ rest ∧ Ahead flags .size ps rest := by
  constructor
  · intro h
    cases h with
    | extension h => exact ⟨_, _, rfl, rfl, h⟩
  · rintro ⟨extensions, rest, rfl, rfl, h⟩
    exact .extension h

/-- Part of the extensions may be passed over first. -/
theorem ahead_extension_add : Ahead flags (.extension (front.length + n)) ps (front ++ rest) ↔
    Ahead flags (.extension n) ps rest := by
  rw [ahead_extension_iff, ahead_extension_iff]
  constructor
  · rintro ⟨extensions, rest', hlen, hbs, h⟩
    obtain ⟨more, rfl⟩ : front <+: extensions := by
      refine List.prefix_of_prefix_length_le (List.prefix_append front rest) ?_ (hlen ▸ Nat.le_add_right _ _)
      exact hbs ▸ List.prefix_append extensions rest'
    rw [List.append_assoc] at hbs
    rw [List.length_append] at hlen
    exact ⟨more, rest', Nat.add_left_cancel hlen, List.append_cancel_left hbs, h⟩
  · rintro ⟨more, rest', rfl, rfl, h⟩
    exact ⟨front ++ more, rest', List.length_append, (List.append_assoc _ _ _).symm, h⟩

theorem ahead_extension_zero : Ahead flags (.extension 0) ps bs ↔ Ahead flags .size ps bs := by
  rw [ahead_extension_iff]
  constructor
  · rintro ⟨extensions, rest, hlen, rfl, h⟩
    obtain rfl := List.length_eq_zero_iff.mp hlen
    exact h
  · intro h
    exact ⟨[], bs, rfl, rfl, h⟩

/-- Which frame takes the payload does not matter to the stream. -/
theorem ahead_payload_iff : Ahead flags (.payload frame n) ps bs ↔
    ∃ p rest ps', p.length = n ∧ bs = p ++ rest ∧ ps = p :: ps' ∧ Ahead flags .object ps' rest := by
  constructor
  · intro h
    cases h with
    | payload h => exact ⟨_, _, _, rfl, rfl, rfl, h⟩
  · rintro ⟨p, rest, ps', rfl, rfl, rfl, h⟩
    exact .payload h

theorem ahead_size_zero (hn : Spells 0 front) :
    Ahead flags .size ps (front ++ rest) ↔ Ahead flags .status ps rest := by
  constructor
  · intro h
    generalize hbs : front ++ rest = bs at h
    cases h with
    | empty hs h =>
        obtain ⟨-, rfl⟩ := hn.append_inj hs hbs
        exact h
    | sized hs hne _ => exact absurd (hn.append_inj hs hbs).1.symm hne
  · exact .empty hn

theorem ahead_size (hn : Spells n front) (hne : n ≠ 0) :
    Ahead flags .size ps (front ++ rest) ↔ Ahead flags (.payload frame n) ps rest := by
  constructor
  · intro h
    generalize hbs : front ++ rest = bs at h
    cases h with
    | empty hs _ => exact absurd (hn.append_inj hs hbs).1 hne
    | sized hs _ h =>
        obtain ⟨rfl, rfl⟩ := hn.append_inj hs hbs
        exact ahead_payload_iff.mpr (ahead_payload_iff.mp h)
  · exact .sized hn hne

theorem ahead_status (hn : Spells n front) : Ahead flags .status ps (front ++ rest) ↔
    (n = statusNormal ∧ ∃ ps', ps = [] :: ps' ∧ Ahead flags .object ps' rest) ∨
      (n = statusEndOfGroup ∧ flags.hasEnd = false ∧ Ahead flags .final ps rest) := by
  constructor
  · intro h
    generalize hbs : front ++ rest = bs at h
    cases h with
    | normal hs h =>
        obtain ⟨hvalue, rfl⟩ := hn.append_inj hs hbs
        exact Or.inl ⟨hvalue, _, rfl, h⟩
    | last hend hs h =>
        obtain ⟨hvalue, rfl⟩ := hn.append_inj hs hbs
        exact Or.inr ⟨hvalue, hend, h⟩
  · rintro (⟨rfl, ps', rfl, h⟩ | ⟨rfl, hend, h⟩)
    · exact .normal hn h
    · exact .last hend hn h

theorem ahead_final : Ahead flags .final ps bs ↔ ps = [] ∧ bs = [] := by
  constructor
  · intro h
    cases h with
    | final => exact ⟨rfl, rfl⟩
  · rintro ⟨rfl, rfl⟩
    exact .final

/-- The phases that read a number. -/
def ReadsNumber : ReceivePhase → Prop
  | .object | .extensionLength | .size | .status => True
  | _ => False

/-- Where a number is read next, one has to be there, unless the group may end here. -/
theorem Ahead.number {phase : ReceivePhase} (h : Ahead flags phase ps bs) (hphase : ReadsNumber phase)
    (hbs : phase = .object → bs ≠ []) : ∃ n rest, decodeCompact.run bs = (.ok n, rest) := by
  have hfront : ∀ {n : Nat} {front rest : Bytes}, Spells n front →
      ∃ n' rest', decodeCompact.run (front ++ rest) = (.ok n', rest') := fun hn =>
    ⟨_, _, Incremental.compact.run_eq_ok_iff.mpr ⟨_, rfl, hn⟩⟩
  cases h with
  | ended _ => exact absurd rfl (hbs rfl)
  | delta hn _ => exact hfront hn
  | extensionLength hn _ => exact hfront hn
  | extension _ => exact hphase.elim
  | empty hn _ => exact hfront hn
  | sized hn _ _ => exact hfront hn
  | normal hn _ => exact hfront hn
  | last _ hn _ => exact hfront hn
  | payload _ => exact hphase.elim
  | final => exact hphase.elim

end Items

-- ── both views of the grammar ───────────────────────────────────────

/-- What was read of the current object by the time a phase begins. -/
def Behind (flags : GroupFlags) : ReceivePhase → Bytes → Prop
  | .object, bs => bs = []
  | .extensionLength, bs => flags.hasExtensions = true ∧ ∃ delta, Spells delta bs
  | .extension n, bs => flags.hasExtensions = true ∧
    ∃ delta d l, Spells delta d ∧ Spells n l ∧ bs = d ++ l
  | .size, bs => Opening flags bs
  | .status, bs => ∃ o s, Opening flags o ∧ Spells 0 s ∧ bs = o ++ s
  | .payload _ n, bs => n ≠ 0 ∧ ∃ o s, Opening flags o ∧ Spells n s ∧ bs = o ++ s
  | .final, bs => Terminator flags bs

/-- What is behind and what is ahead make a body. -/
theorem Ahead.body {phase : ReceivePhase} {ps : List Bytes} {bs : Bytes}
    (h : Ahead flags phase ps bs) :
    ∀ behind, Behind flags phase behind → Body flags ps (behind ++ bs) := by
  induction h with
  | ended hend =>
      rintro behind rfl
      exact .terminator (.implicit hend)
  | @delta n d rest ps hd _ ih =>
      rintro behind rfl
      refine ih d ?_
      rw [behindDelta]
      split
      · next hext => exact ⟨hext, n, hd⟩
      · next hext => exact .plain (Bool.eq_false_iff.mpr hext) hd
  | extensionLength hl _ ih =>
      rintro behind ⟨hext, delta, hd⟩
      rw [← List.append_assoc]
      exact ih _ ⟨hext, delta, behind, _, hd, hl, rfl⟩
  | extension _ ih =>
      rintro behind ⟨hext, delta, d, l, hd, hl, rfl⟩
      rw [← List.append_assoc]
      refine ih _ ?_
      rw [List.append_assoc]
      exact .extended hext hd hl
  | empty hs _ ih =>
      intro behind ho
      rw [← List.append_assoc]
      exact ih _ ⟨behind, _, ho, hs, rfl⟩
  | sized hs hne _ ih =>
      intro behind ho
      rw [← List.append_assoc]
      exact ih _ ⟨hne, behind, _, ho, hs, rfl⟩
  | normal hstatus _ ih =>
      rintro behind ⟨o, s, ho, hs, rfl⟩
      rw [← List.append_assoc, List.append_assoc o s]
      exact .object (.empty ho hs hstatus) (ih [] rfl)
  | last hend hstatus h _ =>
      rintro behind ⟨o, s, ho, hs, rfl⟩
      obtain ⟨rfl, rfl⟩ := ahead_final.mp h
      rw [List.append_nil, List.append_assoc]
      exact .terminator (.marker hend ho hs hstatus)
  | payload _ ih =>
      rintro behind ⟨hne, o, s, ho, hs, rfl⟩
      rw [← List.append_assoc, List.append_assoc o s]
      refine .object (.full ho ?_ hs) (ih [] rfl)
      exact fun hnil => hne (List.length_eq_zero_iff.mpr hnil)
  | final =>
      intro behind hbehind
      rw [List.append_nil]
      exact .terminator hbehind

/-- Behind an opening the size is read. -/
theorem Opening.ahead {o rest : Bytes} {ps : List Bytes} (ho : Opening flags o)
    (h : Ahead flags .size ps rest) : Ahead flags .object ps (o ++ rest) := by
  cases ho with
  | plain hext hd =>
      refine .delta hd ?_
      rw [behindDelta, hext]
      exact h
  | extended hext hd hl =>
      rw [List.append_assoc, List.append_assoc]
      refine .delta hd ?_
      rw [behindDelta, hext]
      exact .extensionLength hl (.extension h)

theorem Body.ahead {ps : List Bytes} {bs : Bytes} (h : Body flags ps bs) :
    Ahead flags .object ps bs := by
  induction h with
  | terminator h =>
      cases h with
      | implicit hend => exact .ended hend
      | marker hend ho hs hstatus =>
          refine ho.ahead (.empty hs ?_)
          have hlast := Ahead.last hend hstatus (.final : Ahead flags .final [] [])
          rw [List.append_nil] at hlast
          exact hlast
  | @object payload bs rest payloads h _ ih =>
      cases h with
      | empty ho hs hstatus =>
          rw [List.append_assoc, List.append_assoc]
          exact ho.ahead (.empty hs (.normal hstatus ih))
      | full ho hne hs =>
          rw [List.append_assoc, List.append_assoc]
          have hpayload : Ahead flags (.payload ⟨0, 0⟩ payload.length) (payload :: payloads)
              (payload ++ rest) := .payload ih
          refine ho.ahead (.sized hs ?_ hpayload)
          exact fun hzero => hne (List.length_eq_zero_iff.mp hzero)

/-- **The two views agree.** -/
theorem ahead_object_iff {ps : List Bytes} {bs : Bytes} :
    Ahead flags .object ps bs ↔ Body flags ps bs :=
  ⟨fun h => h.body [] rfl, Body.ahead⟩

-- ── groups within streams ───────────────────────────────────────────

/-- Without objects a group that ends with its stream has no bytes. -/
theorem Body.eq_nil {bs : Bytes} (h : Body flags [] bs) (hend : flags.hasEnd = true) : bs = [] := by
  cases h with
  | terminator h =>
      cases h with
      | implicit _ => rfl
      | marker hmarked _ _ _ => exact nomatch hmarked.symm.trans hend

/-- A stream that completes a group after `cut` and also after `cut ++ left`: with an end that is marked
    nothing is left, and otherwise what is left are further objects. -/
theorem Ahead.cut {phase : ReceivePhase} {held : List Bytes} {cut : Bytes}
    (h : Ahead flags phase held cut) : ∀ {ps : List Bytes} {left : Bytes},
      Ahead flags phase ps (cut ++ left) →
        (flags.hasEnd = false → left = []) ∧
          ∃ later, ps = held ++ later ∧ (flags.hasEnd = true → Ahead flags .object later left) := by
  induction h with
  | ended hend =>
      intro ps left h'
      exact ⟨fun h => absurd hend (h ▸ Bool.false_ne_true), ps, rfl, fun _ => h'⟩
  | delta hn _ ih =>
      intro ps left h'
      rw [List.append_assoc] at h'
      exact ih ((ahead_object hn).mp h')
  | extensionLength hn _ ih =>
      intro ps left h'
      rw [List.append_assoc] at h'
      exact ih ((ahead_extensionLength hn).mp h')
  | @extension extensions _ _ _ ih =>
      intro ps left h'
      rw [List.append_assoc] at h'
      exact ih (ahead_extension_zero.mp (ahead_extension_add.mp h'))
  | empty hn _ ih =>
      intro ps left h'
      rw [List.append_assoc] at h'
      exact ih ((ahead_size_zero hn).mp h')
  | sized hn hne _ ih =>
      intro ps left h'
      rw [List.append_assoc] at h'
      exact ih ((ahead_size hn hne).mp h')
  | normal hn _ ih =>
      intro ps left h'
      rw [List.append_assoc] at h'
      rcases (ahead_status hn).mp h' with ⟨-, ps', rfl, hnext⟩ | ⟨hvalue, -, -⟩
      · obtain ⟨hleft, later, rfl, hlater⟩ := ih hnext
        exact ⟨hleft, later, rfl, hlater⟩
      · exact absurd hvalue (by decide)
  | last hend hn _ ih =>
      intro ps left h'
      rw [List.append_assoc] at h'
      rcases (ahead_status hn).mp h' with ⟨hvalue, -⟩ | ⟨-, -, hnext⟩
      · exact absurd hvalue (by decide)
      · exact ih hnext
  | @payload p rest _ _ _ ih =>
      intro ps left h'
      obtain ⟨p', rest', ps', hlen, hbs, rfl, hnext⟩ := ahead_payload_iff.mp h'
      rw [List.append_assoc] at hbs
      obtain ⟨rfl, rfl⟩ := List.append_inj hbs hlen.symm
      obtain ⟨hleft, later, rfl, hlater⟩ := ih hnext
      exact ⟨hleft, later, rfl, hlater⟩
  | final =>
      intro ps left h'
      obtain ⟨rfl, rfl⟩ := ahead_final.mp h'
      exact ⟨fun _ => rfl, [], rfl, fun hend => .ended hend⟩

end LiveMedia.Transfer
