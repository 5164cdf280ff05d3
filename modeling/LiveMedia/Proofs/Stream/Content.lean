import LiveMedia.Proofs.Wire.Incremental
import LiveMedia.Stream.Reader

/-!
# What a reader reads

However a stream is cut into blocks, and however often it has to be waited for, it has a content: the
bytes up to its end, and whether it ends or fails there. Every call on a reader is described by content
alone. A value was read from a front of the content, and the reader goes on behind that front
(`Reader.Past`). A call that is pending has lost nothing, and the source has one wait fewer. A call
that fails says what is wrong with the content.

`Reader.Answers` is that description. Callers argue by its three cases and never look at blocks.
-/

namespace LiveMedia.Stream

open LiveMedia.Wire

variable {α : Type}

-- ── sources ─────────────────────────────────────────────────────────

namespace Source

/-- The bytes that are delivered before the stream ends or fails. -/
def bytes : Source → Bytes
  | .data (b :: bs) :: rest => (b :: bs) ++ bytes rest
  | .wait :: rest => bytes rest
  | _ => []

/-- How the stream fails, if it does not end. -/
def failure? : Source → Option IoError
  | .data (_ :: _) :: rest => failure? rest
  | .wait :: rest => failure? rest
  | .failure e :: _ => some e
  | _ => none

/-- The number of reads that find nothing. -/
def waits : Source → Nat
  | [] => 0
  | .wait :: rest => waits rest + 1
  | _ :: rest => waits rest

theorem length_bytes_le (s : Source) : s.bytes.length ≤ s.volume := by
  induction s with
  | nil => exact Nat.le_refl 0
  | cons arrival rest ih =>
      cases arrival with
      | data bs =>
          cases bs with
          | nil => exact Nat.zero_le _
          | cons b bs =>
              show ((b :: bs) ++ bytes rest).length ≤ (b :: bs).length + volume rest
              rw [List.length_append]
              exact Nat.add_le_add_left ih _
      | wait => exact ih
      | finish => exact Nat.zero_le _
      | failure e => exact Nat.zero_le _

end Source

namespace Reader

-- ── content ─────────────────────────────────────────────────────────

/-- All bytes that can still be read. -/
def content (r : Reader) : Bytes := r.buffer ++ r.source.bytes

/-- How the stream fails behind the content, if it does not end there. -/
def failure? (r : Reader) : Option IoError := r.source.failure?

/-- The number of calls that may be pending. -/
def waits (r : Reader) : Nat := r.source.waits

/-- What a call is told that fails to decode: the end of the stream is short, and a stream that fails
    is to blame itself. -/
def refusal (r : Reader) : DecodeError → TransportError
  | .short => match r.failure? with
    | some e => .io e
    | none => .decode .short
  | e => .decode e

/-- The reader `r'` is where `r` is once `front` was read. -/
structure Past (r : Reader) (front : Bytes) (r' : Reader) : Prop where
  content_eq : r.content = front ++ r'.content
  failure_eq : r'.failure? = r.failure?
  waits_le : r'.waits ≤ r.waits

theorem Past.refl (r : Reader) : r.Past [] r := ⟨rfl, rfl, Nat.le_refl _⟩

theorem Past.trans {r r' r'' : Reader} {front next : Bytes} (h : r.Past front r')
    (h' : r'.Past next r'') : r.Past (front ++ next) r'' where
  content_eq := by rw [h.content_eq, h'.content_eq, List.append_assoc]
  failure_eq := h'.failure_eq.trans h.failure_eq
  waits_le := Nat.le_trans h'.waits_le h.waits_le

theorem Past.length_le {r r' : Reader} {front : Bytes} (h : r.Past front r') :
    front.length + r'.content.length = r.content.length := by
  rw [h.content_eq, List.length_append]

/-- What a call on a reader comes to: it gives a value, or it is pending and nothing is lost, or it
    fails. -/
inductive Answers (r : Reader) (gives : α → Reader → Prop) (refuses : TransportError → Prop) :
    Attempt TransportError α × Reader → Prop where
  | value {a : α} {r' : Reader} : gives a r' → Answers r gives refuses (.ok a, r')
  | pending {r' : Reader} : r.Past [] r' → r'.waits < r.waits →
      Answers r gives refuses (.error .pending, r')
  | failed {e : TransportError} {r' : Reader} : refuses e →
      Answers r gives refuses (.error (.failed e), r')

-- ── blocks ──────────────────────────────────────────────────────────

/-- A block moves from the source to the buffer. -/
theorem past_data (buffer : Bytes) (b : UInt8) (bs : Bytes) (rest : Source) :
    Past ⟨buffer, .data (b :: bs) :: rest⟩ [] ⟨buffer ++ (b :: bs), rest⟩ where
  content_eq := (List.append_assoc buffer (b :: bs) (Source.bytes rest)).symm
  failure_eq := rfl
  waits_le := Nat.le_refl _

theorem past_wait (buffer : Bytes) (rest : Source) :
    Past ⟨buffer, .wait :: rest⟩ [] ⟨buffer, rest⟩ where
  content_eq := rfl
  failure_eq := rfl
  waits_le := Nat.le_succ _

theorem waits_lt (buffer : Bytes) (rest : Source) :
    waits ⟨buffer, rest⟩ < waits ⟨buffer, .wait :: rest⟩ := Nat.lt_succ_self _

/-- A description of a later reader describes the earlier one. -/
theorem Answers.earlier {r r' : Reader} {gives gives' : α → Reader → Prop}
    {refuses refuses' : TransportError → Prop} {x : Attempt TransportError α × Reader}
    (h : r'.Answers gives' refuses' x) (hpast : r.Past [] r')
    (hgives : ∀ a r'', gives' a r'' → gives a r'') (hrefuses : ∀ e, refuses' e → refuses e) :
    r.Answers gives refuses x := by
  cases h with
  | value h => exact .value (hgives _ _ h)
  | pending h hlt => exact .pending (hpast.trans h) (Nat.lt_of_lt_of_le hlt hpast.waits_le)
  | failed h => exact .failed (hrefuses _ h)

-- ── decoding ────────────────────────────────────────────────────────

variable {d : Decoder α}

/-- What waiting for a value gives: the value at the front of the buffer and what is behind it. -/
def Finds (r : Reader) (d : Decoder α) (found : α × Bytes) (r' : Reader) : Prop :=
  r.Past [] r' ∧ d.run r'.buffer = (.ok found.1, found.2)

/-- Decoding the content fails, and this is what the call is told. -/
def Refuses (r : Reader) (d : Decoder α) (told : TransportError) : Prop :=
  ∃ e, (d.run r.content).1 = .error e ∧ told = r.refusal e

theorem refuses_of_final (hd : Incremental d) {r : Reader} {e : DecodeError} {rest : Bytes}
    (h : d.run r.buffer = (.error e, rest)) (he : e ≠ .short) : r.Refuses d (.decode e) := by
  have hne : (.error e : Except DecodeError α) ≠ .error .short := by
    intro heq
    exact he (Except.error.inj heq)
  refine ⟨e, congrArg Prod.fst (hd.extend h hne r.source.bytes), ?_⟩
  cases e with
  | short => exact absurd rfl he
  | _ => rfl

/-- The last bytes of the stream are there and the decoder wants more. -/
theorem refuses_at_end {r : Reader} {rest : Bytes} (h : d.run r.buffer = (.error .short, rest))
    (hend : r.source.bytes = []) : r.Refuses d (r.refusal .short) := by
  refine ⟨.short, ?_, rfl⟩
  rw [content, hend, List.append_nil, h]

/-- An error of the decoder that is told is the decoder's answer on the content. -/
theorem Refuses.answer_eq {r : Reader} {e : DecodeError} (h : r.Refuses d (.decode e))
    (he : e ≠ .short) : d.answer r.content = .error e := by
  obtain ⟨e', hrun, htold⟩ := h
  obtain rfl : e' = e := by
    cases e' with
    | short =>
        rw [refusal] at htold
        split at htold
        · exact nomatch htold
        · exact absurd (TransportError.decode.inj htold) he
    | _ => exact (TransportError.decode.inj htold).symm
  unfold Decoder.answer
  cases hrest : d.run r.content with
  | mk x rest =>
      rw [hrest] at hrun
      obtain rfl : x = .error e' := hrun
      rfl

theorem await_answers (hd : Incremental d) (buffer : Bytes) (source : Source) :
    Answers ⟨buffer, source⟩ (Finds ⟨buffer, source⟩ d) (Refuses ⟨buffer, source⟩ d)
      (await d buffer source) := by
  induction source generalizing buffer with
  | nil =>
      unfold await
      split
      · next a rest h => exact .value ⟨.refl _, h⟩
      · next e rest h =>
        by_cases he : e = .short
        · subst he
          exact .failed (refuses_at_end h rfl)
        · exact .failed (refuses_of_final hd h he)
  | cons arrival source ih =>
      unfold await
      split
      · next a rest h => exact .value ⟨.refl _, h⟩
      · next rest h =>
        -- the buffer does not hold enough, so one more block is read
        cases arrival with
        | data bs =>
            cases bs with
            | nil => exact .failed (refuses_at_end h rfl)
            | cons b bs =>
                have hpast := past_data buffer b bs source
                refine (ih (buffer ++ (b :: bs))).earlier hpast ?_ ?_
                · rintro found r'' ⟨hpast', hfound⟩
                  exact ⟨hpast.trans hpast', hfound⟩
                · rintro told ⟨e, he, rfl⟩
                  rw [← List.nil_append (content _), ← hpast.content_eq] at he
                  exact ⟨e, he, rfl⟩
        | wait => exact .pending (past_wait buffer source) (waits_lt buffer source)
        | finish => exact .failed (refuses_at_end h rfl)
        | failure e => exact .failed (refuses_at_end h rfl)
      · next e rest hne h => exact .failed (refuses_of_final hd h fun he => hne (he ▸ rfl))

/-- Behind a value that was found in the buffer. -/
theorem Finds.past (hd : Incremental d) {r r' : Reader} {found : α × Bytes}
    (h : r.Finds d found r') :
    ∃ front, r.Past front { r' with buffer := found.2 } ∧ d.run front = (.ok found.1, []) := by
  obtain ⟨hpast, hfound⟩ := h
  obtain ⟨front, hbuffer, hfront⟩ := hd.front hfound
  refine ⟨front, ⟨?_, hpast.failure_eq, hpast.waits_le⟩, hfront⟩
  rw [hpast.content_eq, List.nil_append, content, hbuffer, List.append_assoc]
  rfl

/-- A call that decodes gives the value at the front of the content and goes on behind it. -/
def Decodes (r : Reader) (d : Decoder α) (a : α) (r' : Reader) : Prop :=
  ∃ front, r.Past front r' ∧ d.run front = (.ok a, [])

theorem Decodes.run_eq (hd : Incremental d) {r r' : Reader} {a : α} (h : r.Decodes d a r') :
    d.run r.content = (.ok a, r'.content) := by
  obtain ⟨front, hpast, hfront⟩ := h
  exact hd.run_eq_ok_iff.mpr ⟨front, hpast.content_eq, hfront⟩

/-- **Decoding from a stream is decoding its content.** -/
theorem decode_answers (hd : Incremental d) (r : Reader) :
    r.Answers (r.Decodes d) (r.Refuses d) (r.decode d) := by
  have h := await_answers hd r.buffer r.source
  unfold decode
  cases hx : await d r.buffer r.source with
  | mk attempt r' =>
      rw [hx] at h
      cases h with
      | value h => exact .value (h.past hd)
      | pending h hlt => exact .pending h hlt
      | failed h => exact .failed h

-- ── filling the buffer ──────────────────────────────────────────────

/-- Nothing is left and the stream ends. -/
def AtEnd (r : Reader) : Prop := r.content = [] ∧ r.failure? = none

/-- What filling the buffer gives: something is in it, or the stream is at its end. -/
def Fills (r : Reader) (more : Bool) (r' : Reader) : Prop :=
  if more then r.Past [] r' ∧ r'.buffer ≠ [] else r.AtEnd

theorem fill_answers (r : Reader) :
    r.Answers r.Fills (fun _ => r.content = [] ∧ r.failure? ≠ none) r.fill := by
  obtain ⟨buffer, source⟩ := r
  unfold fill
  split
  · next h =>
    obtain rfl : buffer = [] := h
    cases source with
    | nil => exact .value ⟨rfl, rfl⟩
    | cons arrival source =>
        cases arrival with
        | data bs =>
            cases bs with
            | nil => exact .value ⟨rfl, rfl⟩
            | cons b bs => exact .value ⟨past_data [] b bs source, List.cons_ne_nil b bs⟩
        | wait => exact .pending (past_wait [] source) (waits_lt [] source)
        | finish => exact .value ⟨rfl, rfl⟩
        | failure e => exact .failed ⟨rfl, fun h => nomatch h⟩
  · next h => exact .value ⟨.refl _, h⟩

theorem content_ne_nil {r r' : Reader} (h : r.Past [] r') (hbuffer : r'.buffer ≠ []) :
    r.content ≠ [] := by
  rw [h.content_eq, List.nil_append, content]
  exact fun hnil => hbuffer (List.append_eq_nil_iff.mp hnil).1

/-- A call that may find the end decodes if there is anything left. -/
theorem decodeMaybe_answers (hd : Incremental d) (r : Reader) :
    r.Answers
      (fun found r' => match found with
        | some a => r.Decodes d a r'
        | none => r.AtEnd)
      (fun _ => ¬ r.AtEnd ∧ (r.content ≠ [] → ∃ e, (d.run r.content).1 = .error e))
      (r.decodeMaybe d) := by
  have h := r.fill_answers
  unfold decodeMaybe
  cases hx : r.fill with
  | mk attempt r₁ =>
      rw [hx] at h
      cases h with
      | @value more _ h =>
          cases more with
          | false => exact .value h
          | true =>
              obtain ⟨hpast, hbuffer⟩ := h
              have hne := content_ne_nil hpast hbuffer
              have hcontent : r.content = r₁.content := hpast.content_eq
              have hdecode := decode_answers hd r₁
              dsimp only
              cases hy : r₁.decode d with
              | mk attempt' r₂ =>
                  rw [hy] at hdecode
                  cases hdecode with
                  | value h' =>
                      obtain ⟨front, hpast', hfront⟩ := h'
                      exact .value ⟨front, hpast.trans hpast', hfront⟩
                  | pending h' hlt =>
                      exact .pending (hpast.trans h') (Nat.lt_of_lt_of_le hlt hpast.waits_le)
                  | failed h' =>
                      obtain ⟨e, he, -⟩ := h'
                      exact .failed ⟨fun hend => hne hend.1, fun _ => ⟨e, hcontent ▸ he⟩⟩
      | pending h hlt => exact .pending h hlt
      | failed h => exact .failed ⟨fun hend => h.2 hend.2, fun hne => absurd h.1 hne⟩

/-- A call that reads takes some of what is left, and no more than it was told. -/
theorem read_answers (r : Reader) {limit : Nat} (hlimit : 0 < limit) :
    r.Answers
      (fun found r' => match found with
        | some chunk => r.Past chunk r' ∧ 0 < chunk.length ∧ chunk.length ≤ limit
        | none => r.content = [])
      (fun _ => r.content = []) (r.read limit) := by
  have h := r.fill_answers
  unfold read
  cases hx : r.fill with
  | mk attempt r₁ =>
      rw [hx] at h
      cases h with
      | @value more _ h =>
          cases more with
          | false => exact .value h.1
          | true =>
              obtain ⟨hpast, hbuffer⟩ := h
              refine .value ⟨⟨?_, hpast.failure_eq, hpast.waits_le⟩, ?_, List.length_take_le _ _⟩
              · show r.content = r₁.buffer.take limit ++ (r₁.buffer.drop limit ++ r₁.source.bytes)
                rw [← List.append_assoc, List.take_append_drop]
                exact hpast.content_eq
              · rw [List.length_take]
                exact Nat.lt_min.mpr ⟨hlimit, List.length_pos_iff.mpr hbuffer⟩
      | pending h hlt => exact .pending h hlt
      | failed h => exact .failed h.1

theorem closed_answers (r : Reader) :
    r.Answers (fun _ _ => r.AtEnd) (fun _ => ¬ r.AtEnd) r.closed := by
  have h := r.fill_answers
  unfold closed
  cases hx : r.fill with
  | mk attempt r₁ =>
      rw [hx] at h
      cases h with
      | @value more _ h =>
          cases more with
          | false => exact .value h
          | true => exact .failed fun hend => content_ne_nil h.1 h.2 hend.1
      | pending h hlt => exact .pending h hlt
      | failed h => exact .failed fun hend => h.2 hend.2

-- ── skipping ────────────────────────────────────────────────────────

/-- What skipping comes to. A call that is pending has passed over some of the bytes and says how many
    are left to pass over. -/
inductive Skips (r : Reader) (n : Nat) : Attempt TransportError Unit × Nat × Reader → Prop where
  | done {front : Bytes} {left : Nat} {r' : Reader} : r.Past front r' → front.length = n →
      Skips r n (.ok (), left, r')
  | pending {front : Bytes} {left : Nat} {r' : Reader} : r.Past front r' →
      front.length + left = n → r'.waits < r.waits → Skips r n (.error .pending, left, r')
  | failed {e : TransportError} {left : Nat} {r' : Reader} : r.content.length < n →
      Skips r n (.error (.failed e), left, r')

theorem Skips.earlier {r r' : Reader} {front : Bytes} {m n : Nat}
    {x : Attempt TransportError Unit × Nat × Reader} (h : r'.Skips m x) (hpast : r.Past front r')
    (hn : front.length + m = n) : r.Skips n x := by
  cases h with
  | done h hm =>
      refine .done (hpast.trans h) ?_
      rw [List.length_append, hm, hn]
  | pending h hm hlt =>
      refine .pending (hpast.trans h) ?_ (Nat.lt_of_lt_of_le hlt hpast.waits_le)
      rw [List.length_append, Nat.add_assoc, hm, hn]
  | failed h =>
      refine .failed ?_
      rw [hpast.content_eq, List.length_append, ← hn]
      exact Nat.add_lt_add_left h _

/-- All of the buffer is taken. -/
theorem past_buffer (buffer : Bytes) (source : Source) :
    Past ⟨buffer, source⟩ buffer ⟨[], source⟩ := ⟨rfl, rfl, Nat.le_refl _⟩

theorem skipFrom_skips (n : Nat) (buffer : Bytes) (source : Source) :
    Skips ⟨buffer, source⟩ n (skipFrom n buffer source) := by
  have henough : ∀ {buffer source} {n : Nat}, n ≤ buffer.length →
      Skips ⟨buffer, source⟩ n (.ok (), 0, ⟨buffer.drop n, source⟩) := by
    intro buffer source n hn
    refine .done ⟨?_, rfl, Nat.le_refl _⟩ (List.length_take_of_le hn)
    show buffer ++ source.bytes = buffer.take n ++ (buffer.drop n ++ source.bytes)
    rw [← List.append_assoc, List.take_append_drop]
  have hshort : ∀ {buffer : Bytes} {n : Nat} (source : Source), ¬ n ≤ buffer.length →
      source.bytes = [] → content ⟨buffer, source⟩ = buffer ∧ buffer.length < n := by
    intro buffer n source hn hend
    refine ⟨?_, Nat.lt_of_not_le hn⟩
    rw [content, hend, List.append_nil]
  induction source generalizing n buffer with
  | nil =>
      unfold skipFrom
      split
      · next hn => exact henough hn
      · next hn =>
        obtain ⟨hcontent, hlt⟩ := hshort [] hn rfl
        exact .failed (hcontent.symm ▸ hlt)
  | cons arrival source ih =>
      unfold skipFrom
      split
      · next hn => exact henough hn
      · next hn =>
        have hleft : buffer.length + (n - buffer.length) = n :=
          Nat.add_sub_of_le (Nat.le_of_not_le hn)
        cases arrival with
        | data bs =>
            cases bs with
            | nil =>
                obtain ⟨hcontent, hlt⟩ := hshort (.data [] :: source) hn rfl
                exact .failed (hcontent.symm ▸ hlt)
            | cons b bs =>
                have hpast : Past ⟨buffer, .data (b :: bs) :: source⟩ buffer ⟨b :: bs, source⟩ := by
                  have h := (past_buffer buffer (.data (b :: bs) :: source)).trans
                    (past_data [] b bs source)
                  rw [List.append_nil] at h
                  exact h
                exact (ih (n - buffer.length) (b :: bs)).earlier hpast hleft
        | wait =>
            have hpast : Past ⟨buffer, .wait :: source⟩ buffer ⟨[], source⟩ := by
              have h := (past_buffer buffer (.wait :: source)).trans (past_wait [] source)
              rw [List.append_nil] at h
              exact h
            exact .pending hpast hleft (waits_lt [] source)
        | finish =>
            obtain ⟨hcontent, hlt⟩ := hshort (.finish :: source) hn rfl
            exact .failed (hcontent.symm ▸ hlt)
        | failure e =>
            obtain ⟨hcontent, hlt⟩ := hshort (.failure e :: source) hn rfl
            exact .failed (hcontent.symm ▸ hlt)

theorem skip_skips (r : Reader) (n : Nat) : r.Skips n (r.skip n) :=
  skipFrom_skips n r.buffer r.source

end Reader

end LiveMedia.Stream
