import LiveMedia.Proofs.Stream.Content

/-!
# What is behind a wait is not seen

A call on a reader that comes to a wait is pending there. So whatever stands behind the first wait of a
stream, the call does the same (`Reader.Before`). A reader that stands before a wait can therefore be
compared with one whose stream goes on behind it in any way, which is how a receiver that is polled while
its sender goes on is held against every possible future.
-/

namespace LiveMedia.Stream

open LiveMedia.Wire

namespace Reader

variable {α : Type} {d : Decoder α} {buffer : Bytes}

/-- What a call does when the stream comes to a wait. It is done before, with a value or an error, or
    it is pending with what is before the wait in the buffer; and then it `lacks` something. -/
inductive Before (r : Reader) (lacks : Bytes → Prop)
    (call : Reader → Attempt TransportError α × Reader) : Prop where
  | value (a : α) (r' : Reader) : .wait ∉ r'.source →
      (∀ behind, call (r.feed (.wait :: behind)) = (.ok a, r'.feed (.wait :: behind))) →
      Before r lacks call
  | pending (buffer : Bytes) : lacks buffer →
      (∀ behind, call (r.feed (.wait :: behind)) = (.error .pending, ⟨buffer, behind⟩)) →
      Before r lacks call
  | failed (e : TransportError) (r' : Reader) :
      (∀ behind, call (r.feed (.wait :: behind)) = (.error (.failed e), r'.feed (.wait :: behind))) →
      Before r lacks call

/-- A stream without a wait has none in its first arrival and none behind it. -/
theorem not_wait_cons {arrival : Arrival} {source : Source} (h : .wait ∉ arrival :: source) :
    arrival ≠ .wait ∧ .wait ∉ source :=
  ⟨fun heq => h (heq ▸ List.mem_cons_self), fun hmem => h (List.mem_cons_of_mem _ hmem)⟩

-- ── decoding ────────────────────────────────────────────────────────

/-- What the buffer answers is answered without asking the source. -/
theorem await_ok {a : α} {rest : Bytes} (h : d.run buffer = (.ok a, rest)) (source : Source) :
    await d buffer source = (.ok (a, rest), ⟨buffer, source⟩) := by
  cases source with
  | nil => simp only [await, h, Attempt.value]
  | cons arrival source => simp only [await, h, Attempt.value]

/-- So is an error that more bytes would not mend. -/
theorem await_error {e : DecodeError} {rest : Bytes} (h : d.run buffer = (.error e, rest))
    (he : e ≠ .short) (source : Source) :
    await d buffer source = (.error (.failed (.decode e)), ⟨buffer, source⟩) := by
  cases source with
  | nil => simp only [await, h, Attempt.failure]
  | cons arrival source =>
      cases e with
      | short => exact absurd rfl he
      | _ => simp only [await, h, Attempt.failure]

/-- A decoder that has too little reads on. -/
theorem await_short {rest : Bytes} (h : d.run buffer = (.error .short, rest)) {source : Source}
    (hsource : .wait ∉ source)
    (hmore : ∀ b bs rest, source = .data (b :: bs) :: rest →
      Before ⟨buffer ++ (b :: bs), rest⟩ (fun bs => (d.run bs).1 = .error .short)
        fun r => await d r.buffer r.source) :
    Before ⟨buffer, source⟩ (fun bs => (d.run bs).1 = .error .short)
      fun r => await d r.buffer r.source := by
  cases source with
  | nil =>
      refine .pending buffer (congrArg Prod.fst h) fun behind => ?_
      simp only [feed, List.nil_append, await, h, Attempt.pending]
  | cons arrival source =>
      cases arrival with
      | data bs =>
          cases bs with
          | nil =>
              refine .failed (.decode .short) ⟨buffer, source⟩ fun behind => ?_
              simp only [feed, List.cons_append, await, h, Attempt.failure]
          | cons b bs =>
              have hnext : ∀ behind, await d buffer (.data (b :: bs) :: source ++ .wait :: behind) =
                  await d (buffer ++ (b :: bs)) (source ++ .wait :: behind) := by
                intro behind
                simp only [List.cons_append, await, h]
              cases hmore b bs source rfl with
              | value a r' hnot hcall =>
                  exact .value a r' hnot fun behind => (hnext behind).trans (hcall behind)
              | pending bs hlacks hcall =>
                  exact .pending bs hlacks fun behind => (hnext behind).trans (hcall behind)
              | failed e r' hcall =>
                  exact .failed e r' fun behind => (hnext behind).trans (hcall behind)
      | wait => exact absurd rfl (not_wait_cons hsource).1
      | finish =>
          refine .failed (.decode .short) ⟨buffer, source⟩ fun behind => ?_
          simp only [feed, List.cons_append, await, h, Attempt.failure]
      | failure e =>
          refine .failed (.io e) ⟨buffer, source⟩ fun behind => ?_
          simp only [feed, List.cons_append, await, h, Attempt.failure]

theorem await_before (d : Decoder α) (buffer : Bytes) {source : Source} (h : .wait ∉ source) :
    Before ⟨buffer, source⟩ (fun bs => (d.run bs).1 = .error .short)
      fun r => await d r.buffer r.source := by
  induction source generalizing buffer with
  | nil =>
      cases hrun : d.run buffer with
      | mk answer rest =>
          rcases answer with e | a
          · by_cases he : e = .short
            · subst he
              exact await_short hrun h fun b bs rest heq => absurd heq (List.cons_ne_nil _ _).symm
            · exact .failed (.decode e) ⟨buffer, []⟩ fun behind => await_error hrun he _
          · exact .value (a, rest) ⟨buffer, []⟩ h fun behind => await_ok hrun _
  | cons arrival source ih =>
      cases hrun : d.run buffer with
      | mk answer rest =>
          rcases answer with e | a
          · by_cases he : e = .short
            · subst he
              refine await_short hrun h fun b bs rest heq => ?_
              obtain ⟨-, rfl⟩ := List.cons.inj heq
              exact ih _ (not_wait_cons h).2
            · exact .failed (.decode e) ⟨buffer, arrival :: source⟩ fun behind => await_error hrun he _
          · exact .value (a, rest) ⟨buffer, arrival :: source⟩ h fun behind => await_ok hrun _

variable {r : Reader}

/-- A call that decodes before a wait is pending only if it has too little. -/
theorem decode_before (d : Decoder α) (h : .wait ∉ r.source) :
    Before r (fun bs => (d.run bs).1 = .error .short) fun r => r.decode d := by
  cases await_before d r.buffer h with
  | value found r' hnot hcall =>
      refine .value found.1 { r' with buffer := found.2 } hnot fun behind => ?_
      have hfound : await d r.buffer (r.source ++ .wait :: behind) = _ := hcall behind
      simp only [decode, feed, hfound]
  | pending buffer hlacks hcall =>
      refine .pending buffer hlacks fun behind => ?_
      have hfound : await d r.buffer (r.source ++ .wait :: behind) = _ := hcall behind
      simp only [decode, feed, hfound]
  | failed e r' hcall =>
      refine .failed e r' fun behind => ?_
      have hfound : await d r.buffer (r.source ++ .wait :: behind) = _ := hcall behind
      simp only [decode, feed, hfound]

-- ── filling the buffer ──────────────────────────────────────────────

theorem fill_before (h : .wait ∉ r.source) : Before r (fun _ => True) fill := by
  obtain ⟨buffer, source⟩ := r
  by_cases hbuffer : buffer = []
  · subst hbuffer
    cases source with
    | nil => exact .pending [] trivial fun behind => rfl
    | cons arrival source =>
        obtain ⟨hfirst, hrest⟩ := not_wait_cons h
        cases arrival with
        | data bs =>
            cases bs with
            | nil => exact .value false ⟨[], source⟩ hrest fun behind => rfl
            | cons b bs => exact .value true ⟨b :: bs, source⟩ hrest fun behind => rfl
        | wait => exact absurd rfl hfirst
        | finish => exact .value false ⟨[], source⟩ hrest fun behind => rfl
        | failure e => exact .failed (.io e) ⟨[], source⟩ fun behind => rfl
  · exact .value true ⟨buffer, source⟩ h fun behind => if_neg hbuffer

/-- A call that fills the buffer first and passes on what keeps it from that. -/
theorem Before.after_fill {call : Reader → Attempt TransportError α × Reader} (h : .wait ∉ r.source)
    (herror : ∀ r' r'' halt, r'.fill = (.error halt, r'') → call r' = (.error halt, r''))
    (hvalue : ∀ (more : Bool) (r' : Reader), .wait ∉ r'.source →
      (∀ behind, (r.feed (.wait :: behind)).fill = (.ok more, r'.feed (.wait :: behind))) →
      Before r (fun _ => True) call) : Before r (fun _ => True) call := by
  cases fill_before h with
  | value more r' hnot hcall => exact hvalue more r' hnot hcall
  | pending buffer _ hcall => exact .pending buffer trivial fun behind => herror _ _ _ (hcall behind)
  | failed e r' hcall => exact .failed e r' fun behind => herror _ _ _ (hcall behind)

theorem decodeMaybe_before (d : Decoder α) (h : .wait ∉ r.source) :
    Before r (fun _ => True) fun r => r.decodeMaybe d := by
  refine .after_fill h (fun r' r'' halt hfill => by simp only [decodeMaybe, hfill]) ?_
  intro more r' hnot hfill
  cases more with
  | false =>
      refine .value none r' hnot fun behind => ?_
      simp only [decodeMaybe, hfill behind]
  | true =>
      cases decode_before d hnot with
      | value a r'' hnot' hcall =>
          refine .value (some a) r'' hnot' fun behind => ?_
          simp only [decodeMaybe, hfill behind, hcall behind]
      | pending buffer _ hcall =>
          refine .pending buffer trivial fun behind => ?_
          simp only [decodeMaybe, hfill behind, hcall behind]
      | failed e r'' hcall =>
          refine .failed e r'' fun behind => ?_
          simp only [decodeMaybe, hfill behind, hcall behind]

theorem read_before (limit : Nat) (h : .wait ∉ r.source) :
    Before r (fun _ => True) fun r => r.read limit := by
  refine .after_fill h (fun r' r'' halt hfill => by simp only [read, hfill]) ?_
  intro more r' hnot hfill
  cases more with
  | false =>
      refine .value none r' hnot fun behind => ?_
      simp only [read, hfill behind]
  | true =>
      refine .value (some (r'.buffer.take limit)) { r' with buffer := r'.buffer.drop limit } hnot
        fun behind => ?_
      simp only [read, hfill behind]
      rfl

theorem closed_before (h : .wait ∉ r.source) : Before r (fun _ => True) closed := by
  refine .after_fill h (fun r' r'' halt hfill => by simp only [closed, hfill]) ?_
  intro more r' hnot hfill
  cases more with
  | false =>
      refine .value () r' hnot fun behind => ?_
      simp only [closed, hfill behind]
  | true =>
      refine .failed (.decode .expectedEnd) r' fun behind => ?_
      simp only [closed, hfill behind, Attempt.failure]

-- ── skipping ────────────────────────────────────────────────────────

/-- What a call that skips does when the stream comes to a wait: what is before the wait is passed over
    when it is pending. -/
inductive SkipsBefore (r : Reader) (n : Nat) : Prop where
  | done (left : Nat) (r' : Reader) : .wait ∉ r'.source →
      (∀ behind, (r.feed (.wait :: behind)).skip n = (.ok (), left, r'.feed (.wait :: behind))) →
      SkipsBefore r n
  | pending (left : Nat) :
      (∀ behind, (r.feed (.wait :: behind)).skip n = (.error .pending, left, ⟨[], behind⟩)) →
      SkipsBefore r n
  | failed (e : TransportError) (left : Nat) (r' : Reader) :
      (∀ behind, (r.feed (.wait :: behind)).skip n =
        (.error (.failed e), left, r'.feed (.wait :: behind))) → SkipsBefore r n

/-- What is skipped in the buffer is gone, whatever the source does. -/
theorem skip_in_buffer {n : Nat} {source : Source} (h : .wait ∉ source) (hn : n ≤ buffer.length) :
    SkipsBefore ⟨buffer, source⟩ n := by
  refine .done 0 ⟨buffer.drop n, source⟩ h fun behind => ?_
  cases source with
  | nil => exact if_pos hn
  | cons arrival source => exact if_pos hn

theorem skip_before (n : Nat) (buffer : Bytes) {source : Source} (h : .wait ∉ source) :
    SkipsBefore ⟨buffer, source⟩ n := by
  induction source generalizing n buffer with
  | nil =>
      by_cases hn : n ≤ buffer.length
      · exact skip_in_buffer h hn
      · exact .pending (n - buffer.length) fun behind => if_neg hn
  | cons arrival source ih =>
      by_cases hn : n ≤ buffer.length
      · exact skip_in_buffer h hn
      · obtain ⟨hfirst, hrest⟩ := not_wait_cons h
        cases arrival with
        | data bs =>
            cases bs with
            | nil =>
                exact .failed (.decode .short) (n - buffer.length) ⟨[], source⟩ fun behind => if_neg hn
            | cons b bs =>
                have hnext : ∀ behind,
                    skipFrom n buffer (.data (b :: bs) :: source ++ .wait :: behind) =
                      skipFrom (n - buffer.length) (b :: bs) (source ++ .wait :: behind) :=
                  fun behind => if_neg hn
                cases ih (n - buffer.length) (b :: bs) hrest with
                | done left r' hnot hcall =>
                    exact .done left r' hnot fun behind => (hnext behind).trans (hcall behind)
                | pending left hcall =>
                    exact .pending left fun behind => (hnext behind).trans (hcall behind)
                | failed e left r' hcall =>
                    exact .failed e left r' fun behind => (hnext behind).trans (hcall behind)
        | wait => exact absurd rfl hfirst
        | finish =>
            exact .failed (.decode .short) (n - buffer.length) ⟨[], source⟩ fun behind => if_neg hn
        | failure e =>
            exact .failed (.io e) (n - buffer.length) ⟨[], source⟩ fun behind => if_neg hn

end Reader

end LiveMedia.Stream
