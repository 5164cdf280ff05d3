import LiveMedia.Proofs.Request.Blocking

/-!
# Requests on a closed queue

A request that finds no number below the limit waits for a higher one, and when the queue has lost its
receiving end there is nothing left to wait for: it is cancelled. But the first such request at a limit
has to tell the peer before it waits, and what it is answered then is the error of telling.

So the answer is told by what came before (`BlockedAt`): a request is cancelled exactly if some earlier
one was given no number at the present limit, be it that it waits, has failed or was dropped. The flag
`blocked` knows this and nothing more. `blocked_after` says so of one move and `blocked_run_iff` of all of
them. As the first request that fails sets the flag, too, every later one is cancelled until the limit is
raised.

A request that was woken before the queue was closed may see either first. Seen from here it is polled or,
if it gives up without another try, forgotten.
-/

namespace LiveMedia.Request

open LiveMedia.Wire LiveMedia.Message LiveMedia.Stream

-- ── one request ─────────────────────────────────────────────────────

namespace Channel

/-- The error of the request that cannot tell the peer: the queue is closed, or the message has no wire
    form in the first place. -/
def refusal (c : Channel) : TransportError :=
  if c.allocation.limit.val ≤ Varint.compactMaximum then .closed else .encode .boundsExceeded

theorem refusal_ne_cancel (c : Channel) : c.refusal ≠ .cancel := by
  rw [refusal]
  split
  · exact fun h => by cases h
  · exact fun h => by cases h

/-- Limits above the compact class cannot be told. -/
theorem announcement_above {limit : RequestId} (hlimit : Varint.compactMaximum < limit.val) :
    announcement limit = .error .boundsExceeded := by
  have hcounter : encodeCounter limit = .error .boundsExceeded := if_neg (Nat.not_le_of_lt hlimit)
  show (encodeCounter limit >>= fun body => Envelope.encode ⟨RequestsBlocked.form.id, body⟩) = _
  rw [hcounter]
  rfl

/-- On a closed queue a message is refused whatever it says. -/
theorem send_announcement_of_closed {c : Channel} (hclosed : c.isOpen = false) :
    c.send (.requestsBlocked ⟨c.allocation.limit⟩) = .error c.refusal := by
  rw [send, ← announcement, refusal]
  split
  · next bs hbs =>
    have hle : c.allocation.limit.val ≤ Varint.compactMaximum := by
      refine Nat.le_of_not_lt fun hlt => ?_
      rw [announcement_above hlt] at hbs
      cases hbs
    rw [if_pos hle, push_of_closed hclosed]
  · next e he =>
    have hlt : ¬ c.allocation.limit.val ≤ Varint.compactMaximum := by
      intro hle
      obtain ⟨bs, hbs⟩ := exists_announcement hle
      rw [hbs] at he
      cases he
    rw [announcement_above (Nat.lt_of_not_le hlt)] at he
    obtain rfl := Except.error.inj he
    rw [if_neg hlt]

/-- **A request that finds no number on a closed queue** fails, and the flag is set afterwards. -/
theorem request_of_closed {c : Channel} (hclosed : c.isOpen = false)
    (hnone : c.allocation.take? = none) :
    c.request = (.failure (if c.allocation.blocked then .cancel else c.refusal),
      { c with allocation := { c.allocation with blocked := true } }) := by
  rw [request, hnone]
  dsimp only
  cases hblocked : c.allocation.blocked with
  | true =>
      have hsame : { c with allocation := { c.allocation with blocked := true } } = c := by
        rw [← hblocked]
      rw [if_pos rfl, if_pos rfl, wait_of_closed hclosed, hsame]
  | false =>
      have hsend := send_announcement_of_closed
        (c := { c with allocation := { c.allocation with blocked := true } }) hclosed
      rw [if_neg Bool.false_ne_true, if_neg Bool.false_ne_true, hsend]
      rfl

theorem wait_eq (c : Channel) : ∃ halt, c.wait = (.error halt, c) := by
  cases hopen : c.isOpen with
  | true => exact ⟨.pending, wait_of_open hopen⟩
  | false => exact ⟨.failed .cancel, wait_of_closed hopen⟩

theorem allocation_of_send {c c' : Channel} {m : ControlMessage} (h : c.send m = .ok c') :
    c'.allocation = c.allocation := by
  rw [send] at h
  split at h
  · next bs _ =>
    rw [push] at h
    split at h
    · obtain rfl := Except.ok.inj h
      rfl
    · cases h
  · cases h

/-- A request leaves the limit alone. One that is given a number leaves the flag alone, too, and any other
    sets it. -/
theorem request_settles (c : Channel) : c.request.2.allocation.limit = c.allocation.limit ∧
    ((∃ id, c.request.1 = .ok id ∧ c.request.2.allocation.blocked = c.allocation.blocked) ∨
      ∃ halt, c.request.1 = .error halt ∧ c.request.2.allocation.blocked = true) := by
  rw [request]
  cases htake : c.allocation.take? with
  | some taken =>
      obtain ⟨-, -, rfl⟩ := Allocation.take?_eq_some htake
      exact ⟨rfl, .inl ⟨_, rfl, rfl⟩⟩
  | none =>
      dsimp only
      cases hblocked : c.allocation.blocked with
      | true =>
          obtain ⟨halt, hwait⟩ := c.wait_eq
          rw [if_pos rfl, hwait]
          exact ⟨rfl, .inr ⟨halt, rfl, hblocked⟩⟩
      | false =>
          rw [if_neg Bool.false_ne_true]
          split
          · next c' hsend =>
            have hkept := allocation_of_send hsend
            obtain ⟨halt, hwait⟩ := c'.wait_eq
            rw [hwait]
            exact ⟨congrArg (·.limit) hkept, .inr ⟨halt, rfl, congrArg (·.blocked) hkept⟩⟩
          · next e _ => exact ⟨rfl, .inr ⟨.failed e, rfl, rfl⟩⟩

theorem blocked_request_iff (c : Channel) : c.request.2.allocation.blocked = true ↔
    c.allocation.blocked = true ∨ ∃ halt, c.request.1 = .error halt := by
  rcases c.request_settles.2 with ⟨id, hanswer, hkept⟩ | ⟨halt, hanswer, hset⟩
  · rw [hkept, hanswer]
    exact ⟨.inl, fun h => h.resolve_right fun ⟨_, hhalt⟩ => by cases hhalt⟩
  · exact iff_of_true hset (.inr ⟨halt, hanswer⟩)

/-- Making a request is answered as the request, and does to the numbers what it does. -/
theorem begin_fst (c : Channel) (name : String) : (c.begin name).1 = c.request.1 := rfl

theorem allocation_begin (c : Channel) (name : String) :
    (c.begin name).2.allocation = c.request.2.allocation := by
  show (if c.request.1.isPending then c.request.2.keep name else c.request.2).allocation = _
  split
  · rfl
  · rfl

/-- A request that is polled is tried again if it was woken. One that was not looks at the queue only. -/
theorem poll?_cases (c : Channel) (name : String) : c.poll? name = none ∨
    c.poll? name = some ((c.forget name).begin name) ∨
    ∃ w ∈ c.waiting, w.2 = false ∧ ∃ halt c', c.poll? name = some (.error halt, c') ∧
      c'.allocation = c.allocation ∧ (c.isOpen = false → halt = .failed .cancel) := by
  rw [poll?]
  cases hfind : c.waiting.find? fun w => w.1 == name with
  | none => exact .inl rfl
  | some w =>
      obtain ⟨other, woken⟩ := w
      cases woken with
      | true => exact .inr (.inl rfl)
      | false =>
          refine .inr (.inr ⟨(other, false), List.mem_of_find?_eq_some hfind, rfl, ?_⟩)
          cases hopen : c.isOpen with
          | true =>
              rw [wait_of_open hopen]
              exact ⟨.pending, c, rfl, rfl, fun hclosed => by cases hclosed⟩
          | false =>
              rw [wait_of_closed hopen]
              exact ⟨.failed .cancel, c.forget name, rfl, rfl, fun _ => rfl⟩

end Channel

namespace ChannelHistory

-- ── answers in a history ────────────────────────────────────────────

/-- What a request is answered, if the move makes or polls one. -/
def answer? (h : ChannelHistory) : ChannelMove → Option (Attempt TransportError RequestId)
  | .begin name => some (h.channel.begin name).1
  | .poll name => (h.channel.poll? name).map Prod.fst
  | _ => none

/-- One of the moves is a request that is given no number while this is the limit. -/
def BlockedAt (limit : RequestId) (h : ChannelHistory) (ms : List ChannelMove) : Prop :=
  ∃ front m back, ms = front ++ m :: back ∧ (h.run front).channel.allocation.limit = limit ∧
    ∃ halt, (h.run front).answer? m = some (.error halt)

theorem not_blockedAt_nil (limit : RequestId) (h : ChannelHistory) : ¬ BlockedAt limit h [] := by
  rintro ⟨front, m, back, hms, -⟩
  exact List.append_ne_nil_of_right_ne_nil front (List.cons_ne_nil m back) hms.symm

theorem blockedAt_cons {limit : RequestId} {h : ChannelHistory} {m : ChannelMove}
    {ms : List ChannelMove} : BlockedAt limit h (m :: ms) ↔
      (h.channel.allocation.limit = limit ∧ ∃ halt, h.answer? m = some (.error halt)) ∨
        BlockedAt limit (h.after m) ms := by
  constructor
  · rintro ⟨front, m', back, hms, hlimit, hanswer⟩
    cases front with
    | nil =>
        obtain ⟨rfl, rfl⟩ := List.cons.inj hms
        exact .inl ⟨hlimit, hanswer⟩
    | cons m'' front =>
        obtain ⟨rfl, rfl⟩ := List.cons.inj hms
        exact .inr ⟨front, m', back, rfl, hlimit, hanswer⟩
  · rintro (⟨hlimit, hanswer⟩ | ⟨front, m', back, rfl, hlimit, hanswer⟩)
    · exact ⟨[], m, ms, rfl, hlimit, hanswer⟩
    · exact ⟨m :: front, m', back, rfl, hlimit, hanswer⟩

-- ── who sleeps ──────────────────────────────────────────────────────

/-- A request that waits and was not woken began to wait at the present limit, and the flag is set. -/
def Asleep (h : ChannelHistory) : Prop :=
  ∀ w ∈ h.channel.waiting, w.2 = false → h.channel.allocation.blocked = true

theorem asleep_start (client : Bool) (limit : RequestId) : Asleep (start client limit) :=
  fun _ hw => absurd hw List.not_mem_nil

section Steps

variable {h h' : ChannelHistory} {spoken : ControlMessage → Prop}

theorem Asleep.leads (ha : Asleep h) (hleads : h.Leads spoken h') : Asleep h' := by
  cases hleads with
  | number hsub _ _ => exact fun w hw => ha w (hsub hw)
  | waits _ _ hset => exact fun _ _ _ => hset
  | tells _ _ _ _ => exact fun _ _ _ => rfl
  | refused _ _ => exact fun _ _ _ => rfl
  | raises _ =>
      intro w hw hasleep
      obtain ⟨w', -, rfl⟩ := List.mem_map.mp hw
      exact Bool.noConfusion hasleep
  | ignores _ => exact ha
  | sends _ _ => exact ha
  | other hallocation hsub _ =>
      intro w hw hasleep
      rw [hallocation]
      exact ha w (hsub hw) hasleep

/-- The next number is never taken back. -/
theorem Leads.next_le (hleads : h.Leads spoken h') :
    h.channel.allocation.next.val ≤ h'.channel.allocation.next.val := by
  cases hleads with
  | number _ _ _ => exact Nat.le_add_right _ 2
  | other hallocation _ _ => exact Nat.le_of_eq (congrArg (·.next.val) hallocation.symm)
  | _ => exact Nat.le_refl _

end Steps

theorem Asleep.run {h : ChannelHistory} (ha : Asleep h) (ms : List ChannelMove) : Asleep (h.run ms) := by
  induction ms generalizing h with
  | nil => exact ha
  | cons m ms ih => exact ih (ha.leads (h.after_leads m))

theorem next_le_run (h : ChannelHistory) (ms : List ChannelMove) :
    h.channel.allocation.next.val ≤ (h.run ms).channel.allocation.next.val := by
  induction ms generalizing h with
  | nil => exact Nat.le_refl _
  | cons m ms ih => exact Nat.le_trans (h.after_leads m).next_le (ih (h.after m))

-- ── the flag ────────────────────────────────────────────────────────

theorem grant_settles (c : Channel) (limit : RequestId) :
    (c.grant limit).allocation = c.allocation ∨
      c.allocation.limit.val < (c.grant limit).allocation.limit.val ∧
        (c.grant limit).allocation.blocked = false := by
  rw [Channel.grant, Allocation.raise]
  by_cases hlt : c.allocation.limit.val < limit.val
  · rw [if_pos hlt]
    exact .inr ⟨hlt, rfl⟩
  · rw [if_neg hlt]
    exact .inl rfl

/-- What is no request leaves the numbers alone, or it raises the limit and takes the flag back. -/
theorem allocation_after_or (h : ChannelHistory) {m : ChannelMove} (hm : h.answer? m = none) :
    (h.after m).channel.allocation = h.channel.allocation ∨
      h.channel.allocation.limit.val < (h.after m).channel.allocation.limit.val ∧
        (h.after m).channel.allocation.blocked = false := by
  cases m with
  | begin name => cases hm
  | poll name =>
      have hnone : h.channel.poll? name = none := Option.map_eq_none_iff.mp hm
      rw [after, hnone]
      exact .inl rfl
  | forget name => exact .inl rfl
  | grant limit => exact grant_settles h.channel limit
  | receive r =>
      rcases h.channel.receiveWithin_cases (r.buffer.length + r.source.volume + 1) r with
        ⟨m, -, hchannel⟩ | ⟨-, hchannel⟩
      · show (h.channel.receive r).2.1.allocation = _ ∨ _ < (h.channel.receive r).2.1.allocation.limit.val ∧
          (h.channel.receive r).2.1.allocation.blocked = false
        rw [Channel.receive, hchannel]
        exact grant_settles h.channel m.requestId
      · exact .inl (congrArg Channel.allocation hchannel)
  | send msg =>
      refine .inl ?_
      rw [after]
      split
      · next c hsend => exact Channel.allocation_of_send hsend
      · rfl
  | takeAll => exact .inl rfl
  | drain isHeld sink =>
      refine .inl ?_
      show (h.channel.drain isHeld sink).2.1.allocation = _
      rw [Channel.drain]
      split
      · cases isHeld with
        | true => rfl
        | false => rfl
      · rfl
      · rfl
  | hangUp => exact .inl rfl

/-- **The flag after a move** is set if the limit is the same and the flag was set before, or the move is a
    request that is given no number. -/
theorem blocked_after {h : ChannelHistory} (ha : Asleep h) (m : ChannelMove) :
    (h.after m).channel.allocation.blocked = true ↔
      (h.after m).channel.allocation.limit = h.channel.allocation.limit ∧
        (h.channel.allocation.blocked = true ∨ ∃ halt, h.answer? m = some (.error halt)) := by
  -- a request that is made, or tried again once it was woken
  have hrequest : ∀ (c : Channel) (name : String), c.allocation = h.channel.allocation →
      ((c.begin name).2.allocation.blocked = true ↔
        (c.begin name).2.allocation.limit = h.channel.allocation.limit ∧
          (h.channel.allocation.blocked = true ∨
            ∃ halt, some (c.begin name).1 = some (Except.error halt))) := by
    intro c name hc
    rw [c.allocation_begin, c.begin_fst, c.request_settles.1, hc, c.blocked_request_iff, hc]
    simp
  cases hanswer : h.answer? m with
  | none =>
      rcases h.allocation_after_or hanswer with hsame | ⟨hlt, hclear⟩
      · rw [hsame]
        simp
      · rw [hclear]
        refine iff_of_false Bool.false_ne_true fun hboth => ?_
        exact Nat.ne_of_gt hlt (congrArg RequestId.val hboth.1)
  | some answer =>
      cases m with
      | begin name =>
          rw [← hanswer]
          exact hrequest h.channel name rfl
      | poll name =>
          rcases h.channel.poll?_cases name with hpoll | hpoll | ⟨w, hw, hasleep, halt, c, hpoll, hsame, -⟩
          · rw [answer?, hpoll] at hanswer
            cases hanswer
          · rw [← hanswer, after, answer?, hpoll]
            exact hrequest (h.channel.forget name) name rfl
          · have hset := ha w hw hasleep
            rw [after, hpoll]
            show c.allocation.blocked = true ↔ c.allocation.limit = _ ∧ _
            rw [hsame]
            exact iff_of_true hset ⟨rfl, .inl hset⟩
      | _ => cases hanswer

/-- A limit that is the same in the end was the same all the while. -/
theorem limit_eq_of_run {h : ChannelHistory} {m : ChannelMove} {ms : List ChannelMove}
    (hlimit : ((h.after m).run ms).channel.allocation.limit = h.channel.allocation.limit) :
    (h.after m).channel.allocation.limit = h.channel.allocation.limit := by
  have hup := (h.after_leads m).limit_le
  have hup' := (h.after m).limit_le_run ms
  rw [hlimit] at hup'
  exact congrArg RequestId.mk (Nat.le_antisymm hup' hup)

/-- **The flag after any moves** is set exactly if it was set at this limit, or a request among them was
    given no number at this limit. -/
theorem blocked_run_iff {h : ChannelHistory} (ha : Asleep h) (ms : List ChannelMove) :
    (h.run ms).channel.allocation.blocked = true ↔
      ((h.run ms).channel.allocation.limit = h.channel.allocation.limit ∧
        h.channel.allocation.blocked = true) ∨
      BlockedAt (h.run ms).channel.allocation.limit h ms := by
  induction ms generalizing h with
  | nil => exact ⟨fun hset => .inl ⟨rfl, hset⟩, fun hor =>
      (hor.resolve_right (not_blockedAt_nil _ h)).2⟩
  | cons m ms ih =>
      have hstep := blocked_after ha m
      have hrun : h.run (m :: ms) = (h.after m).run ms := rfl
      rw [hrun, ih (ha.leads (h.after_leads m)), hstep, blockedAt_cons, ← or_assoc]
      refine or_congr_left ?_
      constructor
      · rintro ⟨hlimit, hsame, hset | hanswer⟩
        · exact .inl ⟨hlimit.trans hsame, hset⟩
        · exact .inr ⟨(hlimit.trans hsame).symm, hanswer⟩
      · rintro (⟨hlimit, hset⟩ | ⟨hlimit, hanswer⟩)
        · have hsame := limit_eq_of_run hlimit
          exact ⟨hlimit.trans hsame.symm, hsame, .inl hset⟩
        · have hsame := limit_eq_of_run hlimit.symm
          exact ⟨hlimit.symm.trans hsame.symm, hsame, .inr hanswer⟩

-- ── answers on a closed queue ───────────────────────────────────────

section Closed

variable {h : ChannelHistory}

/-- A closed queue stays closed. -/
theorem isOpen_run_of_closed (hclosed : h.channel.isOpen = false) (ms : List ChannelMove) :
    (h.run ms).channel.isOpen = false := by
  refine Bool.eq_false_iff.mpr fun hopen => ?_
  rw [isOpen_of_run hopen] at hclosed
  cases hclosed

/-- **A request that finds no number on a closed queue** is cancelled if the flag is set, and is told why the
    peer cannot be told otherwise. -/
theorem answer?_of_closed (ha : Asleep h) (hclosed : h.channel.isOpen = false)
    (hnone : h.channel.allocation.limit.val ≤ h.channel.allocation.next.val) {m : ChannelMove}
    {answer : Attempt TransportError RequestId} (hanswer : h.answer? m = some answer) :
    answer = .failure (if h.channel.allocation.blocked then .cancel else h.channel.refusal) := by
  have hnone := (Allocation.take?_eq_none_iff _).mpr (.inl hnone)
  cases m with
  | begin name =>
      obtain rfl := Option.some.inj hanswer
      rw [Channel.begin_fst, Channel.request_of_closed hclosed hnone]
  | poll name =>
      rcases h.channel.poll?_cases name with hpoll | hpoll | ⟨w, hw, hasleep, halt, c, hpoll, -, hcancel⟩
      · rw [answer?, hpoll] at hanswer
        cases hanswer
      · rw [answer?, hpoll] at hanswer
        obtain rfl := Option.some.inj hanswer
        rw [Channel.begin_fst, Channel.request_of_closed (c := h.channel.forget name) hclosed hnone]
        rfl
      · rw [answer?, hpoll] at hanswer
        obtain rfl := Option.some.inj hanswer
        rw [hcancel hclosed, if_pos (ha w hw hasleep)]
        rfl
  | _ => cases hanswer

end Closed

/-- **The first request at a limit is told of the closed queue, and all others are cancelled.** Whatever
    happened to a channel, once its queue has lost its receiving end: a request that finds no number below
    the limit, be it new or polled again, is cancelled exactly if some request before it was given no number
    at this limit. If it is the first, its answer is that the queue is closed, or that a limit above the
    compact class cannot be told. Whichever of the two it was, until the limit is raised every later request
    is cancelled. -/
theorem closed_queue_cancels_all_but_first (client : Bool) (limit : RequestId) (ms : List ChannelMove)
    (h : ChannelHistory) (hrun : h = (start client limit).run ms) (hclosed : h.channel.isOpen = false)
    (hnone : h.channel.allocation.limit.val ≤ h.channel.allocation.next.val) (m : ChannelMove)
    (answer : Attempt TransportError RequestId) (hanswer : h.answer? m = some answer) :
    (answer = .failure .cancel ↔ BlockedAt h.channel.allocation.limit (start client limit) ms) ∧
      (¬ BlockedAt h.channel.allocation.limit (start client limit) ms → answer = .failure
        (if h.channel.allocation.limit.val ≤ Varint.compactMaximum then .closed
          else .encode .boundsExceeded)) ∧
      ∀ later, ((h.after m).run later).channel.allocation.limit = h.channel.allocation.limit →
        ∀ m' answer', ((h.after m).run later).answer? m' = some answer' → answer' = .failure .cancel := by
  have ha : Asleep h := hrun ▸ (asleep_start client limit).run ms
  -- the flag is clear in the beginning, so some request has set it
  have hflag : h.channel.allocation.blocked = true ↔
      BlockedAt h.channel.allocation.limit (start client limit) ms := by
    rw [hrun, blocked_run_iff (asleep_start client limit) ms]
    exact or_iff_right fun hset => Bool.noConfusion hset.2
  have hfailed := answer?_of_closed ha hclosed hnone hanswer
  rw [← hflag]
  refine ⟨?_, fun hclear => ?_, fun later hlimit m' answer' hanswer' => ?_⟩
  · rw [hfailed]
    cases hset : h.channel.allocation.blocked with
    | true => exact iff_of_true rfl rfl
    | false =>
        refine iff_of_false (fun heq => h.channel.refusal_ne_cancel ?_) Bool.false_ne_true
        exact Halt.failed.inj (Except.error.inj heq)
  · rw [hfailed, if_neg hclear]
    rfl
  · have hset : (h.after m).channel.allocation.blocked = true :=
      (blocked_after ha m).mpr ⟨limit_eq_of_run hlimit, .inr ⟨_, hfailed ▸ hanswer⟩⟩
    have ha' := ha.leads (h.after_leads m)
    have hset' : ((h.after m).run later).channel.allocation.blocked = true :=
      (blocked_run_iff ha' later).mpr (.inl ⟨hlimit.trans (limit_eq_of_run hlimit).symm, hset⟩)
    have hclosed' := isOpen_run_of_closed hclosed (m :: later)
    have hnone' : ((h.after m).run later).channel.allocation.limit.val ≤
        ((h.after m).run later).channel.allocation.next.val := by
      rw [hlimit]
      exact Nat.le_trans hnone (h.next_le_run (m :: later))
    rw [answer?_of_closed (ha'.run later) hclosed' hnone' hanswer', if_pos hset']

/-- A request waits, and tells the peer, when the queue is closed. It is cancelled, and so is one that is made
    after a limit was granted that raises nothing. -/
theorem closed_queue_cancels_all_but_first_waiting :
    let h := (start true ⟨0⟩).run [.begin "a", .hangUp]
    h.channel.isOpen = false ∧ h.channel.allocation.limit.val ≤ h.channel.allocation.next.val ∧
      h.answer? (.poll "a") = some (.failure .cancel) ∧
      ((h.after (.poll "a")).run [.grant ⟨0⟩]).answer? (.begin "b") = some (.failure .cancel) := by
  intro h
  obtain ⟨answer, hanswer⟩ : ∃ answer, h.answer? (.poll "a") = some answer := ⟨_, rfl⟩
  obtain ⟨hcancel, -, hlater⟩ := closed_queue_cancels_all_but_first true ⟨0⟩ [.begin "a", .hangUp] h rfl
    rfl (Nat.le_refl 0) (.poll "a") answer hanswer
  have hblocked : BlockedAt ⟨0⟩ (start true ⟨0⟩) [.begin "a", .hangUp] :=
    ⟨[], .begin "a", [.hangUp], rfl, rfl, .pending, rfl⟩
  obtain ⟨answer', hanswer'⟩ :
      ∃ answer', ((h.after (.poll "a")).run [.grant ⟨0⟩]).answer? (.begin "b") = some answer' := ⟨_, rfl⟩
  refine ⟨rfl, Nat.le_refl 0, ?_, ?_⟩
  · rw [hanswer, hcancel.mpr hblocked]
  · rw [hanswer', hlater [.grant ⟨0⟩] rfl (.begin "b") answer' hanswer']

/-- **The first request on a closed queue is not cancelled.** It finds no number below the limit, and its
    answer is another than that of the request behind it. -/
theorem first_request_is_not_cancelled :
    let h := (start true ⟨0⟩).run [.hangUp]
    h.channel.isOpen = false ∧ h.channel.allocation.limit.val ≤ h.channel.allocation.next.val ∧
      h.answer? (.begin "a") = some (.failure .closed) ∧
      (h.after (.begin "a")).answer? (.begin "b") = some (.failure .cancel) :=
  ⟨rfl, Nat.le_refl 0, rfl, rfl⟩

end ChannelHistory

end LiveMedia.Request
