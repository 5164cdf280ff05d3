import LiveMedia.Request.Channel

/-!
# The history of a control channel

`ChannelHistory` keeps, beside a control channel, what has become of it since it was made: the request IDs
that were given out, the limits that the peer granted, and everything that was put into the queue. All
copies of a channel share its state, so the calls of any number of them, made in any order, are one list
of moves.

A move looks like many cases, as a request may be new or polled again, answered, kept or dropped. For the
history there are few of them (`Leads`): a number is given out, a request waits, the first one that waits
for a limit tells the peer so or fails to, a limit is granted and raises the present one or does not, a
message is sent. All else leaves the numbers alone and adds no waiting request.
-/

namespace LiveMedia.Request

open LiveMedia.Wire LiveMedia.Message LiveMedia.Stream

-- ── taking a number ─────────────────────────────────────────────────

namespace Allocation

theorem take?_eq_none_iff (a : Allocation) :
    a.take? = none ↔ a.limit.val ≤ a.next.val ∨ RequestId.wordLimit ≤ a.next.val + 2 := by
  simp only [take?, RequestId.successor?]
  split
  · next hlt =>
    split
    · next hword => simp; omega
    · next hword => simp; omega
  · next hle => simp; omega

theorem take?_of_lt {a : Allocation} (hlimit : a.next.val < a.limit.val)
    (hword : a.next.val + 2 < RequestId.wordLimit) :
    a.take? = some (a.next, { a with next := ⟨a.next.val + 2⟩ }) := by
  simp only [take?, RequestId.successor?, if_pos hlimit, if_pos hword, Option.map_some]

theorem take?_eq_some {a : Allocation} {taken : RequestId × Allocation} (h : a.take? = some taken) :
    a.next.val < a.limit.val ∧ a.next.val + 2 < RequestId.wordLimit ∧
      taken = (a.next, { a with next := ⟨a.next.val + 2⟩ }) := by
  have hsome : a.take? ≠ none := h ▸ Option.some_ne_none taken
  rw [ne_eq, take?_eq_none_iff, not_or, Nat.not_le, Nat.not_le] at hsome
  obtain ⟨hlimit, hword⟩ := hsome
  rw [take?_of_lt hlimit hword] at h
  exact ⟨hlimit, hword, (Option.some.inj h).symm⟩

end Allocation

-- ── answers to requests ─────────────────────────────────────────────

namespace Channel

theorem push_of_open {c : Channel} (h : c.isOpen = true) (bs : Bytes) :
    c.push bs = .ok { c with queue := c.queue ++ [bs] } := if_pos h

theorem push_of_closed {c : Channel} (h : c.isOpen = false) (bs : Bytes) :
    c.push bs = .error .closed := if_neg (by simp [h])

theorem wait_of_open {c : Channel} (h : c.isOpen = true) : c.wait = (.pending, c) := by
  rw [wait, if_pos h]

theorem wait_of_closed {c : Channel} (h : c.isOpen = false) : c.wait = (.failure .cancel, c) := by
  rw [wait, if_neg (by simp [h])]

/-- The message by which requests tell the peer that they wait for a higher limit. -/
def announcement (limit : RequestId) : Encoded := (ControlMessage.requestsBlocked ⟨limit⟩).encode

/-- What a request is answered, and the channel afterwards. -/
inductive Answers (c : Channel) : Attempt TransportError RequestId × Channel → Prop where
  | number : c.allocation.next.val < c.allocation.limit.val →
      c.allocation.next.val + 2 < RequestId.wordLimit →
      Answers c (.ok c.allocation.next,
        { c with allocation := { c.allocation with next := ⟨c.allocation.next.val + 2⟩ } })
  | waits : c.allocation.take? = none → c.allocation.blocked = true → c.isOpen = true →
      Answers c (.pending, c)
  | cancelled : c.isOpen = false → Answers c (.failure .cancel, c)
  | tells {bs : Bytes} : c.allocation.take? = none → c.allocation.blocked = false → c.isOpen = true →
      announcement c.allocation.limit = .ok bs →
      Answers c (.pending,
        { c with allocation := { c.allocation with blocked := true }, queue := c.queue ++ [bs] })
  | refused {e : TransportError} :
      c.isOpen = false ∨ (∃ err, announcement c.allocation.limit = .error err) →
      Answers c (.failure e, { c with allocation := { c.allocation with blocked := true } })

theorem answers_request (c : Channel) : c.Answers c.request := by
  rw [request]
  cases htake : c.allocation.take? with
  | some taken =>
      obtain ⟨hlimit, hword, rfl⟩ := Allocation.take?_eq_some htake
      exact .number hlimit hword
  | none =>
      dsimp only
      split
      · next hblocked =>
        cases hopen : c.isOpen with
        | true =>
            rw [wait_of_open hopen]
            exact .waits htake hblocked hopen
        | false =>
            rw [wait_of_closed hopen]
            exact .cancelled hopen
      · next hblocked =>
        have hblocked := Bool.not_eq_true _ ▸ hblocked
        simp only [send]
        cases hencode : (ControlMessage.requestsBlocked ⟨c.allocation.limit⟩).encode with
        | error err => exact .refused (.inr ⟨err, hencode⟩)
        | ok bs =>
            by_cases hopen : c.isOpen = true
            · have hpush := push_of_open (c := { c with
                allocation := { c.allocation with blocked := true } }) hopen bs
              simp only [hpush, wait, if_pos hopen]
              exact .tells htake hblocked hopen hencode
            · have hclosed : c.isOpen = false := Bool.eq_false_iff.mpr hopen
              have hpush := push_of_closed (c := { c with
                allocation := { c.allocation with blocked := true } }) hclosed bs
              simp only [hpush]
              exact .refused (.inl hclosed)

/-- A received message is a limit that is granted, or it changes nothing. -/
theorem receiveWithin_cases (c : Channel) (fuel : Nat) (r : Reader) :
    (∃ m, (c.receiveWithin fuel r).1 = .ok (some (.maxRequestId m)) ∧
      (c.receiveWithin fuel r).2.1 = c.grant m.requestId) ∨
    (∀ m, (c.receiveWithin fuel r).1 ≠ .ok (some (.maxRequestId m))) ∧
      (c.receiveWithin fuel r).2.1 = c := by
  induction fuel generalizing r with
  | zero => exact .inr ⟨fun m h => (nomatch h), rfl⟩
  | succ fuel ih =>
      rw [receiveWithin]
      split
      · next r' _ => exact .inr ⟨fun m h => (nomatch h), rfl⟩
      · next e r' _ =>
        split
        · next m _ =>
          cases m with
          | maxRequestId m => exact .inl ⟨m, rfl, rfl⟩
          | _ => exact .inr ⟨fun m h => (nomatch h), rfl⟩
        · next err _ => exact ih r'
      · next h r' _ => exact .inr ⟨fun m h => (nomatch h), rfl⟩

end Channel

-- ── histories ───────────────────────────────────────────────────────

/-- One thing that happens to a channel. A request that is polled or dropped is named; one that gives up
    because the queue is closed leaves the channel as one that is dropped. -/
inductive ChannelMove where
  | begin (name : String)
  | poll (name : String)
  | forget (name : String)
  /-- The peer's limit is set by a call. -/
  | grant (limit : RequestId)
  /-- A reader of the peer's messages is polled. -/
  | receive (r : Reader)
  | send (m : ControlMessage)
  | takeAll
  | drain (isHeld : Bool) (sink : Sink)
  | hangUp

/-- A channel with what became of it. -/
structure ChannelHistory where
  channel : Channel
  /-- The IDs that were given out, each with the limit at that time. -/
  allocated : List (RequestId × RequestId)
  /-- The limits that were granted, by calls and by messages. -/
  granted : List RequestId
  /-- What was put into the queue, each with the next ID at that time. -/
  queued : List (Bytes × RequestId)

namespace ChannelHistory

def start (client : Bool) (limit : RequestId) : ChannelHistory :=
  ⟨.start client limit, [], [], []⟩

/-- The history after a call that left the channel `c`: what stands in its queue behind the old one is
    new. -/
def posting (h : ChannelHistory) (c : Channel) : ChannelHistory :=
  { h with
    channel := c
    queued := h.queued ++ (c.queue.drop h.channel.queue.length).map (·, h.channel.allocation.next) }

/-- The history after a request was answered. -/
def answered (h : ChannelHistory) (x : Attempt TransportError RequestId × Channel) : ChannelHistory :=
  { h.posting x.2 with
    allocated := h.allocated ++ x.1.toOption.toList.map (·, h.channel.allocation.limit) }

/-- The limit that a message grants, if it is one that does. -/
def grantIn : Attempt TransportError (Option ControlMessage) → List RequestId
  | .ok (some (.maxRequestId m)) => [m.requestId]
  | _ => []

def after (h : ChannelHistory) : ChannelMove → ChannelHistory
  | .begin name => h.answered (h.channel.begin name)
  | .poll name => match h.channel.poll? name with
    | some x => h.answered x
    | none => h
  | .forget name => { h with channel := h.channel.forget name }
  | .grant limit => { h with channel := h.channel.grant limit, granted := h.granted ++ [limit] }
  | .receive r =>
    let (attempt, c, _) := h.channel.receive r
    { h with channel := c, granted := h.granted ++ grantIn attempt }
  | .send m => match h.channel.send m with
    | .ok c => h.posting c
    | .error _ => h
  | .takeAll => { h with channel := h.channel.takeAll.2 }
  | .drain isHeld sink => { h with channel := (h.channel.drain isHeld sink).2.1 }
  | .hangUp => { h with channel := h.channel.hangUp }

def run (h : ChannelHistory) : List ChannelMove → ChannelHistory
  | [] => h
  | m :: ms => (h.after m).run ms

-- ── what a move may lead to ─────────────────────────────────────────

/-- Where a move may lead. Requests that wait may have been dropped. What is sent by hand is one of the
    `spoken` messages. -/
inductive Leads (h : ChannelHistory) (spoken : ControlMessage → Prop) : ChannelHistory → Prop where
  /-- A request is given the next number. -/
  | number {waiting : List (String × Bool)} : waiting ⊆ h.channel.waiting →
      h.channel.allocation.next.val < h.channel.allocation.limit.val →
      h.channel.allocation.next.val + 2 < RequestId.wordLimit →
      Leads h spoken { h with
        channel := { h.channel with
          allocation := { h.channel.allocation with next := ⟨h.channel.allocation.next.val + 2⟩ }
          waiting }
        allocated := h.allocated ++ [(h.channel.allocation.next, h.channel.allocation.limit)] }
  /-- A request waits; the peer was told. -/
  | waits {waiting : List (String × Bool)} {name : String} : waiting ⊆ h.channel.waiting →
      h.channel.allocation.take? = none → h.channel.allocation.blocked = true →
      Leads h spoken { h with channel := { h.channel with waiting := waiting ++ [(name, false)] } }
  /-- A request waits and tells the peer. -/
  | tells {waiting : List (String × Bool)} {name : String} {bs : Bytes} :
      waiting ⊆ h.channel.waiting →
      h.channel.allocation.take? = none → h.channel.allocation.blocked = false →
      Channel.announcement h.channel.allocation.limit = .ok bs →
      Leads h spoken { h with
        channel := { h.channel with
          allocation := { h.channel.allocation with blocked := true }
          queue := h.channel.queue ++ [bs]
          waiting := waiting ++ [(name, false)] }
        queued := h.queued ++ [(bs, h.channel.allocation.next)] }
  /-- A request cannot tell the peer. -/
  | refused {waiting : List (String × Bool)} : waiting ⊆ h.channel.waiting →
      h.channel.isOpen = false ∨ (∃ err, Channel.announcement h.channel.allocation.limit = .error err) →
      Leads h spoken { h with channel := { h.channel with
        allocation := { h.channel.allocation with blocked := true }
        waiting } }
  /-- A higher limit wakes all that wait. -/
  | raises {limit : RequestId} : h.channel.allocation.limit.val < limit.val →
      Leads h spoken { h with
        channel := { h.channel with
          allocation := { h.channel.allocation with limit, blocked := false }
          waiting := h.channel.waiting.map fun w => (w.1, true) }
        granted := h.granted ++ [limit] }
  | ignores {limit : RequestId} : limit.val ≤ h.channel.allocation.limit.val →
      Leads h spoken { h with granted := h.granted ++ [limit] }
  /-- A message is sent by hand. -/
  | sends {m : ControlMessage} {bs : Bytes} : spoken m → m.encode = .ok bs →
      Leads h spoken { h with
        channel := { h.channel with queue := h.channel.queue ++ [bs] }
        queued := h.queued ++ [(bs, h.channel.allocation.next)] }
  /-- The numbers are left alone, and nothing new waits. -/
  | other {c : Channel} : c.allocation = h.channel.allocation → c.waiting ⊆ h.channel.waiting →
      (c.isOpen = true → h.channel.isOpen = true) → Leads h spoken { h with channel := c }

theorem posting_of_eq (h : ChannelHistory) {c : Channel} (hqueue : c.queue = h.channel.queue) :
    h.posting c = { h with channel := c } := by
  simp only [posting, hqueue, List.drop_length, List.map_nil, List.append_nil]

theorem posting_of_append (h : ChannelHistory) {c : Channel} {bs : Bytes}
    (hqueue : c.queue = h.channel.queue ++ [bs]) :
    h.posting c = { h with channel := c, queued := h.queued ++ [(bs, h.channel.allocation.next)] } := by
  simp only [posting, hqueue, List.drop_left, List.map_cons, List.map_nil]

theorem answered_ok (h : ChannelHistory) {c : Channel} (hqueue : c.queue = h.channel.queue)
    (id : RequestId) : h.answered (.ok id, c) = { h with
      channel := c, allocated := h.allocated ++ [(id, h.channel.allocation.limit)] } := by
  simp only [answered, h.posting_of_eq hqueue]
  rfl

theorem answered_error (h : ChannelHistory) (halt : Halt TransportError) (c : Channel) :
    h.answered (.error halt, c) = h.posting c := by
  simp only [answered, Except.toOption, Option.toList_none, List.map_nil, List.append_nil]
  rfl

theorem forget_subset (c : Channel) (name : String) : (c.forget name).waiting ⊆ c.waiting :=
  fun _ hw => (List.mem_filter.mp hw).1

section Moves

variable {spoken : ControlMessage → Prop}

/-- A request is made, or tried again. -/
theorem begin_leads (h : ChannelHistory) {waiting : List (String × Bool)}
    (hsub : waiting ⊆ h.channel.waiting) (name : String) :
    h.Leads spoken (h.answered (Channel.begin { h.channel with waiting } name)) := by
  have hrequest := Channel.answers_request { h.channel with waiting }
  have hkept : (Channel.forget { h.channel with waiting } name).waiting ⊆ h.channel.waiting :=
    fun _ hw => hsub (forget_subset _ name hw)
  rw [Channel.begin]
  generalize Channel.request { h.channel with waiting } = x at hrequest
  cases hrequest with
  | number hlimit hword =>
      show h.Leads spoken (h.answered (.ok h.channel.allocation.next, _))
      rw [answered_ok]
      · exact .number hsub hlimit hword
      · rfl
  | waits htake hblocked hopen =>
      show h.Leads spoken (h.answered (.error .pending, Channel.keep _ name))
      rw [answered_error, posting_of_eq]
      · exact .waits hkept htake hblocked
      · rfl
  | cancelled hclosed =>
      show h.Leads spoken (h.answered (.error (.failed .cancel), _))
      rw [answered_error, posting_of_eq]
      · exact .other rfl hsub id
      · rfl
  | tells htake hblocked hopen hencode =>
      show h.Leads spoken (h.answered (.error .pending, Channel.keep _ name))
      rw [answered_error, posting_of_append]
      · exact .tells hkept htake hblocked hencode
      · rfl
  | @refused e hfails =>
      show h.Leads spoken (h.answered (.error (.failed e), _))
      rw [answered_error, posting_of_eq]
      · exact .refused hsub hfails
      · rfl

theorem poll_leads (h : ChannelHistory) (name : String) :
    h.Leads spoken (h.after (.poll name)) := by
  simp only [after, Channel.poll?]
  cases hfind : h.channel.waiting.find? fun w => w.1 == name with
  | none => exact .other rfl (List.Subset.refl _) id
  | some w =>
      obtain ⟨other, woken⟩ := w
      cases woken with
      | true => exact h.begin_leads (forget_subset h.channel name) name
      | false =>
          show h.Leads spoken (h.answered (h.channel.wait.1,
            if h.channel.wait.1.isPending then h.channel.wait.2 else h.channel.wait.2.forget name))
          cases hopen : h.channel.isOpen with
          | true =>
              rw [Channel.wait_of_open hopen]
              show h.Leads spoken (h.answered (.error .pending, h.channel))
              rw [answered_error, posting_of_eq]
              · exact .other rfl (List.Subset.refl _) id
              · rfl
          | false =>
              rw [Channel.wait_of_closed hopen]
              show h.Leads spoken (h.answered (.error (.failed .cancel), h.channel.forget name))
              rw [answered_error, posting_of_eq]
              · exact .other rfl (forget_subset h.channel name) id
              · rfl

/-- A limit that is granted. -/
theorem grant_leads (h : ChannelHistory) (limit : RequestId) :
    h.Leads spoken { h with channel := h.channel.grant limit, granted := h.granted ++ [limit] } := by
  simp only [Channel.grant, Allocation.raise]
  split
  · next hraised =>
    split at hraised
    · next hlt =>
      obtain rfl := (Prod.mk.inj hraised).2
      exact .raises hlt
    · cases hraised
  · next hraised =>
    split at hraised
    · cases hraised
    · next hle => exact .ignores (Nat.le_of_not_lt hle)

theorem grantIn_eq_nil {x : Attempt TransportError (Option ControlMessage)}
    (hx : ∀ m, x ≠ .ok (some (.maxRequestId m))) : grantIn x = [] := by
  unfold grantIn
  split
  · next m => exact absurd rfl (hx m)
  · rfl

theorem receive_leads (h : ChannelHistory) (r : Reader) : h.Leads spoken (h.after (.receive r)) := by
  show h.Leads spoken { h with
    channel := (h.channel.receive r).2.1, granted := h.granted ++ grantIn (h.channel.receive r).1 }
  rcases h.channel.receiveWithin_cases (r.buffer.length + r.source.volume + 1) r with
    ⟨m, hattempt, hchannel⟩ | ⟨hattempt, hchannel⟩
  · rw [Channel.receive, hattempt, hchannel]
    exact h.grant_leads m.requestId
  · rw [Channel.receive, grantIn_eq_nil hattempt, hchannel, List.append_nil]
    exact .other rfl (List.Subset.refl _) id

/-- Draining takes from the queue and may close it. -/
theorem drain_leads (h : ChannelHistory) (isHeld : Bool) (sink : Sink) :
    h.Leads spoken (h.after (.drain isHeld sink)) := by
  simp only [after, Channel.drain]
  split
  · cases isHeld with
    | true => exact .other rfl (List.Subset.refl _) id
    | false => exact .other rfl (List.Subset.refl _) fun hopen => Bool.noConfusion hopen
  · exact .other rfl (List.Subset.refl _) id
  · exact .other rfl (List.Subset.refl _) fun hopen => Bool.noConfusion hopen

theorem send_leads (h : ChannelHistory) {m : ControlMessage} (hm : spoken m) :
    h.Leads spoken (h.after (.send m)) := by
  simp only [after, Channel.send]
  cases hencode : m.encode with
  | error e => exact .other rfl (List.Subset.refl _) id
  | ok bs =>
      dsimp only
      by_cases hopen : h.channel.isOpen = true
      · rw [Channel.push_of_open hopen]
        dsimp only
        rw [posting_of_append]
        · exact .sends hm hencode
        · rfl
      · rw [Channel.push_of_closed (Bool.eq_false_iff.mpr hopen)]
        exact .other rfl (List.Subset.refl _) id

end Moves

/-- **Where a move leads.** -/
theorem after_leads (h : ChannelHistory) (m : ChannelMove) :
    h.Leads (fun msg => m = .send msg) (h.after m) := by
  cases m with
  | begin name => exact h.begin_leads (List.Subset.refl _) name
  | poll name => exact h.poll_leads name
  | forget name => exact .other rfl (forget_subset h.channel name) id
  | grant limit => exact h.grant_leads limit
  | receive r => exact h.receive_leads r
  | send msg => exact h.send_leads rfl
  | takeAll => exact .other rfl (List.Subset.refl _) id
  | drain isHeld sink => exact h.drain_leads isHeld sink
  | hangUp => exact .other rfl (List.Subset.refl _) fun hopen => Bool.noConfusion hopen

-- ── what no move takes back ─────────────────────────────────────────

section Lasting

variable {h h' : ChannelHistory} {spoken : ControlMessage → Prop}

/-- The limit is never lowered. -/
theorem Leads.limit_le (hleads : h.Leads spoken h') :
    h.channel.allocation.limit.val ≤ h'.channel.allocation.limit.val := by
  cases hleads with
  | raises hlt => exact Nat.le_of_lt hlt
  | other hallocation _ _ => exact Nat.le_of_eq (congrArg (·.limit.val) hallocation.symm)
  | _ => exact Nat.le_refl _

/-- A queue that lost its receiving end does not get it back. -/
theorem Leads.isOpen_of_isOpen (hleads : h.Leads spoken h') (hopen : h'.channel.isOpen = true) :
    h.channel.isOpen = true := by
  cases hleads with
  | other _ _ hback => exact hback hopen
  | _ => exact hopen

end Lasting

theorem limit_le_run (h : ChannelHistory) (ms : List ChannelMove) :
    h.channel.allocation.limit.val ≤ (h.run ms).channel.allocation.limit.val := by
  induction ms generalizing h with
  | nil => exact Nat.le_refl _
  | cons m ms ih => exact Nat.le_trans (h.after_leads m).limit_le (ih (h.after m))

theorem isOpen_of_run {h : ChannelHistory} {ms : List ChannelMove}
    (hopen : (h.run ms).channel.isOpen = true) : h.channel.isOpen = true := by
  induction ms generalizing h with
  | nil => exact hopen
  | cons m ms ih => exact (h.after_leads m).isOpen_of_isOpen (ih hopen)

end ChannelHistory

end LiveMedia.Request
