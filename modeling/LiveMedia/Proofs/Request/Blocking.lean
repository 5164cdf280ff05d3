import LiveMedia.Proofs.Message.RoundTrip
import LiveMedia.Proofs.Request.History

/-!
# Blocked requests tell the peer once, and none sleeps through a raise

A request that finds no number below the limit waits, and the first one after the limit was raised also
tells the peer. The flag `blocked` of the allocation stands for more than it says (`Told`): while it is
set, the numbers are used up to the limit and the peer was told of this very limit; while it is not, the
peer was told of smaller limits only, and every request that waits was woken.

Both results hang on the raise. It makes the limit larger than all limits that were told, so that no
limit is told twice, and it wakes every request, so that one which was not woken began to wait since then
and found the flag set.

This holds as long as the message can be sent: the queue is open, and limits are of the compact class.
Other messages may be sent in between, unless they are of the same kind.
-/

namespace LiveMedia.Request

open LiveMedia.Wire LiveMedia.Message

-- ── the message ─────────────────────────────────────────────────────

namespace Channel

theorem eq_of_announcement {l l' : RequestId} {bs : Bytes} (h : announcement l = .ok bs)
    (h' : announcement l' = .ok bs) : l = l' :=
  congrArg RequestsBlocked.requestId
    (ControlMessage.requestsBlocked.inj (ControlMessage.eq_of_encode h h'))

/-- A limit of the compact class can be told. -/
theorem exists_announcement {limit : RequestId} (hlimit : limit.val ≤ Varint.compactMaximum) :
    ∃ bs, announcement limit = .ok bs := by
  cases hencode : announcement limit with
  | ok bs => exact ⟨bs, rfl⟩
  | error e =>
      rcases (ControlMessage.fails_iff (.requestsBlocked ⟨limit⟩)).mp ⟨e, hencode⟩ with hbig | hlong
      · exact absurd hlimit (Nat.not_le_of_lt hbig)
      · have hsize : RequestsBlocked.bodySize ⟨limit⟩ ≤ 8 := Varint.size_le ⟨limit.val⟩
        exact absurd (Nat.lt_of_lt_of_le hlong hsize) (by decide)

end Channel

namespace ChannelHistory

-- ── the invariant ───────────────────────────────────────────────────

/-- What the peer was told, and who waits. -/
structure Told (h : ChannelHistory) : Prop where
  /-- Only limits that numbers had reached were told, and the present one only since it is flagged. -/
  behind : ∀ q ∈ h.queued, ∀ l, Channel.announcement l = .ok q.1 →
    l.val ≤ h.channel.allocation.limit.val ∧ l.val ≤ q.2.val ∧
      (l = h.channel.allocation.limit → h.channel.allocation.blocked = true)
  once : ∀ l bs, Channel.announcement l = .ok bs → (h.queued.map Prod.fst).count bs ≤ 1
  told : h.channel.allocation.blocked = true →
    h.channel.allocation.limit.val ≤ h.channel.allocation.next.val ∧
      ∃ bs ∈ h.queued.map Prod.fst, Channel.announcement h.channel.allocation.limit = .ok bs
  asleep : ∀ w ∈ h.channel.waiting, w.2 = false → h.channel.allocation.blocked = true

theorem told_start (client : Bool) (limit : RequestId) : Told (start client limit) where
  behind _ hq := absurd hq List.not_mem_nil
  once _ _ _ := Nat.zero_le 1
  told hblocked := Bool.noConfusion hblocked
  asleep _ hw := absurd hw List.not_mem_nil

section Steps

variable {h h' : ChannelHistory} {spoken : ControlMessage → Prop}

/-- The numbers may go on, and requests may begin to wait while the flag is set. -/
theorem Told.congr (ht : Told h) {c : Channel} {allocated : List (RequestId × RequestId)}
    {granted : List RequestId} (hlimit : c.allocation.limit = h.channel.allocation.limit)
    (hblocked : c.allocation.blocked = h.channel.allocation.blocked)
    (hnext : h.channel.allocation.next.val ≤ c.allocation.next.val)
    (hwaiting : ∀ w ∈ c.waiting, w ∈ h.channel.waiting ∨ h.channel.allocation.blocked = true) :
    Told { h with channel := c, allocated, granted } where
  behind := by
    rw [hlimit, hblocked]
    exact ht.behind
  once := ht.once
  told := by
    rw [hlimit, hblocked]
    intro hset
    obtain ⟨hle, htold⟩ := ht.told hset
    exact ⟨Nat.le_trans hle hnext, htold⟩
  asleep := by
    rw [hblocked]
    intro w hw hasleep
    rcases hwaiting w hw with hw | hset
    · exact ht.asleep w hw hasleep
    · exact hset

/-- The first request that finds no number below the limit sets the flag and tells the peer. -/
theorem Told.tells (ht : Told h) {c : Channel} {bs : Bytes}
    (hlimit : c.allocation.limit = h.channel.allocation.limit)
    (hnext : c.allocation.next = h.channel.allocation.next)
    (hclear : h.channel.allocation.blocked = false) (hset : c.allocation.blocked = true)
    (hreached : h.channel.allocation.limit.val ≤ h.channel.allocation.next.val)
    (hbs : Channel.announcement h.channel.allocation.limit = .ok bs) :
    Told { h with channel := c, queued := h.queued ++ [(bs, h.channel.allocation.next)] } where
  behind q hq l hl := by
    rw [hlimit, hset]
    rcases List.mem_append.mp hq with hq | hq
    · obtain ⟨hle, hbehind, -⟩ := ht.behind q hq l hl
      exact ⟨hle, hbehind, fun _ => rfl⟩
    · obtain rfl := List.mem_singleton.mp hq
      obtain rfl := Channel.eq_of_announcement hl hbs
      exact ⟨Nat.le_refl _, hreached, fun _ => rfl⟩
  once l bs' hl := by
    rw [List.map_append, List.count_append]
    show List.count bs' (h.queued.map Prod.fst) + List.count bs' [bs] ≤ 1
    by_cases heq : bs = bs'
    · subst heq
      obtain rfl := Channel.eq_of_announcement hl hbs
      -- were it in the queue before, the flag would be set
      have hnew : bs ∉ h.queued.map Prod.fst := by
        intro hmem
        obtain ⟨q, hq, rfl⟩ := List.mem_map.mp hmem
        have hset := (ht.behind q hq _ hl).2.2 rfl
        rw [hclear] at hset
        exact Bool.noConfusion hset
      have hzero := List.count_eq_zero_of_not_mem hnew
      have hone : List.count bs [bs] = 1 := List.count_singleton_self
      omega
    · rw [List.count_eq_zero_of_not_mem fun hmem => heq (List.mem_singleton.mp hmem).symm]
      exact ht.once l bs' hl
  told _ := by
    rw [hlimit, hnext]
    exact ⟨hreached, bs, List.mem_map.mpr ⟨_, List.mem_append_right _ List.mem_cons_self, rfl⟩, hbs⟩
  asleep _ _ _ := hset

/-- After a raise all limits that were told are smaller, and nobody sleeps. -/
theorem Told.raises (ht : Told h) {c : Channel} {granted : List RequestId}
    (hlt : h.channel.allocation.limit.val < c.allocation.limit.val)
    (hclear : c.allocation.blocked = false) (hwoken : ∀ w ∈ c.waiting, w.2 = true) :
    Told { h with channel := c, granted } where
  behind q hq l hl := by
    obtain ⟨hle, hbehind, -⟩ := ht.behind q hq l hl
    have hsmaller := Nat.lt_of_le_of_lt hle hlt
    refine ⟨Nat.le_of_lt hsmaller, hbehind, fun heq => ?_⟩
    exact absurd (congrArg RequestId.val heq) (Nat.ne_of_lt hsmaller)
  once := ht.once
  told hset := by
    rw [hclear] at hset
    exact Bool.noConfusion hset
  asleep w hw hasleep := by
    rw [hwoken w hw] at hasleep
    exact Bool.noConfusion hasleep

/-- Messages of other kinds are not taken for this one. -/
theorem Told.sends (ht : Told h) {bs : Bytes} {next : RequestId}
    (hother : ∀ l, Channel.announcement l ≠ .ok bs) :
    Told { h with
      channel := { h.channel with queue := h.channel.queue ++ [bs] }
      queued := h.queued ++ [(bs, next)] } where
  behind q hq l hl := by
    rcases List.mem_append.mp hq with hq | hq
    · exact ht.behind q hq l hl
    · obtain rfl := List.mem_singleton.mp hq
      exact absurd hl (hother l)
  once l bs' hl := by
    rw [List.map_append, List.count_append]
    show List.count bs' (h.queued.map Prod.fst) + List.count bs' [bs] ≤ 1
    have hnot : bs' ∉ [bs] := fun hmem => hother l (List.mem_singleton.mp hmem ▸ hl)
    rw [List.count_eq_zero_of_not_mem hnot]
    exact ht.once l bs' hl
  told hset := by
    obtain ⟨hle, bs', hmem, hbs'⟩ := ht.told hset
    refine ⟨hle, bs', ?_, hbs'⟩
    rw [List.map_append]
    exact List.mem_append_left _ hmem
  asleep := ht.asleep

theorem Told.leads (ht : Told h) (hleads : h.Leads spoken h')
    (hspoken : ∀ blocked, ¬ spoken (.requestsBlocked blocked)) (hopen : h.channel.isOpen = true)
    (hlimit : h.channel.allocation.limit.val ≤ Varint.compactMaximum) : Told h' := by
  -- the numbers never run out first, as the limit is far below the largest word
  have hreached : h.channel.allocation.take? = none →
      h.channel.allocation.limit.val ≤ h.channel.allocation.next.val := by
    intro hnone
    have hcases := (Allocation.take?_eq_none_iff _).mp hnone
    simp only [Varint.compactMaximum, RequestId.wordLimit] at hlimit hcases
    omega
  cases hleads with
  | number hsub _ _ => exact ht.congr rfl rfl (Nat.le_add_right _ 2) fun w hw => .inl (hsub hw)
  | waits _ _ hset => exact ht.congr rfl rfl (Nat.le_refl _) fun _ _ => .inr hset
  | tells _ hnone hclear hbs => exact ht.tells rfl rfl hclear rfl (hreached hnone) hbs
  | refused _ hrefused =>
      obtain ⟨bs, hbs⟩ := Channel.exists_announcement hlimit
      rcases hrefused with hclosed | ⟨err, herr⟩
      · rw [hopen] at hclosed
        exact Bool.noConfusion hclosed
      · rw [hbs] at herr
        cases herr
  | raises hlt =>
      refine ht.raises hlt rfl fun w hw => ?_
      obtain ⟨w', -, rfl⟩ := List.mem_map.mp hw
      rfl
  | ignores _ => exact ht.congr rfl rfl (Nat.le_refl _) fun w hw => .inl hw
  | sends hm hbs =>
      refine ht.sends fun l hl => hspoken ⟨l⟩ ?_
      rwa [← ControlMessage.eq_of_encode hbs hl]
  | other hallocation hsub _ =>
      refine ht.congr (congrArg _ hallocation) (congrArg _ hallocation) ?_ fun w hw => .inl (hsub hw)
      exact Nat.le_of_eq (congrArg (·.next.val) hallocation.symm)

theorem Told.run (ht : Told h) {ms : List ChannelMove}
    (hms : ∀ blocked, .send (.requestsBlocked blocked) ∉ ms)
    (hopen : (h.run ms).channel.isOpen = true)
    (hlimit : (h.run ms).channel.allocation.limit.val ≤ Varint.compactMaximum) : Told (h.run ms) := by
  induction ms generalizing h with
  | nil => exact ht
  | cons m ms ih =>
      have hspoken : ∀ blocked, m ≠ .send (.requestsBlocked blocked) := fun blocked heq =>
        hms blocked (heq ▸ List.mem_cons_self)
      have hms' : ∀ blocked, .send (.requestsBlocked blocked) ∉ ms := fun blocked hmem =>
        hms blocked (List.mem_cons_of_mem m hmem)
      have hopen' : (h.run (m :: ms)).channel.isOpen = true := hopen
      have hlimit' := Nat.le_trans (h.limit_le_run (m :: ms)) hlimit
      have hstep := ht.leads (h.after_leads m) hspoken (isOpen_of_run hopen') hlimit'
      exact ih hstep hms' hopen hlimit

end Steps

-- ── the result ──────────────────────────────────────────────────────

/-- **Blocked requests tell the peer once, and none sleeps through a raise.** While the queue is open and
    limits are of the compact class: of each limit the peer is told at most once, and only when the next
    number has reached it. If a request waits that was not woken, then the next number has reached the
    present limit, and the peer was told of it. -/
theorem blocking_is_told_once (client : Bool) (limit : RequestId) (ms : List ChannelMove)
    (hms : ∀ blocked, .send (.requestsBlocked blocked) ∉ ms) (h : ChannelHistory)
    (hrun : h = (start client limit).run ms) (hopen : h.channel.isOpen = true)
    (hlimit : h.channel.allocation.limit.val ≤ Varint.compactMaximum) :
    (∀ l bs, (ControlMessage.requestsBlocked ⟨l⟩).encode = .ok bs →
        (h.queued.map Prod.fst).count bs ≤ 1 ∧ ∀ next, (bs, next) ∈ h.queued → l.val ≤ next.val) ∧
      ∀ w ∈ h.channel.waiting, w.2 = false →
        h.channel.allocation.limit.val ≤ h.channel.allocation.next.val ∧
          ∃ bs ∈ h.queued.map Prod.fst,
            (ControlMessage.requestsBlocked ⟨h.channel.allocation.limit⟩).encode = .ok bs := by
  subst hrun
  have ht : Told ((start client limit).run ms) := (told_start client limit).run hms hopen hlimit
  refine ⟨fun l bs hbs => ⟨ht.once l bs hbs, fun next hmem => ?_⟩, fun w hw hasleep => ?_⟩
  · exact (ht.behind (bs, next) hmem l hbs).2.1
  · exact ht.told (ht.asleep w hw hasleep)

/-- Two requests are woken for one number. The one that loses waits again and tells the peer of the new
    limit. -/
theorem blocking_is_told_once_lostRace :
    let h := (start true ⟨0⟩).run [.begin "a", .begin "b", .grant ⟨2⟩, .poll "a", .poll "b"]
    h.channel.waiting = [("b", false)] ∧ h.queued.length = 2 ∧
      ∃ bs ∈ h.queued.map Prod.fst, (ControlMessage.requestsBlocked ⟨⟨2⟩⟩).encode = .ok bs ∧
        (h.queued.map Prod.fst).count bs ≤ 1 := by
  intro h
  obtain ⟨htold, hasleep⟩ := blocking_is_told_once true ⟨0⟩ _ (by simp) h rfl (by decide +kernel)
    (by decide +kernel)
  obtain ⟨-, bs, hmem, hbs⟩ := hasleep ("b", false) (by decide +kernel) rfl
  have hlimit : h.channel.allocation.limit = ⟨2⟩ := by decide +kernel
  rw [hlimit] at hbs
  exact ⟨by decide +kernel, by decide +kernel, bs, hmem, hbs, (htold _ bs hbs).1⟩

end ChannelHistory

end LiveMedia.Request
