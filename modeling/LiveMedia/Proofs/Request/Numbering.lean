import LiveMedia.Proofs.Request.History

/-!
# Requests are numbered in steps of two

Whoever makes requests, and however their calls are interleaved, dropped and woken, the request IDs are
given out without a gap and without a repetition: `Numbered` says that the next ID is told by how many
were given out. Each of them lies below the limit at that time, and this limit is the largest of all
limits so far.

That an ID is given out only below the limit does not say that it is given out at all. A request that is
made, or polled once it was woken, while the next ID lies below the limit has it at once
(`begin_of_lt`, `poll_of_lt`). Only the two largest words of 64 bits are never given out.
-/

namespace LiveMedia.Request

open LiveMedia.Wire LiveMedia.Message LiveMedia.Stream

namespace Channel

/-- A request is given the next number if that is below the limit. -/
theorem begin_of_lt {c : Channel} (hlimit : c.allocation.next.val < c.allocation.limit.val)
    (hword : c.allocation.next.val + 2 < RequestId.wordLimit) (name : String) :
    (c.begin name).1 = .ok c.allocation.next := by
  simp only [begin, request, Allocation.take?_of_lt hlimit hword]

/-- So is a request that was woken, when it is polled. -/
theorem poll_of_lt {c : Channel} (hlimit : c.allocation.next.val < c.allocation.limit.val)
    (hword : c.allocation.next.val + 2 < RequestId.wordLimit) {name : String}
    (hwoken : c.waiting.find? (fun w => w.1 == name) = some (name, true)) :
    (c.poll? name).map Prod.fst = some (.ok c.allocation.next) := by
  simp only [poll?, hwoken, Option.map_some, if_true]
  exact congrArg some (begin_of_lt (c := c.forget name) hlimit hword name)

end Channel

namespace ChannelHistory

-- ── the invariant ───────────────────────────────────────────────────

/-- The IDs that were given out, counted from `first`, and the limits that were granted. -/
structure Numbered (first : Nat) (limit : RequestId) (h : ChannelHistory) : Prop where
  next_eq : h.channel.allocation.next.val = first + 2 * h.allocated.length
  allocated_eq : h.allocated.map (fun a => a.1.val) =
    (List.range h.allocated.length).map fun k => first + 2 * k
  below : ∀ a ∈ h.allocated, a.1.val < a.2.val
  limit_mem : h.channel.allocation.limit ∈ limit :: h.granted
  limit_max : ∀ l ∈ limit :: h.granted, l.val ≤ h.channel.allocation.limit.val

/-- The first ID of a client is even, that of a server is odd. -/
def firstId (client : Bool) : Nat := if client then 0 else 1

theorem numbered_start (client : Bool) (limit : RequestId) :
    Numbered (firstId client) limit (start client limit) where
  next_eq := rfl
  allocated_eq := rfl
  below _ ha := absurd ha List.not_mem_nil
  limit_mem := List.mem_cons_self
  limit_max l hl := by
    obtain rfl := List.mem_singleton.mp hl
    exact Nat.le_refl _

section Steps

variable {first : Nat} {limit : RequestId} {h h' : ChannelHistory} {spoken : ControlMessage → Prop}

theorem Numbered.number (hn : Numbered first limit h) {c : Channel}
    (hnext : c.allocation.next.val = h.channel.allocation.next.val + 2)
    (hlimit : c.allocation.limit = h.channel.allocation.limit)
    (hlt : h.channel.allocation.next.val < h.channel.allocation.limit.val) :
    Numbered first limit { h with
      channel := c
      allocated := h.allocated ++ [(h.channel.allocation.next, h.channel.allocation.limit)] } where
  next_eq := by
    rw [List.length_append, List.length_singleton, hnext, hn.next_eq]
    omega
  allocated_eq := by
    rw [List.map_append, List.length_append, List.length_singleton, List.range_succ, List.map_append,
      hn.allocated_eq]
    simp only [List.map_cons, List.map_nil, hn.next_eq]
  below a ha := by
    rcases List.mem_append.mp ha with ha | ha
    · exact hn.below a ha
    · obtain rfl := List.mem_singleton.mp ha
      exact hlt
  limit_mem := hlimit ▸ hn.limit_mem
  limit_max l hl := hlimit ▸ hn.limit_max l hl

/-- A limit that is granted is in force if it is higher. -/
theorem Numbered.grant (hn : Numbered first limit h) {c : Channel} {l : RequestId}
    (hnext : c.allocation.next = h.channel.allocation.next)
    (hlimit : c.allocation.limit = l ∧ h.channel.allocation.limit.val ≤ l.val ∨
      c.allocation.limit = h.channel.allocation.limit ∧ l.val ≤ h.channel.allocation.limit.val) :
    Numbered first limit { h with channel := c, granted := h.granted ++ [l] } where
  next_eq := hnext ▸ hn.next_eq
  allocated_eq := hn.allocated_eq
  below := hn.below
  limit_mem := by
    show c.allocation.limit ∈ (limit :: h.granted) ++ [l]
    rw [List.mem_append, List.mem_singleton]
    rcases hlimit with ⟨hlimit, -⟩ | ⟨hlimit, -⟩
    · exact .inr hlimit
    · exact .inl (hlimit ▸ hn.limit_mem)
  limit_max l' hl' := by
    have hl' : l' ∈ (limit :: h.granted) ++ [l] := hl'
    rw [List.mem_append, List.mem_singleton] at hl'
    show l'.val ≤ c.allocation.limit.val
    rcases hlimit with ⟨rfl, hle⟩ | ⟨heq, hle⟩
    · rcases hl' with hl' | rfl
      · exact Nat.le_trans (hn.limit_max l' hl') hle
      · exact Nat.le_refl _
    · rw [heq]
      rcases hl' with hl' | rfl
      · exact hn.limit_max l' hl'
      · exact hle

/-- All else leaves the numbers alone. -/
theorem Numbered.congr (hn : Numbered first limit h) {c : Channel} {queued : List (Bytes × RequestId)}
    (hnext : c.allocation.next = h.channel.allocation.next)
    (hlimit : c.allocation.limit = h.channel.allocation.limit) :
    Numbered first limit { h with channel := c, queued } where
  next_eq := hnext ▸ hn.next_eq
  allocated_eq := hn.allocated_eq
  below := hn.below
  limit_mem := hlimit ▸ hn.limit_mem
  limit_max l hl := hlimit ▸ hn.limit_max l hl

theorem Numbered.leads (hn : Numbered first limit h) (hleads : h.Leads spoken h') :
    Numbered first limit h' := by
  cases hleads with
  | number _ hlt _ => exact hn.number rfl rfl hlt
  | waits _ _ _ => exact hn.congr rfl rfl
  | tells _ _ _ _ => exact hn.congr rfl rfl
  | refused _ _ => exact hn.congr rfl rfl
  | raises hlt => exact hn.grant rfl (.inl ⟨rfl, Nat.le_of_lt hlt⟩)
  | ignores hle => exact hn.grant rfl (.inr ⟨rfl, hle⟩)
  | sends _ _ => exact hn.congr rfl rfl
  | other hallocation _ _ =>
      exact hn.congr (congrArg Allocation.next hallocation) (congrArg Allocation.limit hallocation)

theorem Numbered.run (hn : Numbered first limit h) (ms : List ChannelMove) :
    Numbered first limit (h.run ms) := by
  induction ms generalizing h with
  | nil => exact hn
  | cons m ms ih => exact ih (hn.leads (h.after_leads m))

end Steps

/-- **Requests are numbered in steps of two.** Whatever calls were made on a channel and its copies, the
    IDs that were given out are, in order, the first ones of this end's parity. Each was below the limit
    at that time, and the limit is the largest that was granted, now and later. While there is a number
    below the limit, the request that is made next has the next number, and so has, as long as the queue is
    open, a waiting one that was woken. -/
theorem requests_are_numbered_in_steps (client : Bool) (limit : RequestId) (ms : List ChannelMove)
    (h : ChannelHistory) (hrun : h = (start client limit).run ms) :
    h.allocated.map (fun a => a.1.val) =
        (List.range h.allocated.length).map (fun k => firstId client + 2 * k) ∧
      h.channel.allocation.next.val = firstId client + 2 * h.allocated.length ∧
      (∀ a ∈ h.allocated, a.1.val < a.2.val) ∧
      h.channel.allocation.limit ∈ limit :: h.granted ∧
      (∀ l ∈ limit :: h.granted, l.val ≤ h.channel.allocation.limit.val) ∧
      (∀ more, h.channel.allocation.limit.val ≤ (h.run more).channel.allocation.limit.val) ∧
      (h.channel.allocation.next.val < h.channel.allocation.limit.val →
        h.channel.allocation.next.val + 2 < RequestId.wordLimit →
        (∀ name, (h.channel.begin name).1 = .ok h.channel.allocation.next) ∧
        ∀ name, h.channel.isOpen = true →
          h.channel.waiting.find? (fun w => w.1 == name) = some (name, true) →
          (h.channel.poll? name).map Prod.fst = some (.ok h.channel.allocation.next)) := by
  have hn : Numbered (firstId client) limit h := hrun ▸ (numbered_start client limit).run ms
  refine ⟨hn.allocated_eq, hn.next_eq, hn.below, hn.limit_mem, hn.limit_max, h.limit_le_run, ?_⟩
  intro hlimit hword
  exact ⟨Channel.begin_of_lt hlimit hword, fun name _ => Channel.poll_of_lt hlimit hword⟩

/-- Two requests wait, one is dropped, and a lower limit comes before a higher one. A new request is
    faster than the one that was woken, which has the number behind it. -/
theorem requests_are_numbered_in_steps_dropped :
    let h := (start true ⟨2⟩).run [.begin "a", .begin "b", .begin "c", .forget "b", .grant ⟨1⟩,
      .grant ⟨8⟩, .begin "d"]
    h.allocated = [(⟨0⟩, ⟨2⟩), (⟨2⟩, ⟨8⟩)] ∧ h.granted = [⟨1⟩, ⟨8⟩] ∧
      h.channel.allocation.next.val = firstId true + 2 * h.allocated.length ∧
      (h.channel.poll? "c").map Prod.fst = some (.ok ⟨4⟩) := by
  intro h
  obtain ⟨-, hnext, -, -, -, -, hanswered⟩ := requests_are_numbered_in_steps true ⟨2⟩ _ h rfl
  refine ⟨by decide +kernel, by decide +kernel, hnext, ?_⟩
  exact (hanswered (by decide +kernel) (by decide +kernel)).2 "c" (by decide +kernel) (by decide +kernel)

end ChannelHistory

end LiveMedia.Request
