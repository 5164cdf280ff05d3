import LiveMedia.Proofs.Playback.History

/-!
# All frames, group after group

`inOrder` is the media of a history as it should be played: the frames of each group in the order of
their reports, the groups in the order of their announcements. Two lists of frames that ascend by group
are compared group by group (`prefix_of_framesIn`, `eq_of_framesIn`), and `framesIn_inOrder` says what
`inOrder` has of each group.
-/

namespace LiveMedia.Playback

-- ── all frames, group after group ───────────────────────────────────

/-- All frames that were reported, group after group in the order of the announcements. -/
def inOrder (events : List Event) : List OrderedFrame :=
  (announced events).flatMap fun g => (framesOf g events).map (OrderedFrame.mk g)

/-- Frames ascend by group. -/
def ByGroup (frames : List OrderedFrame) : Prop := frames.Pairwise fun a b => a.group ≤ b.group

theorem framesIn_cons_self (x : OrderedFrame) (xs : List OrderedFrame) :
    framesIn x.group (x :: xs) = x.frame :: framesIn x.group xs := by
  simp [framesIn]

theorem framesIn_cons_of_ne {g : Nat} {x : OrderedFrame} (h : x.group ≠ g)
    (xs : List OrderedFrame) : framesIn g (x :: xs) = framesIn g xs := by
  simp [framesIn, h]

/-- Below its first group an ascending list has no frames. -/
theorem framesIn_below {g : Nat} {x : OrderedFrame} {xs : List OrderedFrame}
    (h : ByGroup (x :: xs)) (hg : g < x.group) : framesIn g (x :: xs) = [] := by
  refine List.eq_nil_iff_forall_not_mem.mpr fun f hf => ?_
  rcases List.mem_cons.mp (mem_framesIn.mp hf) with rfl | hmem
  · exact Nat.lt_irrefl _ hg
  · exact Nat.not_le_of_lt hg ((List.pairwise_cons.mp h).1 _ hmem)

theorem framesIn_cons_ne_nil {g : Nat} (x : OrderedFrame) {xs : List OrderedFrame}
    (h : framesIn g xs ≠ []) : framesIn g (x :: xs) ≠ [] := by
  by_cases hg : x.group = g
  · subst hg
    rw [framesIn_cons_self]
    exact List.cons_ne_nil _ _
  · rw [framesIn_cons_of_ne hg]
    exact h

theorem framesIn_cons_prefix_cons {g : Nat} {x : OrderedFrame} {xs ys : List OrderedFrame} :
    framesIn g (x :: xs) <+: framesIn g (x :: ys) ↔ framesIn g xs <+: framesIn g ys := by
  by_cases hg : x.group = g
  · subst hg
    rw [framesIn_cons_self, framesIn_cons_self, List.prefix_cons_inj]
  · rw [framesIn_cons_of_ne hg, framesIn_cons_of_ne hg]

theorem framesIn_cons_inj {g : Nat} {x : OrderedFrame} {xs ys : List OrderedFrame} :
    framesIn g (x :: xs) = framesIn g (x :: ys) ↔ framesIn g xs = framesIn g ys := by
  by_cases hg : x.group = g
  · subst hg
    rw [framesIn_cons_self, framesIn_cons_self, List.cons_inj_right]
  · rw [framesIn_cons_of_ne hg, framesIn_cons_of_ne hg]

/-- **Group by group.** An ascending list that has a prefix of each group of another one, and all of a
    group once it has something of a later group, is a prefix of it. -/
theorem prefix_of_framesIn {xs ys : List OrderedFrame} (hx : ByGroup xs) (hy : ByGroup ys)
    (hbegins : ∀ g, framesIn g xs <+: framesIn g ys)
    (hfull : ∀ g g', g < g' → framesIn g' xs ≠ [] → framesIn g xs = framesIn g ys) : xs <+: ys := by
  induction xs generalizing ys with
  | nil => exact List.nil_prefix
  | cons x xs ih =>
      have hxs : framesIn x.group (x :: xs) ≠ [] := by
        rw [framesIn_cons_self]
        exact List.cons_ne_nil _ _
      cases ys with
      | nil => exact absurd (List.prefix_nil.mp (hbegins x.group)) hxs
      | cons y ys =>
          -- the first group of both lists is the same
          have hgroup : y.group = x.group := by
            rcases Nat.lt_trichotomy y.group x.group with hlt | heq | hgt
            · have hsame := hfull _ _ hlt hxs
              rw [framesIn_below hx hlt, framesIn_cons_self] at hsame
              exact absurd hsame.symm (List.cons_ne_nil _ _)
            · exact heq
            · have hnil := hbegins x.group
              rw [framesIn_below hy hgt] at hnil
              exact absurd (List.prefix_nil.mp hnil) hxs
          have hhead := hbegins x.group
          rw [framesIn_cons_self, ← hgroup, framesIn_cons_self, List.cons_prefix_cons] at hhead
          obtain rfl : x = y := congr (congrArg OrderedFrame.mk hgroup.symm) hhead.1
          refine (List.prefix_cons_inj x).mpr (ih (List.pairwise_cons.mp hx).2 (List.pairwise_cons.mp hy).2
            (fun g => framesIn_cons_prefix_cons.mp (hbegins g)) fun g g' hlt hne => ?_)
          exact framesIn_cons_inj.mp (hfull g g' hlt (framesIn_cons_ne_nil x hne))

/-- Frames that are sorted by group are told by what they hold of each group. -/
theorem eq_of_framesIn {xs ys : List OrderedFrame} (hx : ByGroup xs) (hy : ByGroup ys)
    (h : ∀ g, framesIn g xs = framesIn g ys) : xs = ys := by
  have h1 : xs <+: ys := prefix_of_framesIn hx hy (fun g => h g ▸ List.prefix_rfl) fun g _ _ _ => h g
  have h2 : ys <+: xs :=
    prefix_of_framesIn hy hx (fun g => h g ▸ List.prefix_rfl) fun g _ _ _ => (h g).symm
  exact h1.eq_of_length_le h2.length_le

-- ── lists made group by group ───────────────────────────────────────

theorem framesIn_map_mk (g : Nat) (frames : List MediaFrame) :
    framesIn g (frames.map (OrderedFrame.mk g)) = frames := by
  induction frames with
  | nil => rfl
  | cons f rest ih =>
      rw [List.map_cons, framesIn_cons_self ⟨g, f⟩]
      exact congrArg (f :: ·) ih

theorem framesIn_map_mk_of_ne {g other : Nat} (h : other ≠ g) (frames : List MediaFrame) :
    framesIn g (frames.map (OrderedFrame.mk other)) = [] := by
  induction frames with
  | nil => rfl
  | cons f rest ih =>
      rw [List.map_cons, framesIn_cons_of_ne h]
      exact ih

section Groups

variable {ι : Type} {xs : List ι} {group : ι → Nat} (frames : ι → List MediaFrame)

/-- Frames that are given group by group, in ascending order of the groups, are sorted by group. -/
theorem byGroup_flatMap (h : xs.Pairwise fun a b => group a < group b) :
    ByGroup (xs.flatMap fun x => (frames x).map (OrderedFrame.mk (group x))) := by
  refine List.pairwise_flatMap.mpr ⟨?_, ?_⟩
  · intro x _
    exact List.pairwise_map.mpr (List.pairwise_of_forall fun _ _ => Nat.le_refl (group x))
  · refine h.imp fun {x y} hlt a ha b hb => ?_
    obtain ⟨_, _, rfl⟩ := List.mem_map.mp ha
    obtain ⟨_, _, rfl⟩ := List.mem_map.mp hb
    exact Nat.le_of_lt hlt

/-- A group that nothing was made for has no frames. -/
theorem framesIn_flatMap_of_ne {g : Nat} (hg : ∀ x ∈ xs, group x ≠ g) :
    framesIn g (xs.flatMap fun x => (frames x).map (OrderedFrame.mk (group x))) = [] := by
  induction xs with
  | nil => rfl
  | cons x xs ih =>
      obtain ⟨hx, hxs⟩ := List.forall_mem_cons.mp hg
      rw [List.flatMap_cons, framesIn_append, framesIn_map_mk_of_ne hx, List.nil_append]
      exact ih hxs

/-- A group has what was made for it. -/
theorem framesIn_flatMap (h : xs.Pairwise fun a b => group a < group b) {x : ι} (hx : x ∈ xs) :
    framesIn (group x) (xs.flatMap fun x => (frames x).map (OrderedFrame.mk (group x))) = frames x := by
  induction xs with
  | nil => exact absurd hx List.not_mem_nil
  | cons y ys ih =>
      obtain ⟨hlt, hys⟩ := List.pairwise_cons.mp h
      rw [List.flatMap_cons, framesIn_append]
      rcases List.mem_cons.mp hx with rfl | hmem
      · have hother : ∀ z ∈ ys, group z ≠ group x := fun z hz => Nat.ne_of_gt (hlt z hz)
        rw [framesIn_map_mk, framesIn_flatMap_of_ne frames hother, List.append_nil]
      · rw [framesIn_map_mk_of_ne (Nat.ne_of_lt (hlt x hmem)), ih hys hmem, List.nil_append]

end Groups

-- ── the order of a history ──────────────────────────────────────────

variable {events : List Event}

/-- The groups are announced in ascending order, so their frames one after the other are sorted. -/
theorem byGroup_inOrder (h : (announced events).Pairwise (· < ·)) : ByGroup (inOrder events) :=
  byGroup_flatMap (fun g => framesOf g events) h

/-- Of each group, `inOrder` has the frames that were reported. -/
theorem framesIn_inOrder (hr : Reported events) (h : (announced events).Pairwise (· < ·)) (g : Nat) :
    framesIn g (inOrder events) = framesOf g events := by
  by_cases hg : g ∈ announced events
  · exact framesIn_flatMap (fun g => framesOf g events) h hg
  · have hnone : framesOf g events = [] :=
      List.eq_nil_iff_forall_not_mem.mpr fun f hf => hg (hr.announced_of_frame (mem_framesIn.mp hf))
    rw [hnone]
    exact framesIn_flatMap_of_ne (fun g => framesOf g events) fun g' hg' heq => hg (heq ▸ hg')

end LiveMedia.Playback
