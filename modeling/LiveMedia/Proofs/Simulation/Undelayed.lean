import LiveMedia.Proofs.Live.Counting
import LiveMedia.Proofs.Live.Sharing
import LiveMedia.Proofs.Simulation.Forwarded

/-!
# A network without delay

In general a forwarder makes the groups behind the network in the order in which their deliveries get on. When
no group is delayed and the source gets its groups one by one, that is their order in the source. All that
there is of a group is put out and read at the instant at which it is published, and with its header at least
the group is made (`Delivery.Carries.begun`).

`Forwarding.InStep` says so of the time between two instants: the groups that were made bear the numbers from
zero on, and they are the first of those that were announced, all of them or all but one. What the forwarder
does at an instant keeps this and leaves the source alone, and then it is all of them (`InStep.forward`).
-/

namespace LiveMedia.Simulation

open LiveMedia.Wire LiveMedia.Time LiveMedia.Message LiveMedia.Live LiveMedia.Transfer

-- ── what is asked and what is polled ────────────────────────────────

/-- All that a forwarder does at an instant. -/
def Forwarder.forward (others : Holdings) (due : Nat → Span) (now : Span) (store : Store)
    (f : Forwarder) : Except TransportError (Forwarder × Store) := do
  let f ← f.accept store (others ++ f.holdings) due
  let (f, store) := f.deliverDue store others now
  f.dropDone.finish store

theorem Line.forward_eq (l : Line) (delay : Nat → Span) (now : Span) : l.forward delay now =
    ((l.forwarder.forward l.otherHoldings (fun n => now + delay n) now l.store).mapError .transport).map
      fun x => { l with store := x.2, forwarder := x.1 } := by
  have hheld : l.holdings = l.otherHoldings ++ l.forwarder.holdings := rfl
  simp only [Line.forward, Forwarder.forward, ← hheld]
  cases l.forwarder.accept l.store l.holdings fun n => now + delay n with
  | error e => rfl
  | ok f =>
      simp only [Except.mapError, bind, Except.bind]
      cases (f.deliverDue l.store l.otherHoldings now).1.dropDone.finish
        (f.deliverDue l.store l.otherHoldings now).2 <;> rfl

section Accept

variable {s : Store} {held : Holdings} {entries : List GroupEntry}

/-- **A forwarder finds the groups of a counting track in their order**, all that there are. -/
theorem Forwarder.acceptFrom_counts (due : Nat → Span) (limit : Nat) (f : Forwarder) {c : TrackCursor}
    {count : Nat} (hknows : c.Knows s count) (hcounts : (s.track c.track).Counts entries)
    (halive : ∀ err, (s.track c.track).ending ≠ some (.aborted err))
    (hwritten : (s.track c.track).ending = none → .trackWriter c.track ∈ held)
    (hcount : count ≤ entries.length) (hwindow : entries.length ≤ count + Track.window)
    (hlimit : entries.length < count + limit) :
    ∃ source, f.acceptFrom s held due limit c =
        .ok (f.taking due source ((entries.drop count).map GroupEntry.cursor)) ∧
      s.newGroups held limit c = (entries.drop count).map GroupEntry.cursor ∧
      ((s.track c.track).ending = none → ∃ c', source = some c' ∧ c'.Knows s entries.length) ∧
      ((s.track c.track).ending ≠ none → source = none) := by
  induction limit generalizing f c count with
  | zero => exact absurd hlimit (Nat.not_lt_of_le hcount)
  | succ limit ih =>
      rw [acceptFrom, Store.newGroups]
      rcases Nat.lt_or_eq_of_le hcount with hlt | rfl
      · have he : entries[count]? = some entries[count] := List.getElem?_eq_getElem hlt
        obtain ⟨c', hnext, htrack, hknows'⟩ := hknows.nextGroup_next hcounts halive he hwindow held
        rw [hnext, List.drop_eq_getElem_cons hlt]
        rw [← htrack] at hcounts halive hwritten
        obtain ⟨source, haccept, hgroups, hsource, hends⟩ := ih
          { f with deliveries := f.deliveries ++
              [.start (due entries[count].cursor.sequence) entries[count].cursor f.destination] }
          hknows' hcounts halive hwritten hlt (by omega) (by omega)
        refine ⟨source, haccept.trans ?_, congrArg (_ :: ·) hgroups, ?_, ?_⟩
        · simp only [taking, List.map_cons, List.append_assoc, List.singleton_append]
        · exact htrack ▸ hsource
        · exact htrack ▸ hends
      · have hcaught := hknows.caughtUp hcounts (Nat.le_refl _)
        rw [List.drop_length]
        cases hending : (s.track c.track).ending with
        | none =>
            rw [hcaught.nextGroup_open hending (hwritten hending)]
            exact ⟨some c, congrArg _ (taking_nil f due _).symm, rfl, fun _ => ⟨c, rfl, hknows⟩,
              fun h => absurd rfl h⟩
        | some ending =>
            cases ending with
            | aborted err => exact absurd hending (halive err)
            | complete =>
                have hlast : ∃ c', s.nextGroup held c = (.ok none, c') := hcaught.nextGroup_closed hending
                obtain ⟨c', hnext⟩ := hlast
                rw [hnext]
                exact ⟨none, congrArg _ (taking_nil f due _).symm, rfl, fun h => absurd h (Option.some_ne_none _),
                  fun _ => rfl⟩

end Accept

/-- A delivery works beside everybody else. -/
theorem Delivery.Alters.beside {destination : TrackWriter} {n : Nat} {made new : List GroupEntry}
    {s s' : Store} {others : List GroupId} (h : Delivery.Alters destination n made s s' new)
    (hparted : s.Parted (made.map GroupEntry.group) others) :
    Store.Beside others destination.track (made.map GroupEntry.group) s
      ((made ++ new).map GroupEntry.group) s' := by
  rw [List.map_append]
  cases h with
  | nothing =>
      rw [List.map_nil, List.append_nil]
      exact .refl hparted
  | makes _ hmade hserved =>
      have hfirst := Store.Beside.createGroup hparted hmade
      exact hfirst.trans (.served hfirst.parted (List.mem_append_right _ List.mem_cons_self) hserved)
  | fills he _ hserved =>
      rw [List.map_nil, List.append_nil]
      exact .served hparted (List.mem_map_of_mem he) hserved

/-- To close the end is to do something to a track. -/
theorem Forwarder.finish_beside {f f' : Forwarder} {s s' : Store} {own others : List GroupId}
    (hparted : s.Parted own others) (h : f.finish s = .ok (f', s')) :
    Store.Beside others f.destination.track own s own s' ∧ f'.source = f.source ∧
      f'.deliveries = f.deliveries := by
  unfold Forwarder.finish at h
  split at h
  · cases hclose : s.closeTrack f.destination with
    | error e =>
        rw [hclose] at h
        cases h
    | ok closed =>
        rw [hclose] at h
        obtain ⟨rfl, rfl⟩ := Prod.mk.inj (Except.ok.inj h)
        exact ⟨.closeTrack hparted hclose, rfl, rfl⟩
  · obtain ⟨rfl, rfl⟩ := Prod.mk.inj (Except.ok.inj h)
    exact ⟨.refl hparted, rfl, rfl⟩

namespace Forwarding

/-- No group is called doomed or assured. -/
abbrev Steady (f : Forwarding) : Prop := Sound (fun _ => False) (fun _ => False) f

/-- What polls of some deliveries leave behind, with room for all. -/
structure Swept (f : Forwarding) (places : List Nat) (f' : Forwarding) : Prop where
  steady : Steady f'
  beside : Store.Beside (f.announced.map GroupEntry.group) f.destination.track
    (f.made.map GroupEntry.group) f.store (f'.made.map GroupEntry.group) f'.store
  made : f.made <+: f'.made
  source : f'.source = f.source
  cursor : f'.forwarder.source = f.forwarder.source
  destination : f'.destination = f.destination
  announced : f'.announced = f.announced
  found : f'.found = f.found
  dues : f'.forwarder.dues = f.forwarder.dues
  /-- The deliveries that were not polled are as they were. -/
  others : ∀ place, place ∉ places → f'.forwarder.deliveries[place]? = f.forwarder.deliveries[place]?
  begun : ∀ place ∈ places, ∀ d, f'.forwarder.deliveries[place]? = some d → d.receiver ≠ some .opening
  done : (∀ g ∈ f.found, ¬ Unfinished f.store g.group) →
    ∀ place ∈ places, ∀ d, f'.forwarder.deliveries[place]? = some d → d.isDone = true

section Sweep

variable {f f' : Forwarding} {others : Holdings} {now : Span}

/-- What a delivery does leaves the groups of the source to whoever writes them. -/
theorem Attended.beside {made : List GroupId} (h : f.Attended others) (hsteady : Steady f)
    (hbeside : Store.Beside (f.announced.map GroupEntry.group) f.destination.track
      (f.made.map GroupEntry.group) f.store made f'.store)
    (hsource : f'.source = f.source) (hfound : f'.found = f.found) : f'.Attended others where
  track hopen := by
    rw [hsource] at hopen ⊢
    rw [hbeside.tracks f.source hsteady.apart] at hopen
    exact h.track hopen
  group g hg hopen := by
    rw [hfound] at hg
    obtain ⟨e, he, heq⟩ := List.mem_map.mp (hsteady.found.among hg)
    have hspares := hbeside.spares e.group (List.mem_map_of_mem he)
    have hgroup : e.group = g.group := congrArg GroupCursor.group heq
    rw [hgroup] at hspares
    rw [hspares.group] at hopen
    exact h.group g hg hopen

theorem Swept.length_eq {places : List Nat} (h : Swept f places f') :
    f'.forwarder.deliveries.length = f.forwarder.deliveries.length := by
  have hlength := congrArg List.length h.dues
  rwa [Forwarder.dues, Forwarder.dues, List.length_map, List.length_map] at hlength

/-- Nothing is polled at a place where no delivery is. -/
theorem Swept.skip {places : List Nat} {place : Nat} (h : Swept f places f')
    (hplace : f.forwarder.deliveries[place]? = none) : Swept f (place :: places) f' := by
  have hnone : f'.forwarder.deliveries[place]? = none := by
    rw [List.getElem?_eq_none_iff, h.length_eq]
    exact List.getElem?_eq_none_iff.mp hplace
  refine { h with others := ?_, begun := ?_, done := ?_ }
  · exact fun p hp => h.others p fun hmem => hp (List.mem_cons_of_mem _ hmem)
  · intro p hp d hd
    rcases List.mem_cons.mp hp with rfl | hp
    · cases hnone.symm.trans hd
    · exact h.begun p hp d hd
  · intro hfinished p hp d hd
    rcases List.mem_cons.mp hp with rfl | hp
    · cases hnone.symm.trans hd
    · exact h.done hfinished p hp d hd

theorem Sound.Delivered.dues_eq {place : Nat} {room : Option Nat} {d' : Delivery}
    (h : Delivered f place room d' f') : f'.forwarder.dues = f.forwarder.dues := by
  have hsame := h.due
  rw [← List.getElem?_map] at hsame
  obtain ⟨hlt, heq⟩ := List.getElem?_eq_some_iff.mp hsame
  rw [Forwarder.dues, h.deliveries, List.map_set, ← heq, List.set_getElem_self]
  rfl

theorem Sound.Delivered.beside {place : Nat} {room : Option Nat} {d' : Delivery}
    (h : Delivered f place room d' f')
    (hparted : f.store.Parted (f.made.map GroupEntry.group) (f.announced.map GroupEntry.group)) :
    Store.Beside (f.announced.map GroupEntry.group) f.destination.track (f.made.map GroupEntry.group)
      f.store (f'.made.map GroupEntry.group) f'.store := by
  obtain ⟨n, new, hmade, halters⟩ := h.alters
  exact hmade ▸ halters.beside hparted

/-- One delivery is polled, and then the others. -/
theorem Swept.cons {f₁ : Forwarding} {places : List Nat} {place : Nat} {d' : Delivery}
    (hplace : place < f.forwarder.deliveries.length) (hlater : f.Later f₁)
    (hdelivered : Sound.Delivered f place none d' f₁)
    (hparted : f.store.Parted (f.made.map GroupEntry.group) (f.announced.map GroupEntry.group))
    (h : Swept f₁ places f') : Swept f (place :: places) f' := by
  -- the delivery stays as it is now, unless it is polled once more
  have hself : ∀ {P : Delivery → Prop}, (∀ p ∈ places, ∀ d, f'.forwarder.deliveries[p]? = some d → P d) →
      P d' → ∀ p ∈ place :: places, ∀ d, f'.forwarder.deliveries[p]? = some d → P d := by
    intro P hrest hfirst p hp d hd
    by_cases hmem : p ∈ places
    · exact hrest p hmem d hd
    · obtain rfl := (List.mem_cons.mp hp).resolve_right hmem
      rw [h.others p hmem, hdelivered.deliveries, List.getElem?_set_self hplace] at hd
      exact Option.some.inj hd ▸ hfirst
  refine ⟨h.steady, ?_, ?_, ?_, ?_, ?_, ?_, ?_, ?_, ?_, ?_, ?_⟩
  · have hrest := h.beside
    rw [hdelivered.announced, hlater.destination] at hrest
    exact (hdelivered.beside hparted).trans hrest
  · obtain ⟨n, new, hmade, -⟩ := hdelivered.alters
    exact (hmade ▸ List.prefix_append _ _).trans h.made
  · exact h.source.trans hlater.source
  · exact h.cursor.trans hdelivered.source
  · exact h.destination.trans hlater.destination
  · exact h.announced.trans hdelivered.announced
  · exact h.found.trans hdelivered.found
  · exact h.dues.trans hdelivered.dues_eq
  · intro p hp
    have hne : place ≠ p := fun heq => hp (heq ▸ List.mem_cons_self)
    rw [h.others p fun hmem => hp (List.mem_cons_of_mem _ hmem), hdelivered.deliveries,
      List.getElem?_set_ne hne]
  · exact hself h.begun (hdelivered.begun rfl)
  · intro hfinished
    refine hself (h.done fun g hg => ?_) (hdelivered.done rfl hfinished)
    exact not_unfinished_later (hfinished g (hdelivered.found ▸ hg)) hlater.grows

/-- **Deliveries that are due are polled one after the other**, each with room for all. -/
theorem Steady.sweep (h : Steady f)
    (hparted : f.store.Parted (f.made.map GroupEntry.group) (f.announced.map GroupEntry.group))
    (hattended : f.Attended others) (hdue : ∀ due ∈ f.forwarder.dues, due ≤ now) (places : List Nat) :
    ∃ f', Swept f places f' ∧ places.foldl (fun (f, store) place =>
      if (f.deliveries[place]?.any fun d => d.due ≤ now) then f.deliver store others place
      else (f, store)) (f.forwarder, f.store) = (f'.forwarder, f'.store) := by
  induction places generalizing f with
  | nil =>
      refine ⟨f, ⟨h, .refl hparted, List.prefix_refl _, rfl, rfl, rfl, rfl, rfl, rfl, fun _ _ => rfl, ?_, ?_⟩,
        rfl⟩
      · exact fun place hplace => absurd hplace List.not_mem_nil
      · exact fun _ place hplace => absurd hplace List.not_mem_nil
  | cons place places ih =>
      rw [List.foldl_cons]
      cases hplace : f.forwarder.deliveries[place]? with
      | none =>
          obtain ⟨f', hswept, heq⟩ := ih h hparted hattended hdue
          refine ⟨f', hswept.skip hplace, ?_⟩
          simp only [hplace, Option.any_none, Bool.false_eq_true, if_false]
          exact heq
      | some d =>
          obtain ⟨f₁, d', hnext, hsteady, hlater, hdelivered⟩ := h.deliver none hattended hplace
          have hbeside := hdelivered.beside hparted
          have hstep : f.forwarder.deliver f.store others place = (f₁.forwarder, f₁.store) := by
            rw [← Forwarder.deliverWithin_none]
            have hparts := Except.ok.inj hnext
            exact Prod.ext (congrArg Forwarding.forwarder hparts) (congrArg Forwarding.store hparts)
          obtain ⟨f', hswept, heq⟩ := ih hsteady (hdelivered.announced.symm ▸ hbeside.parted)
            (hattended.beside h hbeside hlater.source hdelivered.found) (hdelivered.dues_eq.symm ▸ hdue)
          have hlt := (List.getElem?_eq_some_iff.mp hplace).1
          refine ⟨f', hswept.cons hlt hlater hdelivered hparted, ?_⟩
          have hready : (f.forwarder.deliveries[place]?.any fun d => d.due ≤ now) = true := by
            rw [hplace]
            exact decide_eq_true (hdue d.due (List.mem_map_of_mem (List.mem_of_getElem? hplace)))
          simp only [hready, if_true, hstep]
          exact heq

section

variable (h : Swept f (List.range f.forwarder.deliveries.length) f')
include h

/-- When all places are swept, every delivery was polled. -/
theorem Swept.polled {d : Delivery} (hd : d ∈ f'.forwarder.deliveries) :
    ∃ place ∈ List.range f.forwarder.deliveries.length, f'.forwarder.deliveries[place]? = some d := by
  obtain ⟨place, hplace⟩ := List.mem_iff_getElem?.mp hd
  refine ⟨place, List.mem_range.mpr ?_, hplace⟩
  exact h.length_eq ▸ (List.getElem?_eq_some_iff.mp hplace).1

theorem Swept.all_begun : ∀ d ∈ f'.forwarder.deliveries, d.receiver ≠ some .opening := by
  intro d hd
  obtain ⟨place, hmem, hplace⟩ := h.polled hd
  exact h.begun place hmem d hplace

theorem Swept.all_done (hfinished : ∀ g ∈ f.found, ¬ Unfinished f.store g.group) :
    ∀ d ∈ f'.forwarder.deliveries, d.isDone = true := by
  intro d hd
  obtain ⟨place, hmem, hplace⟩ := h.polled hd
  exact h.done hfinished place hmem d hplace

end

end Sweep

-- ── the order behind the network ────────────────────────────────────

/-- Numbers that begin with those below `m` and are those below `count` are in order, if at most one was
    added. -/
theorem eq_range_of_prefix {m count : Nat} {ns : List Nat} (hfront : List.range m <+: ns)
    (hnodup : ns.Nodup) (hmem : ∀ n, n ∈ ns ↔ n < count) (hcount : count ≤ m + 1) :
    ns = List.range count := by
  have hle : m ≤ count := by
    refine Nat.le_of_not_lt fun hlt => ?_
    exact Nat.lt_irrefl count ((hmem count).mp (hfront.subset (List.mem_range.mpr hlt)))
  have hperm : ns.Perm (List.range count) :=
    (List.perm_ext_iff_of_nodup hnodup List.nodup_range).mpr fun n => (hmem n).trans List.mem_range.symm
  obtain ⟨more, rfl⟩ := hfront
  rcases Nat.eq_or_lt_of_le hle with rfl | hlt
  · have hlength := hperm.length_eq
    rw [List.length_append] at hlength
    rw [List.length_eq_zero_iff.mp (Nat.add_eq_left.mp hlength), List.append_nil]
  · obtain rfl : count = m + 1 := Nat.le_antisymm hcount hlt
    rw [List.range_succ] at hperm ⊢
    rw [List.perm_singleton.mp ((List.perm_append_left_iff _).mp hperm)]

/-- The groups behind the network are the first of those that the source has announced, and the forwarder's
    cursor was given these. -/
structure InStep (f : Forwarding) (now : Span) : Prop where
  steady : Steady f
  counts : (f.store.track f.source).Counts f.announced
  made : f.made.map GroupEntry.sequence = List.range f.made.length
  length_le : f.made.length ≤ f.announced.length
  found : f.found = (f.announced.take f.made.length).map GroupEntry.cursor
  cursor : ∃ c, f.forwarder.source = some c ∧ c.Knows f.store f.made.length
  parted : f.store.Parted (f.made.map GroupEntry.group) (f.announced.map GroupEntry.group)
  dues : ∀ due ∈ f.forwarder.dues, due ≤ now

/-- What there is behind an instant at which a forwarder went on. -/
structure Goes (f : Forwarding) (now : Span) (f' : Forwarding) : Prop where
  steady : Steady f'
  made : f'.made.map GroupEntry.sequence = List.range f.announced.length
  prefix_made : f.made <+: f'.made
  beside : Store.Beside (f.announced.map GroupEntry.group) f.destination.track
    (f.made.map GroupEntry.group) f.store (f'.made.map GroupEntry.group) f'.store
  source : f'.source = f.source
  destination : f'.destination = f.destination
  announced : f'.announced = f.announced
  found : f'.found = f.announced.map GroupEntry.cursor
  /-- As long as the source is open this goes on. -/
  inStep : (f.store.track f.source).ending = none → InStep f' now
  /-- When the source and its groups have ended, so has the end of the network. -/
  closed : (f.store.track f.source).ending ≠ none →
    (∀ e ∈ f.announced, ¬ Unfinished f.store e.group) → f'.forwarder.closed = true

theorem Goes.length_made {f f' : Forwarding} {now : Span} (h : Goes f now f') :
    f'.made.length = f.announced.length := by
  have hlength := congrArg List.length h.made
  rwa [List.length_map, List.length_range] at hlength

section

variable {f : Forwarding} {others : Holdings} {due : Nat → Span} {now now' : Span}

/-- When all deliveries have begun, a group was made for each that was found. -/
theorem Steady.mem_made_iff (h : Steady f)
    (hbegun : ∀ d ∈ f.forwarder.deliveries, d.receiver ≠ some .opening) (n : Nat) :
    n ∈ f.made.map GroupEntry.sequence ↔ n ∈ f.found.map GroupCursor.sequence := by
  obtain ⟨flights, hdeliveries, haloft⟩ := h.aloft
  constructor
  · intro hn
    obtain ⟨e, he, rfl⟩ := List.mem_map.mp hn
    exact haloft.wanted e he
  · intro hn
    obtain ⟨g, hg, rfl⟩ := List.mem_map.mp hn
    rcases haloft.accounted g hg with hflight | ⟨e, he, hsequence, -⟩
    · obtain ⟨p, hp, rfl⟩ := List.mem_map.mp hflight
      exact (haloft.carries p hp).listed (hbegun p.2 (hdeliveries ▸ List.mem_map_of_mem hp))
    · exact hsequence ▸ List.mem_map_of_mem he

/-- What is left when a forwarder has looked for groups and found all that there are. -/
structure FoundAll (f : Forwarding) (due : Nat → Span) (f' : Forwarding) : Prop where
  steady : Steady f'
  store : f'.store = f.store
  source : f'.source = f.source
  destination : f'.destination = f.destination
  announced : f'.announced = f.announced
  made : f'.made = f.made
  found : f'.found = f.announced.map GroupEntry.cursor
  dues : f'.forwarder.dues = f.forwarder.dues ++
    (f.announced.drop f.made.length).map fun e => due e.sequence
  goesOn : (f.store.track f.source).ending = none →
    ∃ c, f'.forwarder.source = some c ∧ c.Knows f.store f.announced.length
  ended : (f.store.track f.source).ending ≠ none → f'.forwarder.source = none

theorem InStep.accept (h : InStep f now) (due : Nat → Span)
    (hnear : f.announced.length ≤ f.made.length + 1) (hattended : f.Attended others) :
    ∃ f', f.forwarder.accept f.store (others ++ f.forwarder.holdings) due = .ok f'.forwarder ∧
      FoundAll f due f' := by
  obtain ⟨c, hc, hknows⟩ := h.cursor
  have htrack : c.track = f.source := (h.steady.seeks c hc).track_eq
  have hwritten : (f.store.track c.track).ending = none →
      .trackWriter c.track ∈ others ++ f.forwarder.holdings := fun hopen =>
    List.mem_append_left _ (htrack ▸ hattended.track (htrack ▸ hopen))
  let limit := (f.store.track c.track).retained.length + 2
  obtain ⟨source, haccept, hgroups, hsource, hends⟩ := f.forwarder.acceptFrom_counts due limit
    hknows (htrack ▸ h.counts) (htrack ▸ h.steady.found.alive) hwritten h.length_le
    (by show _ ≤ _ + 32; omega) (by omega)
  obtain ⟨f', hnext, hsteady, -, -, -, -⟩ := h.steady.accept limit due hattended
  have hfound : f.found ++ (f.announced.drop f.made.length).map GroupEntry.cursor =
      f.announced.map GroupEntry.cursor := by
    rw [h.found, ← List.map_append, List.take_append_drop]
  simp only [next, Forwarder.acceptWithin, Forwarder.finds, hc, haccept, hgroups, hfound] at hnext
  obtain rfl := Except.ok.inj hnext
  refine ⟨_, ?_, hsteady, rfl, rfl, rfl, rfl, rfl, rfl, ?_, fun hopen => hsource (htrack ▸ hopen),
    fun hended => hends (htrack ▸ hended)⟩
  · simp only [Forwarder.accept, hc]
    exact haccept
  · show (f.forwarder.deliveries ++ _).map Delivery.due = _
    rw [List.map_append, List.map_map, List.map_map]
    rfl

/-- What is left when a forwarder has let go of what is done and has closed the end if nothing was left. -/
structure Closes (f : Forwarding) (f' : Forwarding) : Prop where
  steady : Steady f'
  beside : Store.Beside (f.announced.map GroupEntry.group) f.destination.track
    (f.made.map GroupEntry.group) f.store (f.made.map GroupEntry.group) f'.store
  source : f'.source = f.source
  destination : f'.destination = f.destination
  announced : f'.announced = f.announced
  made : f'.made = f.made
  found : f'.found = f.found
  cursor : f'.forwarder.source = f.forwarder.source
  dues : f'.forwarder.dues ⊆ f.forwarder.dues
  closed : f.forwarder.source = none → (∀ d ∈ f.forwarder.deliveries, d.isDone = true) →
    f'.forwarder.closed = true

theorem Steady.close (h : Steady f)
    (hparted : f.store.Parted (f.made.map GroupEntry.group) (f.announced.map GroupEntry.group)) :
    ∃ f', f.forwarder.dropDone.finish f.store = .ok (f'.forwarder, f'.store) ∧ Closes f f' := by
  obtain ⟨f₁, hdrop, hsteady, -, -⟩ := Sound.dropDone h
  obtain rfl := Except.ok.inj hdrop
  obtain ⟨f', hnext, hsteady, hlater, hclosed⟩ := Sound.finish hsteady
  cases hfinish : f.forwarder.dropDone.finish f.store with
  | error e =>
      simp only [next, hfinish] at hnext
      cases hnext
  | ok x =>
      simp only [next, hfinish] at hnext
      obtain rfl := Except.ok.inj hnext
      obtain ⟨hbeside, hsource, hdeliveries⟩ := Forwarder.finish_beside hparted hfinish
      refine ⟨_, rfl, hsteady, hbeside, rfl, hlater.destination, rfl, rfl, rfl, hsource, ?_,
        fun hnone hdone => ?_⟩
      · show x.1.deliveries.map Delivery.due ⊆ _
        rw [hdeliveries]
        exact List.map_subset _ (List.filter_subset_self _)
      · refine hclosed hnone (List.filter_eq_nil_iff.mpr fun d hd => ?_)
        rw [hdone d hd]
        exact Bool.false_ne_true

/-- Whoever writes the source and the groups that it announced attends to what was found of them. -/
theorem attended_of_announced {f' : Forwarding} (hstore : f'.store = f.store)
    (hsource : f'.source = f.source) (hfound : f'.found ⊆ f.announced.map GroupEntry.cursor)
    (htrack : (f.store.track f.source).ending = none → .trackWriter f.source ∈ others)
    (hgroup : ∀ e ∈ f.announced, (f.store.group e.group).ending = none → .groupWriter e.group ∈ others) :
    f'.Attended others where
  track hopen := by
    rw [hstore, hsource] at hopen
    exact hsource ▸ htrack hopen
  group g hg hopen := by
    obtain ⟨e, he, rfl⟩ := List.mem_map.mp (hfound hg)
    exact hgroup e he (hstore ▸ hopen)

/-- **Behind an undelayed network the groups come in order**, each at the instant at which it is announced. -/
theorem InStep.forward (h : InStep f now) (hnow : now ≤ now')
    (hnear : f.announced.length ≤ f.made.length + 1)
    (htrack : (f.store.track f.source).ending = none → .trackWriter f.source ∈ others)
    (hgroup : ∀ e ∈ f.announced, (f.store.group e.group).ending = none → .groupWriter e.group ∈ others)
    (hdue : ∀ n < f.announced.length, due n ≤ now') :
    ∃ f', f.forwarder.forward others due now' f.store = .ok (f'.forwarder, f'.store) ∧
      Goes f now' f' := by
  obtain ⟨f₁, haccept, hall⟩ := h.accept due hnear
    (attended_of_announced rfl rfl (h.found ▸ List.map_subset _ (List.take_subset _ _)) htrack hgroup)
  have hattended : f₁.Attended others :=
    attended_of_announced hall.store hall.source (hall.found ▸ List.Subset.refl _) htrack hgroup
  have hdues : ∀ due ∈ f₁.forwarder.dues, due ≤ now' := by
    intro d hd
    rw [hall.dues] at hd
    rcases List.mem_append.mp hd with hd | hd
    · exact Nat.le_trans (h.dues d hd) hnow
    · obtain ⟨e, he, rfl⟩ := List.mem_map.mp hd
      exact hdue _ (h.counts.sequence_lt (List.mem_of_mem_drop he))
  obtain ⟨f₂, hswept, hsweep⟩ := hall.steady.sweep
    (hall.store ▸ hall.made ▸ hall.announced ▸ h.parted) hattended hdues
    (List.range f₁.forwarder.deliveries.length)
  have hannounced := hswept.announced.trans hall.announced
  have hfound := hswept.found.trans hall.found
  have hbeside := hswept.beside
  rw [hall.store, hall.announced, hall.made, hall.destination] at hbeside
  obtain ⟨f₃, hfinish, hcloses⟩ := hswept.steady.close (hannounced ▸ hbeside.parted)
  have hlast := hcloses.beside
  rw [hannounced, hswept.destination, hall.destination] at hlast
  have hmade : f₂.made.map GroupEntry.sequence = List.range f.announced.length := by
    refine eq_range_of_prefix (h.made ▸ (hall.made ▸ hswept.made).map GroupEntry.sequence)
      hswept.steady.behind.once (fun n => ?_) hnear
    rw [hswept.steady.mem_made_iff hswept.all_begun, hfound, List.map_map, ← List.mem_range,
      ← h.counts.sequences]
    rfl
  have hlength : f₂.made.length = f.announced.length := by
    have hlength := congrArg List.length hmade
    rwa [List.length_map, List.length_range] at hlength
  have hsource := hcloses.source.trans (hswept.source.trans hall.source)
  have hwhole := hbeside.trans hlast
  have hsame : f₃.store.track f.source = f.store.track f.source := hwhole.tracks _ h.steady.apart
  refine ⟨f₃, ?_, hcloses.steady, ?_, ?_, ?_, hsource, ?_, ?_, hcloses.found.trans hfound,
    fun hopen => ?_, fun hended hover => ?_⟩
  · simp only [Forwarder.forward, haccept, bind, Except.bind, Forwarder.deliverDue]
    rw [← hall.store, hsweep]
    exact hfinish
  · rw [hcloses.made]
    exact hmade
  · rw [hcloses.made, ← hall.made]
    exact hswept.made
  · rw [hcloses.made]
    exact hwhole
  · exact hcloses.destination.trans (hswept.destination.trans hall.destination)
  · exact hcloses.announced.trans hannounced
  · obtain ⟨c, hc, hknows⟩ := hall.goesOn hopen
    have htracks : c.track = f.source := (hall.steady.seeks c hc).track_eq.trans hall.source
    refine ⟨hcloses.steady, ?_, ?_, ?_, ?_, ⟨c, ?_, ?_⟩, ?_, fun due hd => ?_⟩
    · rw [hsource, hcloses.announced, hannounced]
      exact h.counts.same (congrArg Track.retained hsame)
    · rw [hcloses.made, hlength]
      exact hmade
    · rw [hcloses.made, hcloses.announced, hannounced]
      exact Nat.le_of_eq hlength
    · rw [hcloses.found, hfound, hcloses.made, hlength, hcloses.announced, hannounced, List.take_length]
    · exact hcloses.cursor.trans (hswept.cursor.trans hc)
    · rw [hcloses.made, hlength]
      exact hknows.same (htracks ▸ hsame)
    · rw [hcloses.made, hcloses.announced, hannounced]
      exact hwhole.parted
    · exact hdues due (hswept.dues ▸ hcloses.dues hd)
  · refine hcloses.closed (hswept.cursor.trans (hall.ended hended)) (hswept.all_done fun g hg => ?_)
    rw [hall.found] at hg
    obtain ⟨e, he, rfl⟩ := List.mem_map.mp hg
    exact hall.store ▸ hover e he

end

end Forwarding

end LiveMedia.Simulation
