import LiveMedia.Proofs.Simulation.Forwarding
import LiveMedia.Simulation.Line

/-!
# Every group is forwarded once

However the moves of a forwarding come, and however much room there is in the pipes, the forwarder does not
fail, and when the track behind the network has ended, the groups on it are those that the forwarder was
given, each of them once and each of them ended (`forwards_every_group_once`). How a group ends is settled
by the first moment at which it is either wholly sent and whole, or aborted and not wholly sent: in the
first case it arrives as it was at that moment, and in the second it is aborted. The invariant of a
forwarding has these two fates as parameters, and they may be chosen anew at every moment (`Sound.renew`);
the run from there on carries the choice to its end.

A forwarding cannot get stuck either. Wherever a run has come to, if the source was closed and all its groups
have ended, one more look at the source and one poll of each delivery close the track (`Sound.drains`).
-/

namespace LiveMedia.Transfer

open LiveMedia.Wire LiveMedia.Live

-- ── groups that have ended ──────────────────────────────────────────

instance (s : Store) (g : GroupId) : Decidable (Unfinished s g) :=
  inferInstanceAs (Decidable (_ ∨ _))

section

variable {s s' : Store} {g : GroupId}

/-- The frames of a group that has ended stay the same, and so does a frame that has ended. -/
theorem not_unfinished_later (h : ¬ Unfinished s g) (hgrows : s.Grows s') : ¬ Unfinished s' g := by
  obtain ⟨hgroup, hframes⟩ := not_or.mp h
  have hsame := (hgrows.group g).frozen hgroup
  refine not_or.mpr ⟨(hgrows.group g).ended hgroup, ?_⟩
  rintro ⟨w, hw, hopen⟩
  rw [hsame] at hw
  exact (hgrows.frame w.frame).ended (fun hnone => hframes ⟨w, hw, hnone⟩) hopen

/-- What is sent of a whole group is what it held, even if it was aborted since. -/
theorem Transmission.WholeGroup.map_sentPayload_later (h : Transmission.WholeGroup s g)
    (hgrows : s.Grows s') :
    (s'.group g).frames.map (sentPayload s') = s.payloads (s.group g).frames := by
  have hended : ∀ {e : Option Ending}, e = some .complete → e ≠ none := by
    rintro _ rfl
    exact Option.some_ne_none _
  rw [(hgrows.group g).frozen (hended h.closed), ← Transmission.map_sentPayload h.whole]
  refine List.map_congr_left fun w hw => ?_
  have hchunks := (hgrows.frame w.frame).frozen (hended (h.whole w hw).closed)
  rw [sentPayload, sentPayload, Frame.payload, Frame.payload, hchunks]

end

end LiveMedia.Transfer

namespace LiveMedia.Simulation

open LiveMedia.Wire LiveMedia.Time LiveMedia.Message LiveMedia.Live LiveMedia.Transfer

-- ── choosing a fate ─────────────────────────────────────────────────

/-- While a group is in front of its end it may be called doomed if it was aborted. When it is whole, and is
    not in front of its end any more, it may be called assured. -/
theorem Aloft.renew {doomed assured doomed' assured' : GroupCursor → Prop} {s : Store} {priority : UInt8}
    {made : List GroupEntry} {found : List GroupCursor} {flights : List Flight}
    (h : Aloft doomed assured s priority made found flights)
    (honce : (found.map GroupCursor.sequence).Nodup)
    (haborted : ∀ g, doomed' g → ∃ e, (s.group g.group).ending = some (.aborted e))
    (hdoomed : ∀ g ∈ found, doomed' g → ∃ p ∈ flights, p.1.sequence = g.sequence ∧
      ∃ st, p.2.sender = some st ∧ st.phase ≠ .finish)
    (hassured : ∀ g, assured' g → g ∈ found ∧ Transmission.WholeGroup s g.group ∧
      ∀ p ∈ flights, p.1.sequence = g.sequence → ∀ st, p.2.sender = some st → st.phase = .finish) :
    Aloft doomed' assured' s priority made found flights where
  carries p hp := by
    refine (h.carries p hp).renew (fun hd => ?_) fun ha => ?_
    · obtain ⟨q, hq, heq, hst⟩ := hdoomed p.1 (h.among (List.mem_map_of_mem hp)) hd
      exact List.inj_on_of_nodup_map h.apart hq hp heq ▸ hst
    · obtain ⟨-, hwhole, hlast⟩ := hassured p.1 ha
      exact ⟨hwhole, hlast p hp rfl⟩
  among := h.among
  apart := h.apart
  accounted g hg := by
    by_cases hflight : g ∈ flights.map Prod.fst
    · exact .inl hflight
    · refine .inr (((h.accounted g hg).resolve_left hflight).renew (fun hd => ?_) fun ha => ?_)
      · obtain ⟨p, hp, heq, -⟩ := hdoomed g hg hd
        have hmem := List.mem_map_of_mem (f := Prod.fst) hp
        exact hflight (List.inj_on_of_nodup_map honce (h.among hmem) hg heq ▸ hmem)
      · exact (hassured g ha).2.1
  wanted := h.wanted
  aborted := haborted
  known g hg := (hassured g hg).1

namespace Forwarding

/-- The group was wholly sent: the forwarder has found it, and no sender of it is in front of the end of the
    group. -/
def Sent (f : Forwarding) (g : GroupCursor) : Prop :=
  g ∈ f.found ∧ ∀ d ∈ f.forwarder.deliveries, ∀ st, d.sender = some st →
    st.header.groupId = g.sequence → st.phase = .finish

instance (f : Forwarding) (g : GroupCursor) : Decidable (f.Sent g) :=
  inferInstanceAs (Decidable (_ ∧ ∀ d ∈ f.forwarder.deliveries, ∀ st ∈ d.sender,
    st.header.groupId = g.sequence → st.phase = .finish))

theorem Sound.renew {doomed assured doomed' assured' : GroupCursor → Prop} {f : Forwarding}
    (h : Sound doomed assured f)
    (hdoomed : ∀ g, doomed' g →
      (∃ e, (f.store.group g.group).ending = some (.aborted e)) ∧ ¬ f.Sent g)
    (hassured : ∀ g, assured' g → f.Sent g ∧ Transmission.WholeGroup f.store g.group) :
    Sound doomed' assured' f := by
  obtain ⟨flights, hdeliveries, haloft⟩ := h.aloft
  have hheader : ∀ p ∈ flights, ∀ st, p.2.sender = some st → st.header.groupId = p.1.sequence := by
    intro p hp st hst
    rw [(haloft.carries p hp).header_eq hst]
    rfl
  refine ⟨h.behind, h.apart, h.found, h.bounded, h.seeks, ⟨flights, hdeliveries, ?_⟩, h.idle⟩
  refine haloft.renew h.found.once (fun g hg => (hdoomed g hg).1) (fun g hg hd => ?_) fun g ha => ?_
  · -- not all is sent, so there is a sender in front of the end
    obtain ⟨d, hd', hrest⟩ := not_forall₂.mp fun hall => (hdoomed g hd).2 ⟨hg, hall⟩
    obtain ⟨st, hrest⟩ := not_forall.mp hrest
    obtain ⟨hst, hrest⟩ := not_forall.mp hrest
    obtain ⟨hsequence, hphase⟩ := not_forall.mp hrest
    rw [hdeliveries] at hd'
    obtain ⟨p, hp, rfl⟩ := List.mem_map.mp hd'
    exact ⟨p, hp, (hheader p hp st hst).symm.trans hsequence, st, hst, hphase⟩
  · obtain ⟨⟨hg, hall⟩, hwhole⟩ := hassured g ha
    refine ⟨hg, hwhole, fun p hp heq st hst => hall p.2 ?_ st hst ((hheader p hp st hst).trans heq)⟩
    rw [hdeliveries]
    exact List.mem_map_of_mem hp

-- ── runs ────────────────────────────────────────────────────────────

theorem run_append (f : Forwarding) (ms more : List Move) :
    f.run (ms ++ more) = f.run ms >>= fun f => f.run more := by
  induction ms generalizing f with
  | nil => rfl
  | cons m ms ih =>
      show (f.next m >>= fun f => f.run (ms ++ more)) = (f.next m >>= fun f => f.run ms) >>= _
      cases f.next m with
      | error e => rfl
      | ok f' => exact ih f'

theorem orderly_append {f : Forwarding} {ms more : List Move} :
    f.Orderly (ms ++ more) ↔ f.Orderly ms ∧ ∀ f', f.run ms = .ok f' → f'.Orderly more := by
  induction ms generalizing f with
  | nil =>
      refine ⟨fun h => ⟨trivial, ?_⟩, fun h => h.2 f rfl⟩
      rintro _ ⟨⟩
      exact h
  | cons m ms ih =>
      constructor
      · rintro ⟨hallows, hrest⟩
        refine ⟨⟨hallows, fun f' hnext => (ih.mp (hrest f' hnext)).1⟩, fun last hlast => ?_⟩
        cases hnext : f.next m with
        | error e =>
            rw [run, hnext] at hlast
            cases hlast
        | ok f' => exact (ih.mp (hrest f' hnext)).2 last ((run_cons hnext ms).symm.trans hlast)
      · rintro ⟨⟨hallows, hrest⟩, hmore⟩
        refine ⟨hallows, fun f' hnext => ih.mpr ⟨hrest f' hnext, fun last hlast => ?_⟩⟩
        exact hmore last ((run_cons hnext ms).trans hlast)

-- ── the forwarder of a line ─────────────────────────────────────────

/-- Deliveries that go on because they are due go on in moves. -/
theorem run_deliverDue (f : Forwarding) (others : Holdings) (now : Span) :
    ∃ ms f', f.run ms = .ok f' ∧
      f.forwarder.deliverDue f.store others now = (f'.forwarder, f'.store) := by
  unfold Forwarder.deliverDue
  generalize List.range f.forwarder.deliveries.length = places
  induction places generalizing f with
  | nil => exact ⟨[], f, rfl, rfl⟩
  | cons place places ih =>
      rw [List.foldl_cons]
      dsimp only
      split
      · obtain ⟨ms, f', hrun, heq⟩ := ih { f with
          store := (f.forwarder.deliver f.store others place).2
          forwarder := (f.forwarder.deliver f.store others place).1
          made := f.made ++ (f.store.track f.destination.track).announces
            ((f.forwarder.deliver f.store others place).2.track f.destination.track) }
        refine ⟨.deliver place others none :: ms, f', ?_, heq⟩
        rw [← Forwarder.deliverWithin_none] at hrun
        exact hrun
      · exact ih f

/-- **What a line does in its network at an instant is a run of moves.** -/
theorem forward_eq_run (l : Line) (delay : Nat → Span) (now : Span) {f : Forwarding}
    (hstore : f.store = l.store) (hforwarder : f.forwarder = l.forwarder) :
    ∃ ms, l.forward delay now = ((f.run ms).mapError .transport).map fun f =>
      { l with store := f.store, forwarder := f.forwarder } := by
  obtain ⟨store, source, forwarder, announced, found, made⟩ := f
  obtain rfl : store = l.store := hstore
  obtain rfl : forwarder = l.forwarder := hforwarder
  unfold Line.forward
  rw [← l.forwarder.acceptWithin_patience]
  generalize l.forwarder.patience l.store = limit
  cases haccepted : l.forwarder.acceptWithin limit l.store l.holdings fun n => now + delay n with
  | error e =>
      refine ⟨[.accept limit l.otherHoldings fun n => now + delay n], ?_⟩
      have haccepted : l.forwarder.acceptWithin limit l.store (l.otherHoldings ++ l.forwarder.holdings)
        (fun n => now + delay n) = .error e := haccepted
      simp only [run, next, haccepted]
      rfl
  | ok accepting =>
      have hnext : (⟨l.store, source, l.forwarder, announced, found, made⟩ : Forwarding).next
          (.accept limit l.otherHoldings fun n => now + delay n) = .ok ⟨l.store, source, accepting,
            announced, found ++ l.forwarder.finds limit l.store l.holdings, made⟩ := by
        have haccepted : l.forwarder.acceptWithin limit l.store
          (l.otherHoldings ++ l.forwarder.holdings) (fun n => now + delay n) = .ok accepting := haccepted
        simp only [next, haccepted]
        rfl
      obtain ⟨ms, f', hrun, hdue⟩ := run_deliverDue ⟨l.store, source, accepting, announced,
        found ++ l.forwarder.finds limit l.store l.holdings, made⟩ l.otherHoldings now
      have hdue : accepting.deliverDue l.store l.otherHoldings now = (f'.forwarder, f'.store) := hdue
      have hdrop : f'.next .dropDone = .ok { f' with forwarder := f'.forwarder.dropDone } := rfl
      have hlast : f'.run [.dropDone, .finish] = (f'.forwarder.dropDone.finish f'.store).map fun x =>
          { f' with store := x.2, forwarder := x.1 } := by
        rw [run_cons hdrop, run, next]
        dsimp only
        cases f'.forwarder.dropDone.finish f'.store with
        | error e => rfl
        | ok x => rfl
      refine ⟨.accept limit l.otherHoldings (fun n => now + delay n) :: (ms ++ [.dropDone, .finish]), ?_⟩
      rw [run_cons hnext, run_append, hrun]
      show _ = ((f'.run [.dropDone, .finish]).mapError _).map _
      rw [hlast]
      simp only [Except.mapError, bind, Except.bind, hdue]
      cases f'.forwarder.dropDone.finish f'.store with
      | error e => rfl
      | ok x => rfl

-- ── the beginning ───────────────────────────────────────────────────

/-- A source that was not aborted, whose groups bear different numbers that can be written, and a fresh
    track behind the network. -/
structure Ready (s : Store) (cursor : TrackCursor) (destination : TrackWriter) : Prop where
  fresh : s.track destination.track = .fresh
  track_lt : destination.track < s.tracks.size
  apart : cursor.track ≠ destination.track
  alive : ∀ e, (s.track cursor.track).ending ≠ some (.aborted e)
  distinct : ((s.track cursor.track).retained.map GroupEntry.sequence).Nodup
  bounded : ∀ e ∈ (s.track cursor.track).retained, e.sequence ≤ Varint.compactMaximum
  /-- Only frames that were made are in groups. -/
  listed : ∀ h, ∀ w ∈ (s.group h).frames, w.frame < s.frames.size

theorem Sound.start {s : Store} {cursor : TrackCursor} {destination : TrackWriter}
    (h : Ready s cursor destination) :
    Sound (fun _ => False) (fun _ => False) (start s cursor destination) := by
  refine ⟨⟨h.track_lt, ⟨h.listed, ?_, ?_⟩, .nil, .nil, ?_, ?_⟩, h.apart,
    ⟨h.alive, h.distinct, List.Subset.refl _, List.nil_subset _, .nil⟩, h.bounded, ?_, ⟨[], rfl, ?_⟩, ?_⟩
  · exact fun g hg => absurd hg List.not_mem_nil
  · exact fun g hg => absurd hg List.not_mem_nil
  · show (s.track destination.track).retained = _
    rw [h.fresh]
    rfl
  · show (s.track destination.track).ending = none
    rw [h.fresh]
    rfl
  · rintro _ ⟨⟩
    exact ⟨rfl, fun e _ hn => absurd hn List.not_mem_nil⟩
  · exact ⟨fun p hp => absurd hp List.not_mem_nil, List.nil_subset _, .nil,
      fun g hg => absurd hg List.not_mem_nil, fun e he => absurd he List.not_mem_nil,
      fun g hg => hg.elim, fun g hg => hg.elim⟩
  · intro hclosed
    cases hclosed

-- ── the end ─────────────────────────────────────────────────────────

/-- What is behind the network when its track has ended: for each group that was given a group of its
    number and no other groups, and all of them have ended. -/
theorem Sound.arrived {doomed assured : GroupCursor → Prop} {f : Forwarding} (h : Sound doomed assured f)
    (hended : (f.store.track f.destination.track).ending ≠ none) :
    (f.made.map GroupEntry.sequence).Perm (f.found.map GroupCursor.sequence) ∧
      ∀ g ∈ f.found, ∀ e ∈ f.made, e.sequence = g.sequence →
        Delivery.Verdict (doomed g) (assured g) f.store g.group e.group := by
  obtain ⟨flights, hdeliveries, haloft⟩ := h.aloft
  have hclosed : f.forwarder.closed = true := by
    refine Bool.eq_true_of_not_eq_false fun hopen => hended ?_
    rw [h.behind.ending, hopen]
    rfl
  obtain rfl : flights = [] := List.map_eq_nil_iff.mp (hdeliveries.symm.trans (h.idle hclosed).2)
  have harrived := fun g hg => (haloft.accounted g hg).resolve_left List.not_mem_nil
  constructor
  · refine (List.perm_ext_iff_of_nodup h.behind.once h.found.once).mpr fun n =>
      ⟨fun hn => ?_, fun hn => ?_⟩
    · obtain ⟨e, he, rfl⟩ := List.mem_map.mp hn
      exact haloft.wanted e he
    · obtain ⟨g, hg, rfl⟩ := List.mem_map.mp hn
      obtain ⟨e, he, heq, -⟩ := harrived g hg
      exact List.mem_map.mpr ⟨e, he, heq⟩
  · intro g hg e he heq
    obtain ⟨e', he', heq', hverdict⟩ := harrived g hg
    exact List.inj_on_of_nodup_map h.behind.once he he' (heq.trans heq'.symm) ▸ hverdict

/-- A fate that is chosen at some moment of a run comes true. -/
theorem Sound.fate {first mid last : Forwarding} {before after : List Move}
    (doomed assured : GroupCursor → Prop) (h : Sound (fun _ => False) (fun _ => False) first)
    (horderly : first.Orderly (before ++ after)) (hmid : first.run before = .ok mid)
    (hlast : first.run (before ++ after) = .ok last)
    (hended : (last.store.track last.destination.track).ending ≠ none)
    (hdoomed : ∀ g, doomed g →
      (∃ e, (mid.store.group g.group).ending = some (.aborted e)) ∧ ¬ mid.Sent g)
    (hassured : ∀ g, assured g → mid.Sent g ∧ Transmission.WholeGroup mid.store g.group) :
    mid.Later last ∧ ∀ g ∈ last.found, ∀ e ∈ last.made, e.sequence = g.sequence →
      Delivery.Verdict (doomed g) (assured g) last.store g.group e.group := by
  obtain ⟨hfirst, hrest⟩ := orderly_append.mp horderly
  obtain ⟨_, hmid', hsound, -⟩ := h.run hfirst
  obtain rfl := Except.ok.inj (hmid'.symm.trans hmid)
  obtain ⟨_, hlast', hsound', hlater⟩ := (hsound.renew hdoomed hassured).run (hrest _ hmid)
  rw [run_append, hmid] at hlast
  obtain rfl := Except.ok.inj (hlast'.symm.trans hlast)
  exact ⟨hlater, (hsound'.arrived hended).2⟩

-- ── a forwarding comes to its end ───────────────────────────────────

/-- Polls so many deliveries one after the other, from this place on, with room for all. -/
def sweep (place count : Nat) : List Move :=
  (List.range' place count).map fun i => .deliver i [] none

/-- Nobody has to be there for a track and groups that have ended. -/
theorem attended_of_ended {f : Forwarding} (others : Holdings)
    (hended : (f.store.track f.source).ending ≠ none)
    (hfinished : ∀ g ∈ f.found, ¬ Unfinished f.store g.group) : f.Attended others :=
  ⟨fun hopen => absurd hopen hended, fun g hg hopen => absurd (.inl hopen) (hfinished g hg)⟩

section Drain

variable {doomed assured : GroupCursor → Prop} {f : Forwarding}

/-- A sweep over groups that have ended gets all of them done. -/
theorem Sound.sweeps (h : Sound doomed assured f) (hended : (f.store.track f.source).ending ≠ none)
    (hfinished : ∀ g ∈ f.found, ¬ Unfinished f.store g.group) (place count : Nat)
    (hlength : f.forwarder.deliveries.length ≤ place + count)
    (hdone : ∀ j < place, ∀ d, f.forwarder.deliveries[j]? = some d → d.isDone = true) :
    f.Orderly (sweep place count) ∧ ∃ f', f.run (sweep place count) = .ok f' ∧
      Sound doomed assured f' ∧ f'.forwarder.source = f.forwarder.source ∧
      ∀ d ∈ f'.forwarder.deliveries, d.isDone = true := by
  induction count generalizing f place with
  | zero =>
      refine ⟨trivial, f, rfl, h, rfl, fun d hd => ?_⟩
      obtain ⟨j, hj⟩ := List.mem_iff_getElem?.mp hd
      exact hdone j (Nat.lt_of_lt_of_le (List.getElem?_eq_some_iff.mp hj).1 hlength) d hj
  | succ count ih =>
      have hattended := attended_of_ended [] hended hfinished
      have hsweep : sweep place (count + 1) = .deliver place [] none :: sweep (place + 1) count := rfl
      have hplaces : place + (count + 1) = place + 1 + count := by omega
      rw [hplaces] at hlength
      rw [hsweep]
      cases hplace : f.forwarder.deliveries[place]? with
      | none =>
          have hnext := next_deliver_none hplace [] none
          have hdone' : ∀ j < place + 1, ∀ d, f.forwarder.deliveries[j]? = some d →
              d.isDone = true := by
            intro j hj d hd
            rcases Nat.lt_succ_iff_lt_or_eq.mp hj with hj | rfl
            · exact hdone j hj d hd
            · cases hplace.symm.trans hd
          obtain ⟨horderly, f', hrun, hrest⟩ := ih h hended hfinished (place + 1) hlength hdone'
          refine ⟨⟨hattended, fun f₁ hf₁ => ?_⟩, f', (run_cons hnext _).trans hrun, hrest⟩
          obtain rfl := Except.ok.inj (hnext.symm.trans hf₁)
          exact horderly
      | some d =>
          obtain ⟨f₁, d', hnext, hsound, hlater, hdelivered⟩ := h.deliver none hattended hplace
          have hdone' : ∀ j < place + 1, ∀ d, f₁.forwarder.deliveries[j]? = some d →
              d.isDone = true := by
            intro j hj x hx
            rw [hdelivered.deliveries, List.getElem?_set] at hx
            split at hx
            · split at hx
              · obtain rfl := Option.some.inj hx
                exact hdelivered.done rfl hfinished
              · cases hx
            · next hne => exact hdone j (Nat.lt_of_le_of_ne (Nat.le_of_lt_succ hj) (Ne.symm hne)) x hx
          have hended' : (f₁.store.track f₁.source).ending ≠ none := by
            rw [hlater.source, hdelivered.track]
            exact hended
          have hfinished' : ∀ g ∈ f₁.found, ¬ Unfinished f₁.store g.group := fun g hg =>
            not_unfinished_later (hfinished g (hdelivered.found ▸ hg)) hlater.grows
          have hlength' : f₁.forwarder.deliveries.length ≤ place + 1 + count := by
            rw [hdelivered.deliveries, List.length_set]
            exact hlength
          obtain ⟨horderly, f', hrun, hsound', hsource, hrest⟩ :=
            ih hsound hended' hfinished' (place + 1) hlength' hdone'
          refine ⟨⟨hattended, fun f₂ hf₂ => ?_⟩, f', (run_cons hnext _).trans hrun, hsound',
            hsource.trans hdelivered.source, hrest⟩
          obtain rfl := Except.ok.inj (hnext.symm.trans hf₂)
          exact horderly

/-- **A forwarding does not get stuck.** If the source and all its groups have ended, some moves close the
    end: one look at the source, one poll of each delivery. -/
theorem Sound.drains (h : Sound doomed assured f) (hended : (f.store.track f.source).ending ≠ none)
    (hfinished : ∀ e ∈ f.announced, ¬ Unfinished f.store e.group) :
    ∃ more f', f.Orderly more ∧ f.run more = .ok f' ∧ Sound doomed assured f' ∧
      f'.forwarder.closed = true := by
  have hreached : ∀ {f' : Forwarding}, f'.announced = f.announced → f'.store = f.store →
      Sound doomed assured f' → ∀ g ∈ f'.found, ¬ Unfinished f'.store g.group := by
    intro f' hannounced hstore hsound g hg
    obtain ⟨e, he, rfl⟩ := List.mem_map.mp (hsound.found.among hg)
    rw [hstore]
    exact hfinished e (hannounced ▸ he)
  have hattended := attended_of_ended [] hended (hreached rfl rfl h)
  obtain ⟨f₁, hnext₁, hsound₁, hlater₁, hstore₁, hannounced₁, hsource₁⟩ :=
    h.accept ((f.store.track f.source).retained.length + 1) (fun _ => ⟨0⟩) hattended
  have hended₁ : (f₁.store.track f₁.source).ending ≠ none := by
    rw [hlater₁.source, hstore₁]
    exact hended
  obtain ⟨horderly₂, f₂, hrun₂, hsound₂, hsource₂, hdone⟩ := hsound₁.sweeps hended₁
    (hreached hannounced₁ hstore₁ hsound₁) 0 f₁.forwarder.deliveries.length (Nat.le_add_left _ _)
    fun j hj => absurd hj (Nat.not_lt_zero j)
  obtain ⟨f₃, hnext₃, hsound₃, -, hforwarder₃⟩ := hsound₂.dropDone
  obtain ⟨f₄, hnext₄, hsound₄, -, hclosed⟩ := hsound₃.finish
  have hnone : f₃.forwarder.source = none := by
    rw [hforwarder₃]
    exact hsource₂.trans (hsource₁ hended (Nat.lt_succ_self _))
  have hempty : f₃.forwarder.deliveries = [] := by
    rw [hforwarder₃]
    refine List.filter_eq_nil_iff.mpr fun d hd => ?_
    rw [hdone d hd]
    exact Bool.false_ne_true
  have htail : f₂.run [.dropDone, .finish] = .ok f₄ := by
    rw [run_cons hnext₃, run_cons hnext₄]
    rfl
  refine ⟨.accept ((f.store.track f.source).retained.length + 1) [] (fun _ => ⟨0⟩) ::
    (sweep 0 f₁.forwarder.deliveries.length ++ [.dropDone, .finish]), f₄, ⟨hattended, ?_⟩, ?_, hsound₄,
    hclosed hnone hempty⟩
  · intro f' hf'
    obtain rfl := Except.ok.inj (hnext₁.symm.trans hf')
    exact orderly_append.mpr ⟨horderly₂, fun _ _ => ⟨trivial, fun _ _ => ⟨trivial, fun _ _ => trivial⟩⟩⟩
  · rw [run_cons hnext₁, run_append, hrun₂]
    exact htail

end Drain

-- ── every group once ────────────────────────────────────────────────

/-- What a run of moves has come to when the track behind the network has ended. -/
structure Forwarded (first : Forwarding) (ms : List Move) (last : Forwarding) : Prop where
  /-- The source gave no number twice, and behind the network is one group for each group that it gave. -/
  distinct : (last.found.map GroupCursor.sequence).Nodup
  once : (last.made.map GroupEntry.sequence).Perm (last.found.map GroupCursor.sequence)
  /-- All groups behind the network have ended. -/
  terminal : ∀ e ∈ last.made,
    (∃ payloads, last.store.Complete e.group payloads) ∨ last.store.Aborted e.group
  /-- A group that is whole is closed behind the network, with the same payloads. -/
  whole : ∀ g ∈ last.found, Transmission.WholeGroup last.store g.group →
    ∀ e ∈ last.made, e.sequence = g.sequence →
      last.store.Complete e.group (last.store.payloads (last.store.group g.group).frames)
  /-- So is a group that was whole when all of it was sent, whatever has happened to it since. -/
  kept : ∀ before after mid, ms = before ++ after → first.run before = .ok mid →
    ∀ g, mid.Sent g → Transmission.WholeGroup mid.store g.group →
      ∀ e ∈ last.made, e.sequence = g.sequence →
        last.store.Complete e.group (mid.store.payloads (mid.store.group g.group).frames)
  /-- A group that was aborted before it was wholly sent is aborted behind the network. -/
  lost : ∀ before after mid, ms = before ++ after → first.run before = .ok mid →
    ∀ g ∈ last.found, ¬ mid.Sent g → (∃ err, (mid.store.group g.group).ending = some (.aborted err)) →
      ∀ e ∈ last.made, e.sequence = g.sequence → last.store.Aborted e.group

theorem Sound.forwarded {first last : Forwarding} {ms : List Move}
    (h : Sound (fun _ => False) (fun _ => False) first) (horderly : first.Orderly ms)
    (hlast : first.run ms = .ok last)
    (hended : (last.store.track last.destination.track).ending ≠ none) : Forwarded first ms last := by
  obtain ⟨_, hlast', hsound, -⟩ := h.run horderly
  obtain rfl := Except.ok.inj (hlast'.symm.trans hlast)
  obtain ⟨honce, hverdicts⟩ := hsound.arrived hended
  refine ⟨hsound.found.once, honce, fun e he => ?_, fun g hg hwhole e he heq => ?_, ?_, ?_⟩
  · obtain ⟨g, hg, heq⟩ := List.mem_map.mp (honce.mem_iff.mp (List.mem_map_of_mem he))
    cases hverdicts g hg e he heq.symm with
    | carried _ hcomplete => exact .inl ⟨_, hcomplete _ (.refl _)⟩
    | lost _ haborted _ => exact .inr haborted
  · cases hverdicts g hg e he heq with
    | carried _ hcomplete =>
        rw [← Transmission.map_sentPayload hwhole.whole]
        exact hcomplete _ (.refl _)
    | lost _ _ hnever => exact absurd hwhole (hnever _ (.refl _))
  · rintro before after mid rfl hmid g hsent hwhole e he heq
    have hassured : ∀ x, x = g → mid.Sent x ∧ Transmission.WholeGroup mid.store x.group := by
      rintro _ rfl
      exact ⟨hsent, hwhole⟩
    obtain ⟨hlater, hverdict⟩ := h.fate (fun _ => False) (· = g) horderly hmid hlast hended
      (fun _ hfalse => hfalse.elim) hassured
    cases hverdict g (hlater.found hsent.1) e he heq with
    | carried _ hcomplete =>
        rw [← hwhole.map_sentPayload_later hlater.grows]
        exact hcomplete _ (.refl _)
    | lost hnot _ _ => exact absurd rfl hnot
  · rintro before after mid rfl hmid g hg hsent haborted e he heq
    have hdoomed : ∀ x, x = g →
        (∃ err, (mid.store.group x.group).ending = some (.aborted err)) ∧ ¬ mid.Sent x := by
      rintro _ rfl
      exact ⟨haborted, hsent⟩
    obtain ⟨-, hverdict⟩ := h.fate (· = g) (fun _ => False) horderly hmid hlast hended hdoomed
      fun _ hfalse => hfalse.elim
    cases hverdict g hg e he heq with
    | carried hnot _ => exact absurd rfl hnot
    | lost _ haborted _ => exact haborted

/-- **Every group is forwarded once.** A track is forwarded to a fresh one, in any moves that are allowed
    when they come. No move fails, and when the track behind the network has ended, all groups that the
    source gave are there, each once and each ended as it should (`Forwarded`). Wherever the moves have come
    to, if the source was closed and all its groups have ended, some further moves close the track behind
    the network. -/
theorem forwards_every_group_once {s : Store} {cursor : TrackCursor} {destination : TrackWriter}
    {ms : List Move} (hready : Ready s cursor destination)
    (horderly : (start s cursor destination).Orderly ms) :
    ∃ last, (start s cursor destination).run ms = .ok last ∧
      ((last.store.track destination.track).ending ≠ none →
        Forwarded (start s cursor destination) ms last) ∧
      ((last.store.track cursor.track).ending = some .complete →
        (∀ e ∈ last.announced, ¬ Unfinished last.store e.group) →
        ∃ more final, (start s cursor destination).Orderly (ms ++ more) ∧
          (start s cursor destination).run (ms ++ more) = .ok final ∧
          (final.store.track destination.track).ending = some .complete) := by
  have hstart := Sound.start hready
  obtain ⟨last, hrun, hsound, hlater⟩ := hstart.run horderly
  have hdestination : last.destination = destination := hlater.destination
  refine ⟨last, hrun, fun hended => ?_, fun hclosed hfinished => ?_⟩
  · exact hstart.forwarded horderly hrun (hdestination.symm ▸ hended)
  · have hsource : last.source = cursor.track := hlater.source
    have hended : (last.store.track last.source).ending ≠ none := by
      rw [hsource, hclosed]
      exact Option.some_ne_none _
    obtain ⟨more, final, hmore, hfinal, hsound', hclosed'⟩ := hsound.drains hended hfinished
    refine ⟨more, final, orderly_append.mpr ⟨horderly, fun f' hf' => ?_⟩, ?_, ?_⟩
    · obtain rfl := Except.ok.inj (hrun.symm.trans hf')
      exact hmore
    · rw [run_append, hrun]
      exact hfinal
    · obtain ⟨_, hfinal', -, hlater'⟩ := hsound.run hmore
      obtain rfl := Except.ok.inj (hfinal'.symm.trans hfinal)
      have hending := hsound'.behind.ending
      rw [hlater'.destination, hdestination, hclosed'] at hending
      exact hending

/-- Two tracks, on which nothing has happened. -/
def twoTracks : Store := ⟨#[], #[], #[.fresh, .fresh], #[]⟩

/-- A group is closed and then sent in two rounds. Another one comes after it with a smaller number, is
    under way, and is aborted before its frame is whole. -/
def lateAbort : List Move :=
  [.publish (.createGroup ⟨0, ⟨"video", 0⟩⟩ 3), .publish (.writeFrame ⟨0, 3⟩ [[65], [66]]),
    .publish (.closeGroup ⟨0, 3⟩), .accept 2 [.trackWriter 0] (fun _ => ⟨0⟩),
    .deliver 0 [.trackWriter 0] (some 6), .publish (.createGroup ⟨0, ⟨"video", 0⟩⟩ 1),
    .publish (.createFrame ⟨2, 1⟩ 2), .accept 1 [.trackWriter 0, .groupWriter 2] (fun _ => ⟨7⟩),
    .deliver 1 [.trackWriter 0, .groupWriter 2] none, .publish (.abortGroup .cancel ⟨2, 1⟩),
    .publish (.closeTrack ⟨0, ⟨"video", 0⟩⟩), .deliver 1 [] none, .deliver 0 [] none,
    .accept 2 [] (fun _ => ⟨0⟩), .dropDone, .finish]

/-- The first group arrives whole and the second is aborted. Had nothing been done after the source was
    closed, the end could still be reached. -/
theorem forwards_every_group_once_lateAbort :
    let first := start twoTracks ⟨0, ⟨"video", 0⟩, []⟩ ⟨1, ⟨"video", 0⟩⟩
    Ready twoTracks ⟨0, ⟨"video", 0⟩, []⟩ ⟨1, ⟨"video", 0⟩⟩ ∧ first.Orderly lateAbort ∧
      (∃ last, first.run lateAbort = .ok last ∧ last.found.map GroupCursor.sequence = [3, 1] ∧
        last.made = [⟨1, 3⟩, ⟨3, 1⟩] ∧ last.store.Complete 1 [[65, 66]] ∧ last.store.Aborted 3) ∧
      ∃ more final, first.run (lateAbort.take 11 ++ more) = .ok final ∧
        (final.store.track 1).ending = some .complete := by
  intro first
  have hready : Ready twoTracks ⟨0, ⟨"video", 0⟩, []⟩ ⟨1, ⟨"video", 0⟩⟩ := by
    refine ⟨rfl, by decide, by decide, fun e heq => ?_, .nil, fun e he => ?_, fun h w hw => ?_⟩
    · cases heq
    · exact absurd he List.not_mem_nil
    · rw [Store.group_of_size_le twoTracks (Nat.zero_le h)] at hw
      exact absurd hw List.not_mem_nil
  have horderly : first.Orderly lateAbort := by decide +kernel
  have hbegun : first.Orderly (lateAbort.take 11) := by decide +kernel
  -- what the run comes to
  obtain ⟨last, hrun, hforwarded, -⟩ := forwards_every_group_once hready horderly
  have hlast : (first.run lateAbort).map (fun f =>
      (f.found, f.made, f.store.group 0, f.store.frame 0, (f.store.track 1).ending)) =
      .ok ([⟨0, 3, 0, none⟩, ⟨2, 1, 0, none⟩], [⟨1, 3⟩, ⟨3, 1⟩], ⟨[⟨0, 2⟩], some .complete⟩,
        ⟨[[65], [66]], 2, some .complete⟩, some .complete) := by decide +kernel
  rw [hrun] at hlast
  obtain ⟨hfound, hlast⟩ := Prod.mk.inj (Except.ok.inj hlast)
  obtain ⟨hmade, hlast⟩ := Prod.mk.inj hlast
  obtain ⟨hgroup, hlast⟩ := Prod.mk.inj hlast
  obtain ⟨hframe, hending⟩ := Prod.mk.inj hlast
  have hends := hforwarded (hending ▸ Option.some_ne_none _)
  -- the first group is whole
  have hwhole : Transmission.WholeGroup last.store 0 := by
    refine ⟨congrArg Group.ending hgroup, fun w hw => ?_⟩
    rw [hgroup] at hw
    obtain rfl := List.mem_singleton.mp hw
    exact ⟨congrArg Frame.ending hframe, congrArg (fun f => f.payload.length) hframe, by decide⟩
  have hcomplete := hends.whole ⟨0, 3, 0, none⟩ (hfound ▸ by decide) hwhole ⟨1, 3⟩ (hmade ▸ by decide) rfl
  have hpayloads : last.store.payloads (last.store.group 0).frames = [[65, 66]] := by
    rw [hgroup]
    exact congrArg (fun f => [Frame.payload f]) hframe
  -- the second one was aborted under way
  have hten : (first.run (lateAbort.take 10)).map (fun f =>
      ((f.store.group 2).ending, decide (f.Sent ⟨2, 1, 0, none⟩))) =
      .ok (some (.aborted .cancel), false) := by decide +kernel
  obtain ⟨mid, hmid, hten⟩ := exists_of_map_eq_ok hten
  obtain ⟨haborted, hsent⟩ := Prod.mk.inj hten
  have hlost := hends.lost _ _ mid (List.take_append_drop 10 lateAbort).symm hmid ⟨2, 1, 0, none⟩
    (hfound ▸ by decide) (of_decide_eq_false hsent.symm) ⟨_, haborted.symm⟩ ⟨3, 1⟩ (hmade ▸ by decide) rfl
  -- the end from where the source is closed
  obtain ⟨mid', hmid', -, hdrains⟩ := forwards_every_group_once hready hbegun
  have heleven : (first.run (lateAbort.take 11)).map (fun f => ((f.store.track 0).ending,
      decide (∀ e ∈ f.announced, ¬ Unfinished f.store e.group))) = .ok (some .complete, true) := by
    decide +kernel
  rw [hmid'] at heleven
  obtain ⟨hclosed, hfinished⟩ := Prod.mk.inj (Except.ok.inj heleven)
  obtain ⟨more, final, -, hfinal, hend⟩ := hdrains hclosed (of_decide_eq_true hfinished)
  refine ⟨hready, horderly, ⟨last, hrun, ?_, hmade, hpayloads ▸ hcomplete, hlost⟩, more, final, hfinal,
    hend⟩
  rw [hfound]
  rfl

end Forwarding

end LiveMedia.Simulation
