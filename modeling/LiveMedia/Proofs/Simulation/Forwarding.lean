import LiveMedia.Proofs.Live.Finality
import LiveMedia.Proofs.Simulation.Delivery
import LiveMedia.Proofs.Simulation.Finding

/-!
# What a forwarder does, move by move

A forwarding is a forwarder with the store it works on, and with three ledgers: the groups that the source
has announced, those that the forwarder has found, and those that were made behind the network. Anything
may come in any order: the publisher writes, the forwarder looks for groups, a delivery goes on as far as
there is room in its pipe, what is done is dropped, and the end is closed when nothing is left. So every
choice of delays is one of the orders.

`Sound` is the invariant. It has a part for each side of the network and one between them. Behind the
network (`Behind`) the forwarder is the only hand: each number is there once, and the groups are its own.
In front of it (`Found`, `Seeks`) no group is found twice. In between (`Aloft`) every group that was found is
under way or has arrived. Each move keeps all of it and does not fail (`Sound.next`).
-/

namespace LiveMedia.Simulation

open LiveMedia.Wire LiveMedia.Time LiveMedia.Message LiveMedia.Live LiveMedia.Transfer

-- ── moves ───────────────────────────────────────────────────────────

/-- Lets the delivery at a place of the list go on, as far as there is room in its pipe. -/
def Forwarder.deliverWithin (room : Option Nat) (store : Store) (others : Holdings) (place : Nat)
    (f : Forwarder) : Forwarder × Store :=
  match f.deliveries[place]? with
  | none => (f, store)
  | some d =>
    let (d, store) := d.pollWithin room f.destination store (f.holdings ++ others)
    ({ f with deliveries := f.deliveries.set place d }, store)

theorem Forwarder.deliverWithin_none (store : Store) (others : Holdings) (place : Nat)
    (f : Forwarder) : f.deliverWithin none store others place = f.deliver store others place := by
  unfold deliverWithin deliver
  cases f.deliveries[place]? with
  | none => rfl
  | some d =>
      dsimp only
      rw [Delivery.pollWithin_none]

structure Forwarding where
  store : Store
  /-- The track that is forwarded. -/
  source : TrackId
  forwarder : Forwarder
  /-- The groups that the source has announced. -/
  announced : List GroupEntry
  /-- The groups that the forwarder was given by its cursor. -/
  found : List GroupCursor
  /-- The groups that the track behind the network has announced. -/
  made : List GroupEntry

namespace Forwarding

/-- One thing that happens; `others` is what everybody else holds. -/
inductive Move where
  /-- A publisher does something. -/
  | publish (op : Operation)
  /-- The forwarder looks for new groups, at most so often. -/
  | accept (limit : Nat) (others : Holdings) (due : Nat → Span)
  /-- The delivery at this place goes on. -/
  | deliver (place : Nat) (others : Holdings) (room : Option Nat)
  /-- The forwarder lets go of what is delivered. -/
  | dropDone
  /-- The forwarder closes the end if nothing is left. -/
  | finish

/-- A forwarder that has done nothing yet. -/
def start (s : Store) (cursor : TrackCursor) (destination : TrackWriter) : Forwarding :=
  ⟨s, cursor.track, .start cursor destination, (s.track cursor.track).retained, [], []⟩

/-- The track behind the network. -/
def destination (f : Forwarding) : TrackWriter := f.forwarder.destination

def next (f : Forwarding) : Move → Except TransportError Forwarding
  | .publish op =>
    let store := op.perform f.store
    .ok { f with
      store
      announced := f.announced ++ (f.store.track f.source).announces (store.track f.source) }
  | .accept limit others due => do
    let held := others ++ f.forwarder.holdings
    let forwarder ← f.forwarder.acceptWithin limit f.store held due
    return { f with forwarder, found := f.found ++ f.forwarder.finds limit f.store held }
  | .deliver place others room =>
    let (forwarder, store) := f.forwarder.deliverWithin room f.store others place
    .ok { f with
      store
      forwarder
      made := f.made ++
        (f.store.track f.destination.track).announces (store.track f.destination.track) }
  | .dropDone => .ok { f with forwarder := f.forwarder.dropDone }
  | .finish => do
    let (forwarder, store) ← f.forwarder.finish f.store
    return { f with store, forwarder }

def run (f : Forwarding) : List Move → Except TransportError Forwarding
  | [] => .ok f
  | m :: ms => do
    let f ← f.next m
    f.run ms

theorem run_cons {f f' : Forwarding} {m : Move} (hnext : f.next m = .ok f') (ms : List Move) :
    f.run (m :: ms) = f'.run ms := by
  rw [run, hnext]
  rfl

/-- There is nothing at that place. -/
theorem next_deliver_none {f : Forwarding} {place : Nat}
    (hplace : f.forwarder.deliveries[place]? = none) (others : Holdings) (room : Option Nat) :
    f.next (.deliver place others room) = .ok f := by
  simp only [next, Forwarder.deliverWithin, hplace, Track.announces_self, List.append_nil]

-- ── what may happen ─────────────────────────────────────────────────

/-- The writers of the track and of the groups that were found are there until these have ended. -/
structure Attended (f : Forwarding) (others : Holdings) : Prop where
  track : (f.store.track f.source).ending = none → .trackWriter f.source ∈ others
  group : ∀ g ∈ f.found, (f.store.group g.group).ending = none → .groupWriter g.group ∈ others

/-- What a publisher does: it stays away from what is behind the network and does not abort the source,
    and no two groups of the source bear the same number, or one that is too large. -/
structure Published (f : Forwarding) (op : Operation) : Prop where
  elsewhere : op.Elsewhere f.store (f.made.map GroupEntry.group)
  track : op.track? ≠ some f.destination.track
  unaborted : op.abortsTrack? f.source = none
  distinct : ((f.announced ++ (f.store.track f.source).announces
    ((op.perform f.store).track f.source)).map GroupEntry.sequence).Nodup
  bounded : ∀ e ∈ (f.store.track f.source).announces ((op.perform f.store).track f.source),
    e.sequence ≤ Varint.compactMaximum

instance (f : Forwarding) (others : Holdings) : Decidable (f.Attended others) :=
  decidable_of_iff (((f.store.track f.source).ending = none → .trackWriter f.source ∈ others) ∧
      ∀ g ∈ f.found, (f.store.group g.group).ending = none → .groupWriter g.group ∈ others)
    ⟨fun h => ⟨h.1, h.2⟩, fun h => ⟨h.track, h.group⟩⟩

instance (f : Forwarding) (op : Operation) : Decidable (f.Published op) :=
  decidable_of_iff (op.Elsewhere f.store (f.made.map GroupEntry.group) ∧
      op.track? ≠ some f.destination.track ∧ op.abortsTrack? f.source = none ∧
      ((f.announced ++ (f.store.track f.source).announces
        ((op.perform f.store).track f.source)).map GroupEntry.sequence).Nodup ∧
      ∀ e ∈ (f.store.track f.source).announces ((op.perform f.store).track f.source),
        e.sequence ≤ Varint.compactMaximum)
    ⟨fun ⟨h₁, h₂, h₃, h₄, h₅⟩ => ⟨h₁, h₂, h₃, h₄, h₅⟩,
      fun h => ⟨h.elsewhere, h.track, h.unaborted, h.distinct, h.bounded⟩⟩

def Allows (f : Forwarding) : Move → Prop
  | .publish op => f.Published op
  | .accept _ others _ | .deliver _ others _ => f.Attended others
  | .dropDone | .finish => True

/-- Each of the moves is allowed when it comes. -/
def Orderly (f : Forwarding) : List Move → Prop
  | [] => True
  | m :: ms => f.Allows m ∧ ∀ f', f.next m = .ok f' → f'.Orderly ms

instance (f : Forwarding) : (m : Move) → Decidable (f.Allows m)
  | .publish op => inferInstanceAs (Decidable (f.Published op))
  | .accept _ others _ => inferInstanceAs (Decidable (f.Attended others))
  | .deliver _ others _ => inferInstanceAs (Decidable (f.Attended others))
  | .dropDone => .isTrue trivial
  | .finish => .isTrue trivial

instance decidableOrderly : (f : Forwarding) → (ms : List Move) → Decidable (f.Orderly ms)
  | _, [] => .isTrue trivial
  | f, m :: ms =>
    have : Decidable (∀ f', f.next m = .ok f' → f'.Orderly ms) :=
      match f.next m with
      | .error e => .isTrue fun f' hf' => by cases hf'
      | .ok next =>
        have : Decidable (next.Orderly ms) := decidableOrderly next ms
        decidable_of_iff (next.Orderly ms)
          ⟨fun hrest f' hf' => Except.ok.inj hf' ▸ hrest, fun hall => hall next rfl⟩
    inferInstanceAs (Decidable (_ ∧ _))

end Forwarding

-- ── behind the network ──────────────────────────────────────────────

/-- The track behind the network and the groups that were `made` on it. -/
structure Behind (s : Store) (destination : TrackId) (closed : Bool) (made : List GroupEntry) :
    Prop where
  track_lt : destination < s.tracks.size
  owned : s.Owned (made.map GroupEntry.group)
  apart : (made.map GroupEntry.group).Nodup
  once : (made.map GroupEntry.sequence).Nodup
  retained : (s.track destination).retained = Track.latest made
  ending : (s.track destination).ending = if closed then some .complete else none

namespace Behind

variable {s s' : Store} {destination : TrackWriter} {closed : Bool} {made new : List GroupEntry}
  {sequence : Nat}

theorem mem_made {t : TrackId} {e : GroupEntry} (h : Behind s t closed made)
    (he : e ∈ (s.track t).retained) : e ∈ made :=
  (Track.latest_suffix made).mem (h.retained ▸ he)

/-- The track is left alone, and its groups stay its own. -/
theorem spared {t : TrackId} (h : Behind s t closed made) (howned : s'.Owned (made.map GroupEntry.group))
    (htracks : s.tracks.size ≤ s'.tracks.size) (hsame : s'.track t = s.track t) :
    Behind s' t closed made :=
  ⟨Nat.lt_of_lt_of_le h.track_lt htracks, howned, h.apart, h.once, hsame ▸ h.retained,
    hsame ▸ h.ending⟩

/-- Other hands work elsewhere. -/
theorem perform {t : TrackId} (h : Behind s t closed made) {op : Operation}
    (hop : op.Elsewhere s (made.map GroupEntry.group)) (htrack : op.track? ≠ some t) :
    Behind (op.perform s) t closed made ∧ ∀ e ∈ made, Store.Spares e.group s (op.perform s) := by
  obtain ⟨howned, hspares⟩ := h.owned.elsewhere hop
  exact ⟨h.spared howned (op.adds s).tracks_le ((op.leaves s).track t htrack),
    fun e he => hspares e.group (List.mem_map_of_mem he)⟩

/-- The track behind the network takes a group of a new number as long as it is open. -/
theorem createGroup_ok (h : Behind s destination.track false made)
    (hnew : sequence ∉ made.map GroupEntry.sequence) :
    ∃ x, s.createGroup destination sequence = .ok x := by
  have hretains : (s.track destination.track).retains sequence = false := by
    refine Bool.eq_false_iff.mpr fun hretains => hnew ?_
    obtain ⟨e, he, heq⟩ := List.any_eq_true.mp hretains
    exact List.mem_map.mpr ⟨e, h.mem_made he, beq_iff_eq.mp heq⟩
  exact Store.createGroup_of_open h.ending hretains

/-- As long as the track is open it can be closed. -/
theorem close (h : Behind s destination.track false made) :
    ∃ s', s.closeTrack destination = .ok s' ∧ Behind s' destination.track true made ∧ s.Grows s' ∧
      (∀ e ∈ made, Store.Spares e.group s s') ∧ ∀ t ≠ destination.track, s'.track t = s.track t := by
  have hclose := Store.closeTrack_of_open h.ending
  have hperform := Operation.perform_closeTrack hclose
  have htrack := s.track_setTrack_self h.track_lt
    { s.track destination.track with ending := some .complete }
  obtain ⟨howned, hspares⟩ := h.owned.elsewhere (.of_track (.closeTrack destination) rfl rfl)
  have hgrows := (Operation.closeTrack destination).grows s
  have hsize := ((Operation.closeTrack destination).adds s).tracks_le
  rw [hperform] at howned hspares hgrows hsize
  refine ⟨_, hclose, ⟨Nat.lt_of_lt_of_le h.track_lt hsize, howned, h.apart, h.once, ?_, ?_⟩, hgrows,
    fun e he => hspares e.group (List.mem_map_of_mem he), fun t ht => s.track_setTrack_of_ne ht _⟩
  · rw [htrack]
    exact h.retained
  · rw [htrack]
    rfl

/-- What a poll of a delivery leaves behind the network. -/
structure Effects (destination : TrackWriter) (sequence : Nat) (closed : Bool) (made new : List GroupEntry)
    (s s' : Store) : Prop where
  behind : Behind s' destination.track closed (made ++ new)
  grows : s.Grows s'
  spares : ∀ e ∈ made, e.sequence ≠ sequence → Store.Spares e.group s s'
  announces : (s.track destination.track).announces (s'.track destination.track) = new
  others : ∀ t ≠ destination.track, s'.track t = s.track t
  numbered : ∀ e ∈ new, e.sequence = sequence

theorem makes {g : GroupWriter} {opened : Store} (h : Behind s destination.track closed made)
    (hnew : sequence ∉ made.map GroupEntry.sequence)
    (hmade : s.createGroup destination sequence = .ok (g, opened))
    (hserved : Store.Served g.group opened s') :
    Effects destination sequence closed made [⟨g.group, sequence⟩] s s' := by
  have hperform : (Operation.createGroup destination sequence).perform s = opened :=
    Operation.perform_createGroup hmade
  have hopened := h.owned.elsewhere (.of_track (.createGroup destination sequence) rfl rfl)
  have hleaves := (Operation.createGroup destination sequence).leaves s
  have hsize := ((Operation.createGroup destination sequence).adds s).tracks_le
  rw [hperform] at hopened hleaves hsize
  obtain ⟨howned, hspares⟩ := hserved.owned (h.owned.createGroup hmade)
    (List.mem_append_right _ List.mem_cons_self)
  obtain ⟨rfl, heq⟩ := Store.createGroup_eq_ok hmade
  have hretained : (s'.track destination.track).retained =
      Track.latest ((s.track destination.track).retained ++ [⟨s.groups.size, sequence⟩]) := by
    rw [hserved.track, heq, (s.newGroup sequence).2.track_setTrack_self h.track_lt]
  have hending : (s'.track destination.track).ending = (s.track destination.track).ending := by
    rw [hserved.track, heq, (s.newGroup sequence).2.track_setTrack_self h.track_lt]
  have hunretained : ⟨s.groups.size, sequence⟩ ∉ (s.track destination.track).retained := fun he =>
    hnew (List.mem_map.mpr ⟨_, h.mem_made he, rfl⟩)
  have hknown : ∀ e ∈ made, e.group ≠ s.groups.size := fun e he =>
    Nat.ne_of_lt (h.owned.known e.group (List.mem_map_of_mem he))
  refine ⟨⟨?_, ?_, ?_, ?_, ?_, ?_⟩, ?_, fun e he _ => ?_, Track.announces_latest hunretained hretained,
    fun t ht => ?_, fun e he => ?_⟩
  · exact Nat.lt_of_lt_of_le h.track_lt (Nat.le_trans hsize hserved.tracks_le)
  · rw [List.map_append]
    exact howned
  · rw [List.map_append]
    refine List.nodup_append.mpr ⟨h.apart, List.nodup_singleton _, ?_⟩
    rintro i hi j hj rfl
    obtain ⟨e, he, rfl⟩ := List.mem_map.mp hi
    exact hknown e he (List.mem_singleton.mp hj)
  · rw [List.map_append]
    refine List.nodup_append.mpr ⟨h.once, List.nodup_singleton _, ?_⟩
    rintro n hn m hm rfl
    obtain rfl : n = sequence := List.mem_singleton.mp hm
    exact hnew hn
  · rw [hretained, h.retained, Track.latest_latest_append]
  · exact hending.trans h.ending
  · exact (Store.Grows.createGroup hmade).trans hserved.grows
  · have hmem := List.mem_map_of_mem (f := GroupEntry.group) he
    exact (hopened.2 e.group hmem).trans
      (hspares e.group (List.mem_append_left _ hmem) (hknown e he))
  · rw [hserved.track]
    exact hleaves.track t fun heq => ht (Option.some.inj heq).symm
  · rw [List.mem_singleton.mp he]

theorem fills {e : GroupEntry} (h : Behind s destination.track closed made) (he : e ∈ made)
    (hsequence : e.sequence = sequence) (hserved : Store.Served e.group s s') :
    Effects destination sequence closed made [] s s' := by
  obtain ⟨howned, hspares⟩ := hserved.owned h.owned (List.mem_map_of_mem he)
  have htrack := hserved.track
  refine ⟨?_, hserved.grows, fun x hx hne => ?_, ?_, fun t _ => htrack t, fun x hx => ?_⟩
  · rw [List.append_nil]
    refine ⟨Nat.lt_of_lt_of_le h.track_lt hserved.tracks_le, howned, h.apart, h.once, ?_, ?_⟩
    · exact (htrack _).symm ▸ h.retained
    · exact (htrack _).symm ▸ h.ending
  · refine hspares x.group (List.mem_map_of_mem hx) fun heq => hne ?_
    rw [List.inj_on_of_nodup_map h.apart hx he heq, hsequence]
  · rw [htrack]
    exact Track.announces_self _
  · exact absurd hx List.not_mem_nil

/-- **A delivery works on its own group.** -/
theorem alters (h : Behind s destination.track closed made)
    (halters : Delivery.Alters destination sequence made s s' new) :
    Effects destination sequence closed made new s s' := by
  cases halters with
  | nothing =>
      refine ⟨?_, .refl s, fun e _ _ => .refl e.group s, Track.announces_self _, fun _ _ => rfl, ?_⟩
      · exact (List.append_nil made).symm ▸ h
      · exact fun e he => absurd he List.not_mem_nil
  | makes hnew hmade hserved => exact h.makes hnew hmade hserved
  | fills he hsequence hserved => exact h.fills he hsequence hserved

end Behind

-- ── on the way ──────────────────────────────────────────────────────

/-- A delivery with the group that it carries. -/
abbrev Flight := GroupCursor × Delivery

/-- The groups that were found are under way in these flights, or have arrived. A group that is called
    doomed was aborted, and one that is called assured was found. -/
structure Aloft (doomed assured : GroupCursor → Prop) (s : Store) (priority : UInt8)
    (made : List GroupEntry) (found : List GroupCursor) (flights : List Flight) : Prop where
  carries : ∀ p ∈ flights, Delivery.Carries (doomed p.1) (assured p.1) s made
    (Delivery.header p.1.sequence priority) p.1.group p.2
  among : flights.map Prod.fst ⊆ found
  apart : (flights.map fun p => p.1.sequence).Nodup
  accounted : ∀ g ∈ found, g ∈ flights.map Prod.fst ∨
    Delivery.Arrived (doomed g) (assured g) s made g.sequence g.group
  wanted : ∀ e ∈ made, e.sequence ∈ found.map GroupCursor.sequence
  aborted : ∀ g, doomed g → ∃ e, (s.group g.group).ending = some (.aborted e)
  known : ∀ g, assured g → g ∈ found

namespace Aloft

variable {doomed assured : GroupCursor → Prop} {s s' : Store} {priority : UInt8}
  {made new : List GroupEntry} {found more : List GroupCursor} {flights : List Flight}

/-- Others do something to other groups. -/
theorem later (h : Aloft doomed assured s priority made found flights) (hgrows : s.Grows s')
    (hspares : ∀ e ∈ made, Store.Spares e.group s s') :
    Aloft doomed assured s' priority made found flights where
  carries p hp := (h.carries p hp).later hgrows (fun e he _ => hspares e he) (List.Subset.refl made) id
  among := h.among
  apart := h.apart
  accounted g hg := (h.accounted g hg).imp_right fun harrived =>
    harrived.later hgrows (fun e he _ => hspares e he) (List.Subset.refl made)
  wanted := h.wanted
  aborted g hg := hgrows.aborted (h.aborted g hg)
  known := h.known

/-- Groups that are found take off. -/
theorem take {destination : TrackWriter}
    (h : Aloft doomed assured s destination.info.priority made found flights)
    (honce : ((found ++ more).map GroupCursor.sequence).Nodup)
    (hfresh : ∀ g ∈ more, g.position = 0 ∧ g.active = none) (due : Nat → Span) :
    Aloft doomed assured s destination.info.priority made (found ++ more)
      (flights ++ more.map fun g => (g, .start (due g.sequence) g destination)) := by
  rw [List.map_append] at honce
  obtain ⟨-, hmore, hapart⟩ := List.nodup_append.mp honce
  have hunknown : ∀ g ∈ more, g.sequence ∉ found.map GroupCursor.sequence := fun g hg hn =>
    hapart _ hn _ (List.mem_map_of_mem hg) rfl
  have hfst : (more.map fun g => ((g, .start (due g.sequence) g destination) : Flight)).map Prod.fst =
      more := by
    rw [List.map_map]
    exact List.map_id more
  refine ⟨fun p hp => ?_, ?_, ?_, fun g hg => ?_, fun e he => ?_, h.aborted, fun g hg => ?_⟩
  · rcases List.mem_append.mp hp with hp | hp
    · exact h.carries p hp
    · obtain ⟨g, hg, rfl⟩ := List.mem_map.mp hp
      obtain ⟨hposition, hactive⟩ := hfresh g hg
      refine Delivery.Carries.start _ destination hposition hactive (fun hassured => ?_) fun hmade => ?_
      · exact hunknown g hg (List.mem_map_of_mem (h.known g hassured))
      · obtain ⟨e, he, heq⟩ := List.mem_map.mp hmade
        exact hunknown g hg (heq ▸ h.wanted e he)
  · rw [List.map_append, hfst]
    exact List.append_subset.mpr ⟨List.subset_append_of_subset_left _ h.among,
      List.subset_append_right _ _⟩
  · rw [List.map_append, List.map_map]
    refine List.nodup_append.mpr ⟨h.apart, hmore, ?_⟩
    rintro n hn m hm rfl
    obtain ⟨p, hp, rfl⟩ := List.mem_map.mp hn
    exact hapart _ (List.mem_map_of_mem (h.among (List.mem_map_of_mem hp))) _ hm rfl
  · rw [List.map_append, hfst]
    rcases List.mem_append.mp hg with hg | hg
    · exact (h.accounted g hg).imp_left (List.mem_append_left _)
    · exact .inl (List.mem_append_right _ hg)
  · rw [List.map_append]
    exact List.mem_append_left _ (h.wanted e he)
  · exact List.mem_append_left _ (h.known g hg)

/-- A flight that goes on carries the same group. -/
theorem map_set {α : Type} {place : Nat} {g : GroupCursor} {d : Delivery}
    (hplace : flights[place]? = some (g, d)) (d' : Delivery) (k : GroupCursor → α) :
    (flights.set place (g, d')).map (fun p => k p.1) = flights.map fun p => k p.1 := by
  rw [List.map_set]
  refine List.ext_getElem? fun j => ?_
  rw [List.getElem?_set]
  split
  · next heq =>
    subst heq
    rw [List.getElem?_map, hplace, if_pos]
    · rfl
    · rw [List.length_map]
      exact (List.getElem?_eq_some_iff.mp hplace).1
  · rfl

/-- The others have other numbers. -/
theorem mem_set {place : Nat} {g : GroupCursor} {d d' : Delivery} {p : Flight}
    (hapart : (flights.map fun p => p.1.sequence).Nodup) (hplace : flights[place]? = some (g, d))
    (hp : p ∈ flights.set place (g, d')) :
    p = (g, d') ∨ p ∈ flights ∧ p.1.sequence ≠ g.sequence := by
  obtain ⟨j, hj⟩ := List.mem_iff_getElem?.mp hp
  have hlt := (List.getElem?_eq_some_iff.mp hplace).1
  simp only [List.getElem?_set, if_pos hlt] at hj
  split at hj
  · exact .inl (Option.some.inj hj).symm
  · next hne =>
    refine .inr ⟨List.mem_of_getElem? hj, fun heq => hne ?_⟩
    refine (List.getElem?_inj ?_ hapart).mp ?_
    · rw [List.length_map]
      exact hlt
    · rw [List.getElem?_map, List.getElem?_map, hplace, hj]
      exact congrArg some heq.symm

/-- One flight goes on. -/
theorem deliver {destination : TrackWriter} {closed : Bool} {place : Nat} {g : GroupCursor}
    {d d' : Delivery} (h : Aloft doomed assured s priority made found flights)
    (honce : (found.map GroupCursor.sequence).Nodup) (hplace : flights[place]? = some (g, d))
    (heffects : Behind.Effects destination g.sequence closed made new s s')
    (hcarries : Delivery.Carries (doomed g) (assured g) s' (made ++ new)
      (Delivery.header g.sequence priority) g.group d') :
    Aloft doomed assured s' priority (made ++ new) found (flights.set place (g, d')) := by
  have hflight : g ∈ flights.map Prod.fst := List.mem_map_of_mem (List.mem_of_getElem? hplace)
  have hfst : (flights.set place (g, d')).map Prod.fst = flights.map Prod.fst := map_set hplace d' id
  -- a group of another number is left alone
  have hspares : ∀ {n : Nat}, n ≠ g.sequence → ∀ e ∈ made, e.sequence = n →
      Store.Spares e.group s s' := fun hne e he heq =>
    heffects.spares e he fun heq' => hne (heq.symm.trans heq')
  have hnew : ∀ {n : Nat}, n ≠ g.sequence → n ∉ made.map GroupEntry.sequence →
      n ∉ (made ++ new).map GroupEntry.sequence := by
    intro n hne hold hmade
    rw [List.map_append] at hmade
    rcases List.mem_append.mp hmade with hmade | hmade
    · exact hold hmade
    · obtain ⟨e, he, rfl⟩ := List.mem_map.mp hmade
      exact hne (heffects.numbered e he)
  refine ⟨fun p hp => ?_, hfst.symm ▸ h.among, ?_, fun x hx => ?_, fun e he => ?_,
    fun x hx => heffects.grows.aborted (h.aborted x hx), h.known⟩
  · rcases mem_set h.apart hplace hp with rfl | ⟨hp, hother⟩
    · exact hcarries
    · exact (h.carries p hp).later heffects.grows (hspares hother) (List.subset_append_left made new)
        (hnew hother)
  · exact (map_set hplace d' GroupCursor.sequence).symm ▸ h.apart
  · rw [hfst]
    by_cases hx' : x.sequence = g.sequence
    · rw [List.inj_on_of_nodup_map honce hx (h.among hflight) hx']
      exact .inl hflight
    · exact (h.accounted x hx).imp_right fun harrived =>
        harrived.later heffects.grows (hspares hx') (List.subset_append_left made new)
  · rcases List.mem_append.mp he with he | he
    · exact h.wanted e he
    · exact heffects.numbered e he ▸ List.mem_map_of_mem (h.among hflight)

/-- What is done has arrived and is dropped. -/
theorem dropDone (h : Aloft doomed assured s priority made found flights) :
    Aloft doomed assured s priority made found (flights.filter fun p => !p.2.isDone) where
  carries p hp := h.carries p (List.mem_of_mem_filter hp)
  among := fun g hg => by
    obtain ⟨p, hp, rfl⟩ := List.mem_map.mp hg
    exact h.among (List.mem_map_of_mem (List.mem_of_mem_filter hp))
  apart := h.apart.sublist (List.filter_sublist.map _)
  accounted g hg := by
    rcases h.accounted g hg with hflight | harrived
    · obtain ⟨p, hp, rfl⟩ := List.mem_map.mp hflight
      cases hdone : p.2.isDone with
      | true => exact .inr ((h.carries p hp).arrived hdone)
      | false =>
          refine .inl (List.mem_map_of_mem (List.mem_filter.mpr ⟨hp, ?_⟩))
          rw [hdone]
          rfl
    · exact .inr harrived
  wanted := h.wanted
  aborted := h.aborted
  known := h.known

end Aloft

-- ── the invariant ───────────────────────────────────────────────────

/-- The number of a group can be written into the header of its stream. -/
theorem encode_header {sequence : Nat} (h : sequence ≤ Varint.compactMaximum) (priority : UInt8) :
    ∃ hd, (Delivery.header sequence priority).encode = .ok hd := by
  have hgroup : encodeCompact sequence = .ok (Varint.encode ⟨sequence⟩) := if_pos h
  simp only [GroupHeader.encode, Delivery.header, ne_eq, not_true_eq_false, and_false, if_false, hgroup]
  exact ⟨_, rfl⟩

namespace Forwarding

/-- What holds between two moves. -/
structure Sound (doomed assured : GroupCursor → Prop) (f : Forwarding) : Prop where
  behind : Behind f.store f.destination.track f.forwarder.closed f.made
  apart : f.source ≠ f.destination.track
  found : Found f.store f.source f.announced f.found
  bounded : ∀ e ∈ f.announced, e.sequence ≤ Varint.compactMaximum
  seeks : ∀ c, f.forwarder.source = some c → Seeks f.store f.source f.found c
  aloft : ∃ flights, f.forwarder.deliveries = flights.map Prod.snd ∧
    Aloft doomed assured f.store f.destination.info.priority f.made f.found flights
  idle : f.forwarder.closed = true → f.forwarder.source = none ∧ f.forwarder.deliveries = []

/-- What moves leave as it is, or add to. -/
structure Later (f f' : Forwarding) : Prop where
  grows : f.store.Grows f'.store
  found : f.found ⊆ f'.found
  source : f'.source = f.source
  destination : f'.destination = f.destination

theorem Later.refl (f : Forwarding) : f.Later f := ⟨.refl _, List.Subset.refl _, rfl, rfl⟩

theorem Later.trans {f f' f'' : Forwarding} (h : f.Later f') (h' : f'.Later f'') : f.Later f'' where
  grows := h.grows.trans h'.grows
  found := List.Subset.trans h.found h'.found
  source := h'.source.trans h.source
  destination := h'.destination.trans h.destination

namespace Sound

variable {doomed assured : GroupCursor → Prop} {f : Forwarding}

/-- Other hands work on the store. -/
theorem elsewhere {s : Store} (h : Sound doomed assured f)
    (hbehind : Behind s f.destination.track f.forwarder.closed f.made) (hgrows : f.store.Grows s)
    (hspares : ∀ e ∈ f.made, Store.Spares e.group f.store s)
    (halive : ∀ e, (s.track f.source).ending ≠ some (.aborted e))
    (hdistinct : ((f.announced ++ (f.store.track f.source).announces (s.track f.source)).map
      GroupEntry.sequence).Nodup)
    (hbounded : ∀ e ∈ (f.store.track f.source).announces (s.track f.source),
      e.sequence ≤ Varint.compactMaximum) :
    Sound doomed assured { f with
      store := s
      announced := f.announced ++ (f.store.track f.source).announces (s.track f.source) } := by
  obtain ⟨flights, hdeliveries, haloft⟩ := h.aloft
  refine ⟨hbehind, h.apart, h.found.later halive hdistinct, fun e he => ?_, fun c hc => ?_, ?_, h.idle⟩
  · exact (List.mem_append.mp he).elim (h.bounded e) (hbounded e)
  · exact (h.seeks c hc).later h.found hdistinct
  · exact ⟨flights, hdeliveries, haloft.later hgrows hspares⟩

theorem publish (h : Sound doomed assured f) {op : Operation} (hop : f.Published op) :
    ∃ f', f.next (.publish op) = .ok f' ∧ Sound doomed assured f' ∧ f.Later f' := by
  obtain ⟨hbehind, hspares⟩ := h.behind.perform hop.elsewhere hop.track
  have halive := Operation.track_unaborted h.found.alive hop.unaborted
  exact ⟨_, rfl, h.elsewhere hbehind (op.grows f.store) hspares halive hop.distinct hop.bounded,
    ⟨op.grows f.store, List.Subset.refl _, rfl, rfl⟩⟩

theorem accept (h : Sound doomed assured f) (limit : Nat) {others : Holdings}
    (due : Nat → Span) (hattended : f.Attended others) :
    ∃ f', f.next (.accept limit others due) = .ok f' ∧ Sound doomed assured f' ∧ f.Later f' ∧
      f'.store = f.store ∧ f'.announced = f.announced ∧
      ((f.store.track f.source).ending ≠ none → (f.store.track f.source).retained.length < limit →
        f'.forwarder.source = none) := by
  have hwritten : (f.store.track f.source).ending = none →
      .trackWriter f.source ∈ others ++ f.forwarder.holdings := fun hopen =>
    List.mem_append_left _ (hattended.track hopen)
  obtain ⟨source, heq, haccepted⟩ := Forwarder.acceptWithin_accepted due limit f.forwarder h.found
    h.seeks hwritten
  obtain ⟨flights, hdeliveries, haloft⟩ := h.aloft
  have hfresh : ∀ g ∈ f.forwarder.finds limit f.store (others ++ f.forwarder.holdings),
      g.position = 0 ∧ g.active = none := fun g hg =>
    haccepted.sound.fresh (List.mem_append_right f.found hg)
  have hnext : f.next (.accept limit others due) = .ok { f with
      forwarder := f.forwarder.taking due source
        (f.forwarder.finds limit f.store (others ++ f.forwarder.holdings))
      found := f.found ++ f.forwarder.finds limit f.store (others ++ f.forwarder.holdings) } := by
    simp only [next, heq]
    rfl
  refine ⟨_, hnext, ⟨h.behind, h.apart, haccepted.sound, h.bounded, haccepted.seeks, ?_, ?_⟩,
    ⟨.refl _, List.subset_append_left _ _, rfl, rfl⟩, rfl, rfl, haccepted.source_eq⟩
  · refine ⟨_, ?_, haloft.take haccepted.sound.once hfresh due⟩
    rw [List.map_append, List.map_map, ← hdeliveries]
    rfl
  · intro hclosed
    obtain ⟨hsource, hnothing⟩ := h.idle hclosed
    have hsame : f.forwarder.acceptWithin limit f.store (others ++ f.forwarder.holdings) due =
        .ok f.forwarder := by
      rw [Forwarder.acceptWithin, hsource]
    have htaking := Except.ok.inj (heq.symm.trans hsame)
    exact ⟨(congrArg Forwarder.source htaking).trans hsource,
      (congrArg Forwarder.deliveries htaking).trans hnothing⟩

/-- What is left when the delivery at a place went on. -/
structure Delivered (f : Forwarding) (place : Nat) (room : Option Nat) (d' : Delivery)
    (f' : Forwarding) : Prop where
  deliveries : f'.forwarder.deliveries = f.forwarder.deliveries.set place d'
  due : f.forwarder.deliveries[place]?.map Delivery.due = some d'.due
  source : f'.forwarder.source = f.forwarder.source
  found : f'.found = f.found
  track : f'.store.track f.source = f.store.track f.source
  announced : f'.announced = f.announced
  /-- It works on the group of its number, or makes it. -/
  alters : ∃ n new, f'.made = f.made ++ new ∧
    Delivery.Alters f.destination n f.made f.store f'.store new
  /-- The delivery is done when nothing holds it up. -/
  done : room = none → (∀ g ∈ f.found, ¬ Unfinished f.store g.group) → d'.isDone = true
  /-- When there is room for all its group was made at least. -/
  begun : room = none → d'.receiver ≠ some .opening

theorem deliver (h : Sound doomed assured f) {place : Nat} {others : Holdings} (room : Option Nat)
    {d : Delivery} (hattended : f.Attended others) (hplace : f.forwarder.deliveries[place]? = some d) :
    ∃ f' d', f.next (.deliver place others room) = .ok f' ∧ Sound doomed assured f' ∧ f.Later f' ∧
      Delivered f place room d' f' := by
  obtain ⟨flights, hdeliveries, haloft⟩ := h.aloft
  have hpair := hplace
  rw [hdeliveries, List.getElem?_map] at hpair
  obtain ⟨⟨g, d'⟩, hflight, heq⟩ := Option.map_eq_some_iff.mp hpair
  obtain rfl : d = d' := heq.symm
  have hmem := List.mem_of_getElem? hflight
  have hg : g ∈ f.found := haloft.among (List.mem_map_of_mem hmem)
  have hopen : f.forwarder.closed = false := by
    refine Bool.eq_false_iff.mpr fun hclosed => ?_
    rw [(h.idle hclosed).2] at hplace
    cases hplace
  have hbehind := h.behind
  rw [hopen] at hbehind
  obtain ⟨e, he, hcursor⟩ := List.mem_map.mp (h.found.among hg)
  have hle : g.sequence ≤ Varint.compactMaximum := hcursor ▸ h.bounded e he
  obtain ⟨hd, hencode⟩ := encode_header hle f.destination.info.priority
  have hread : ∀ st, d.sender = some st →
      .groupCursor st.cursor.group ∈ f.forwarder.holdings ++ others := by
    intro st hst
    refine List.mem_append_left _ (List.mem_append_right _ ?_)
    refine List.mem_flatMap.mpr ⟨d, List.mem_of_getElem? hplace, List.mem_append_left _ ?_⟩
    rw [hst]
    exact List.mem_cons_self
  obtain ⟨new, halters, hcarries, hdone, hbegun⟩ := (haloft.carries _ hmem).poll room rfl hencode
    (haloft.aborted g) hread (fun hopen => List.mem_append_right _ (hattended.group g hg hopen))
    hbehind.createGroup_ok
  have heffects := h.behind.alters halters
  have hnext : f.next (.deliver place others room) = .ok { f with
      store := (d.pollWithin room f.destination f.store (f.forwarder.holdings ++ others)).2
      forwarder := { f.forwarder with
        deliveries := f.forwarder.deliveries.set place
          (d.pollWithin room f.destination f.store (f.forwarder.holdings ++ others)).1 }
      made := f.made ++ new } := by
    simp only [next, Forwarder.deliverWithin, hplace, ← heffects.announces]
    rfl
  have hsame := heffects.others f.source h.apart
  refine ⟨_, _, hnext, ⟨heffects.behind, h.apart, ?_, h.bounded, ?_, ?_, ?_⟩,
    ⟨heffects.grows, List.Subset.refl _, rfl, rfl⟩,
    ⟨rfl, ?_, rfl, rfl, hsame, rfl, ⟨g.sequence, new, rfl, halters⟩,
      fun hroom hall => hdone hroom (hall g hg), hbegun⟩⟩
  · exact h.found.same hsame
  · exact fun c hc => (h.seeks c hc).same hsame
  · refine ⟨_, ?_, haloft.deliver h.found.once hflight heffects hcarries⟩
    rw [List.map_set, hdeliveries]
  · intro hclosed
    cases hopen.symm.trans hclosed
  · rw [hplace]
    exact congrArg some (Delivery.pollWithin_due room _ _ _ d).symm

theorem dropDone (h : Sound doomed assured f) :
    ∃ f', f.next .dropDone = .ok f' ∧ Sound doomed assured f' ∧ f.Later f' ∧
      f'.forwarder = f.forwarder.dropDone := by
  obtain ⟨flights, hdeliveries, haloft⟩ := h.aloft
  refine ⟨_, rfl, ⟨h.behind, h.apart, h.found, h.bounded, h.seeks, ⟨_, ?_, haloft.dropDone⟩,
    fun hclosed => ?_⟩, ⟨.refl _, List.Subset.refl _, rfl, rfl⟩, rfl⟩
  · show f.forwarder.deliveries.filter _ = _
    rw [hdeliveries, List.filter_map]
    rfl
  · obtain ⟨hsource, hnothing⟩ := h.idle hclosed
    refine ⟨hsource, ?_⟩
    show f.forwarder.deliveries.filter _ = _
    rw [hnothing]
    rfl

/-- The end is closed if there is nothing left, and then it is closed for good. -/
theorem finish (h : Sound doomed assured f) :
    ∃ f', f.next .finish = .ok f' ∧ Sound doomed assured f' ∧ f.Later f' ∧
      (f.forwarder.source = none → f.forwarder.deliveries = [] → f'.forwarder.closed = true) := by
  by_cases hready : f.forwarder.closed = false ∧ f.forwarder.source = none ∧
      f.forwarder.deliveries = []
  · obtain ⟨flights, hdeliveries, haloft⟩ := h.aloft
    have hbehind := h.behind
    rw [hready.1] at hbehind
    obtain ⟨s', hclose, hbehind', hgrows, hspares, hothers⟩ := hbehind.close
    have hnext : f.next .finish = .ok { f with
        store := s'
        forwarder := { f.forwarder with closed := true } } := by
      have hclose : f.store.closeTrack f.forwarder.destination = .ok s' := hclose
      simp only [next, Forwarder.finish, if_pos hready, hclose]
      rfl
    have hsame := hothers f.source h.apart
    exact ⟨_, hnext, ⟨hbehind', h.apart, h.found.same hsame, h.bounded,
      fun c hc => (h.seeks c hc).same hsame, ⟨flights, hdeliveries, haloft.later hgrows hspares⟩,
      fun _ => hready.2⟩, ⟨hgrows, List.Subset.refl _, rfl, rfl⟩, fun _ _ => rfl⟩
  · have hnext : f.next .finish = .ok f := by
      simp only [next, Forwarder.finish, if_neg hready]
      rfl
    refine ⟨f, hnext, h, .refl f, fun hsource hnothing => ?_⟩
    cases hclosed : f.forwarder.closed with
    | true => rfl
    | false => exact absurd ⟨hclosed, hsource, hnothing⟩ hready

/-- **A move that is allowed does not fail, and keeps everything.** -/
theorem next (h : Sound doomed assured f) {m : Move} (hallows : f.Allows m) :
    ∃ f', f.next m = .ok f' ∧ Sound doomed assured f' ∧ f.Later f' := by
  cases m with
  | publish op => exact h.publish hallows
  | accept limit others due =>
      obtain ⟨f', hnext, hsound, hlater, -⟩ := h.accept limit due hallows
      exact ⟨f', hnext, hsound, hlater⟩
  | deliver place others room =>
      cases hplace : f.forwarder.deliveries[place]? with
      | some d =>
          obtain ⟨f', d', hnext, hsound, hlater, -⟩ := h.deliver room hallows hplace
          exact ⟨f', hnext, hsound, hlater⟩
      | none => exact ⟨f, next_deliver_none hplace others room, h, .refl f⟩
  | dropDone =>
      obtain ⟨f', hnext, hsound, hlater, -⟩ := h.dropDone
      exact ⟨f', hnext, hsound, hlater⟩
  | finish =>
      obtain ⟨f', hnext, hsound, hlater, -⟩ := h.finish
      exact ⟨f', hnext, hsound, hlater⟩

/-- **So does any orderly run.** -/
theorem run (h : Sound doomed assured f) {ms : List Move} (horderly : f.Orderly ms) :
    ∃ f', f.run ms = .ok f' ∧ Sound doomed assured f' ∧ f.Later f' := by
  induction ms generalizing f with
  | nil => exact ⟨f, rfl, h, .refl f⟩
  | cons m ms ih =>
      obtain ⟨f', hnext, hsound, hlater⟩ := h.next horderly.1
      obtain ⟨last, hrun, hlast, hrest⟩ := ih hsound (horderly.2 f' hnext)
      exact ⟨last, (run_cons hnext ms).trans hrun, hlast, hlater.trans hrest⟩

end Sound

end Forwarding

end LiveMedia.Simulation
