import LiveMedia.Proofs.Live.TrackFollowing
import LiveMedia.Simulation.Forwarder

/-!
# Which groups a forwarder finds

A forwarder asks the cursor of its source until it is given no more, or some other number of times, and
starts a delivery for each group (`Forwarder.acceptWithin`). If no two groups of the source bear the same
number, it finds none of them twice (`Found`): what the cursor may have forgotten has left the window, and
nothing with its number comes again.
-/

namespace LiveMedia.Live

-- ── what a track announces ──────────────────────────────────────────

/-- The entries that a track retains now and did not before. -/
def Track.announces (before after : Track) : List GroupEntry :=
  after.retained.filter fun e => !before.retained.contains e

theorem Track.mem_announces {before after : Track} {e : GroupEntry} (h : e ∈ after.retained) :
    e ∈ before.retained ∨ e ∈ before.announces after := by
  by_cases hbefore : e ∈ before.retained
  · exact .inl hbefore
  · refine .inr (List.mem_filter.mpr ⟨h, ?_⟩)
    rw [Bool.not_eq_true', List.contains_eq_mem, decide_eq_false_iff_not]
    exact hbefore

theorem Track.announces_self (t : Track) : t.announces t = [] := by
  refine List.filter_eq_nil_iff.mpr fun e he => ?_
  rw [List.contains_iff_mem.mpr he]
  exact Bool.false_ne_true

/-- A track that takes a group announces it, and nothing else is new on it. -/
theorem Track.announces_latest {before after : Track} {e : GroupEntry} (h : e ∉ before.retained)
    (hretained : after.retained = latest (before.retained ++ [e])) : before.announces after = [e] := by
  have hlength : (before.retained ++ [e]).length - window ≤ before.retained.length := by
    rw [List.length_append, List.length_singleton]
    show before.retained.length + 1 - 32 ≤ _
    omega
  rw [announces, hretained, latest, List.drop_append_of_le_length hlength, List.filter_append]
  generalize (before.retained ++ [e]).length - window = cut
  have hold : (before.retained.drop cut).filter (fun x => !before.retained.contains x) = [] := by
    refine List.filter_eq_nil_iff.mpr fun x hx => ?_
    rw [List.contains_iff_mem.mpr (List.mem_of_mem_drop hx)]
    exact Bool.false_ne_true
  have hnew : [e].filter (fun x => !before.retained.contains x) = [e] := by
    refine List.filter_eq_self.mpr fun x hx => ?_
    rw [List.mem_singleton.mp hx, Bool.not_eq_true', List.contains_eq_mem, decide_eq_false_iff_not]
    exact h
  rw [hold, hnew]
  rfl

/-- The groups that a cursor is given when it asks so often, or until it is given no more. -/
def Store.newGroups (s : Store) (held : Holdings) : Nat → TrackCursor → List GroupCursor
  | 0, _ => []
  | limit + 1, c => match s.nextGroup held c with
    | (.ok (some g), c) => g :: s.newGroups held limit c
    | _ => []

namespace Store

/-- What a track says to its cursor when it was not aborted and its writer is still there. -/
inductive Answers (s : Store) (c : TrackCursor) :
    Attempt TransportError (Option GroupCursor) × TrackCursor → Prop where
  | pending : (s.track c.track).ending = none → Answers s c (.error .pending, c)
  | ended : Answers s c (.ok none, { c with seen := (s.track c.track).forget c.seen })
  | group {e : GroupEntry} : e ∈ (s.track c.track).retained → e.sequence ∉ c.seen → Answers s c
      (.ok (some e.cursor), { c with seen := (s.track c.track).forget c.seen ++ [e.sequence] })

theorem nextGroup_answers {s : Store} {c : TrackCursor} {held : Holdings}
    (halive : ∀ e, (s.track c.track).ending ≠ some (.aborted e))
    (hwritten : (s.track c.track).ending = none → .trackWriter c.track ∈ held) :
    s.Answers c (s.nextGroup held c) := by
  have htells := (s.track c.track).tells_nextGroup c.seen
  rw [nextGroup]
  generalize (s.track c.track).nextGroup c.seen = x at htells
  cases htells with
  | aborted hending => exact absurd hending (halive _)
  | pending hopen _ =>
      have hheld : held.writesTrack c.track = true := List.contains_iff_mem.mpr (hwritten hopen)
      simp only [Attempt.pending, orDropped, hheld, if_true]
      exact .pending hopen
  | ended _ _ => exact .ended
  | group _ hsplit _ hnew =>
      refine .group ?_ hnew
      rw [hsplit]
      exact List.mem_append_right _ List.mem_cons_self

end Store

-- ── groups that were found ──────────────────────────────────────────

/-- The groups that a track has announced bear different numbers, and those that were found are among
    them. -/
structure Found (s : Store) (t : TrackId) (announced : List GroupEntry) (found : List GroupCursor) :
    Prop where
  alive : ∀ e, (s.track t).ending ≠ some (.aborted e)
  distinct : (announced.map GroupEntry.sequence).Nodup
  retained : (s.track t).retained ⊆ announced
  among : found ⊆ announced.map GroupEntry.cursor
  once : (found.map GroupCursor.sequence).Nodup

/-- A cursor of the track remembers every number that was found and is still retained. -/
structure Seeks (s : Store) (t : TrackId) (found : List GroupCursor) (c : TrackCursor) : Prop where
  track_eq : c.track = t
  seen : ∀ e ∈ (s.track t).retained, e.sequence ∈ found.map GroupCursor.sequence →
    e.sequence ∈ c.seen

section Found

variable {s s' : Store} {t : TrackId} {announced more : List GroupEntry} {found : List GroupCursor}
  {c : TrackCursor}

theorem Found.sequences_subset (h : Found s t announced found) :
    found.map GroupCursor.sequence ⊆ announced.map GroupEntry.sequence := by
  intro n hn
  obtain ⟨g, hg, rfl⟩ := List.mem_map.mp hn
  obtain ⟨e, he, rfl⟩ := List.mem_map.mp (h.among hg)
  exact List.mem_map.mpr ⟨e, he, rfl⟩

/-- A cursor that is found stands at the start of its group. -/
theorem Found.fresh (h : Found s t announced found) {g : GroupCursor} (hg : g ∈ found) :
    g.position = 0 ∧ g.active = none := by
  obtain ⟨e, -, rfl⟩ := List.mem_map.mp (h.among hg)
  exact ⟨rfl, rfl⟩

/-- The store changes, but not the track. -/
theorem Found.same (h : Found s t announced found) (hsame : s'.track t = s.track t) :
    Found s' t announced found :=
  ⟨hsame ▸ h.alive, h.distinct, hsame ▸ h.retained, h.among, h.once⟩

theorem Seeks.same (h : Seeks s t found c) (hsame : s'.track t = s.track t) : Seeks s' t found c :=
  ⟨h.track_eq, hsame ▸ h.seen⟩

/-- The track goes on. -/
theorem Found.later (h : Found s t announced found)
    (halive : ∀ e, (s'.track t).ending ≠ some (.aborted e))
    (hdistinct : ((announced ++ (s.track t).announces (s'.track t)).map GroupEntry.sequence).Nodup) :
    Found s' t (announced ++ (s.track t).announces (s'.track t)) found := by
  refine ⟨halive, hdistinct, fun e he => ?_, fun g hg => ?_, h.once⟩
  · rcases Track.mem_announces he with he | he
    · exact List.mem_append_left _ (h.retained he)
    · exact List.mem_append_right _ he
  · rw [List.map_append]
    exact List.mem_append_left _ (h.among hg)

/-- No group that is announced later bears the number of one that was found. -/
theorem Seeks.later (h : Seeks s t found c) (hfound : Found s t announced found)
    (hdistinct : ((announced ++ (s.track t).announces (s'.track t)).map GroupEntry.sequence).Nodup) :
    Seeks s' t found c := by
  refine ⟨h.track_eq, fun e he hn => ?_⟩
  rcases Track.mem_announces he with he | he
  · exact h.seen e he hn
  · rw [List.map_append] at hdistinct
    exact absurd (hfound.sequences_subset hn) fun hold =>
      (List.nodup_append.mp hdistinct).2.2 _ hold _ (List.mem_map_of_mem he) rfl

/-- A group that the cursor did not know was not found before. -/
theorem Found.take (h : Found s t announced found) (hc : Seeks s t found c) {e : GroupEntry}
    (he : e ∈ (s.track t).retained) (hnew : e.sequence ∉ c.seen) :
    Found s t announced (found ++ [e.cursor]) ∧ Seeks s t (found ++ [e.cursor])
      { c with seen := (s.track t).forget c.seen ++ [e.sequence] } := by
  have hunknown : e.sequence ∉ found.map GroupCursor.sequence := fun hn => hnew (hc.seen e he hn)
  refine ⟨⟨h.alive, h.distinct, h.retained, ?_, ?_⟩, hc.track_eq, fun e' he' hn => ?_⟩
  · refine List.append_subset.mpr ⟨h.among, fun g hg => ?_⟩
    obtain rfl := List.mem_singleton.mp hg
    exact List.mem_map_of_mem (h.retained he)
  · rw [List.map_append]
    refine List.nodup_append.mpr ⟨h.once, List.nodup_singleton _, fun n hn m hm heq => ?_⟩
    obtain rfl := List.mem_singleton.mp hm
    rw [heq] at hn
    exact hunknown hn
  · rw [List.map_append] at hn
    rcases List.mem_append.mp hn with hn | hn
    · exact List.mem_append_left _ ((Track.mem_forget_iff _ he').mpr (hc.seen e' he' hn))
    · exact List.mem_append_right _ hn

end Found

end LiveMedia.Live

namespace LiveMedia.Simulation

open LiveMedia.Time LiveMedia.Live

namespace Forwarder

-- ── asking so often ─────────────────────────────────────────────────

/-- Asks the source at most so often. -/
def acceptWithin (limit : Nat) (store : Store) (held : Holdings) (due : Nat → Span)
    (f : Forwarder) : Except TransportError Forwarder :=
  match f.source with
  | some cursor => f.acceptFrom store held due limit cursor
  | none => .ok f

/-- The groups that the source gives when it is asked so often. -/
def finds (limit : Nat) (store : Store) (held : Holdings) (f : Forwarder) : List GroupCursor :=
  match f.source with
  | some cursor => store.newGroups held limit cursor
  | none => []

/-- How often a forwarder asks: more often than there can be new groups. -/
def patience (store : Store) (f : Forwarder) : Nat :=
  match f.source with
  | some cursor => (store.track cursor.track).retained.length + 2
  | none => 0

theorem acceptWithin_patience (store : Store) (held : Holdings) (due : Nat → Span) (f : Forwarder) :
    f.acceptWithin (f.patience store) store held due = f.accept store held due := by
  unfold acceptWithin patience accept
  cases f.source with
  | none => rfl
  | some cursor => rfl

/-- A forwarder that has found groups: it delivers them, and goes on with this source. -/
def taking (f : Forwarder) (due : Nat → Span) (source : Option TrackCursor) (new : List GroupCursor) :
    Forwarder :=
  { f with
    source
    deliveries := f.deliveries ++ new.map fun g => .start (due g.sequence) g f.destination }

/-- What is known when the source was asked at most `limit` times. -/
structure Accepted (s : Store) (t : TrackId) (announced : List GroupEntry) (found : List GroupCursor)
    (limit : Nat) (source : Option TrackCursor) (new : List GroupCursor) : Prop where
  sound : Found s t announced (found ++ new)
  seeks : ∀ c, source = some c → Seeks s t (found ++ new) c
  retained : new ⊆ (s.track t).retained.map GroupEntry.cursor
  /-- If the track has ended, the source ends unless it is not asked often enough. -/
  ends : (s.track t).ending = none ∨ new.length = limit ∨ source = none

section Accept

variable {s : Store} {t : TrackId} {announced : List GroupEntry} {found : List GroupCursor}
  {held : Holdings} {c : TrackCursor}

/-- The source gave nothing new. -/
theorem Accepted.nothing {limit : Nat} {source : Option TrackCursor}
    (hfound : Found s t announced found) (hseeks : ∀ c, source = some c → Seeks s t found c)
    (hends : (s.track t).ending = none ∨ 0 = limit ∨ source = none) :
    Accepted s t announced found limit source [] :=
  ⟨(List.append_nil found).symm ▸ hfound, (List.append_nil found).symm ▸ hseeks, List.nil_subset _,
    hends⟩

theorem taking_nil (f : Forwarder) (due : Nat → Span) (source : Option TrackCursor) :
    f.taking due source [] = { f with source } := by
  rw [taking, List.map_nil, List.append_nil]

theorem acceptFrom_accepted (due : Nat → Span) (limit : Nat) (f : Forwarder)
    (hfound : Found s t announced found) (hseeks : Seeks s t found c)
    (hwritten : (s.track t).ending = none → .trackWriter t ∈ held) :
    ∃ source, f.acceptFrom s held due limit c = .ok (f.taking due source (s.newGroups held limit c)) ∧
      Accepted s t announced found limit source (s.newGroups held limit c) := by
  induction limit generalizing f found c with
  | zero =>
      refine ⟨some c, ?_, .nothing hfound ?_ (.inr (.inl rfl))⟩
      · rw [acceptFrom, Store.newGroups, taking_nil]
      · rintro _ ⟨⟩
        exact hseeks
  | succ limit ih =>
      obtain rfl := hseeks.track_eq
      have hanswer := Store.nextGroup_answers hfound.alive hwritten
      rw [acceptFrom, Store.newGroups]
      generalize s.nextGroup held c = x at hanswer
      cases hanswer with
      | pending hopen =>
          refine ⟨some c, congrArg _ (taking_nil f due _).symm, .nothing hfound ?_ (.inl hopen)⟩
          rintro _ ⟨⟩
          exact hseeks
      | ended =>
          refine ⟨none, congrArg _ (taking_nil f due _).symm, .nothing hfound ?_ (.inr (.inr rfl))⟩
          rintro _ ⟨⟩
      | @group e he hnew =>
          obtain ⟨htaken, hknown⟩ := hfound.take hseeks he hnew
          obtain ⟨source, heq, hrest⟩ := ih
            { f with
              deliveries := f.deliveries ++ [.start (due e.cursor.sequence) e.cursor f.destination] }
            htaken hknown
          refine ⟨source, ?_, ⟨?_, ?_, ?_, ?_⟩⟩
          · refine Eq.trans heq ?_
            simp only [taking, List.map_cons, List.append_assoc, List.singleton_append]
          · exact (List.append_cons found e.cursor _).symm ▸ hrest.sound
          · exact fun c hc => (List.append_cons found e.cursor _).symm ▸ hrest.seeks c hc
          · exact List.cons_subset.mpr ⟨List.mem_map_of_mem he, hrest.retained⟩
          · exact hrest.ends.imp_right (Or.imp_left (congrArg Nat.succ))

/-- **What a forwarder finds it has not found before, and it starts a delivery for it.** -/
theorem acceptWithin_accepted (due : Nat → Span) (limit : Nat) (f : Forwarder)
    (hfound : Found s t announced found) (hseeks : ∀ c, f.source = some c → Seeks s t found c)
    (hwritten : (s.track t).ending = none → .trackWriter t ∈ held) :
    ∃ source, f.acceptWithin limit s held due = .ok (f.taking due source (f.finds limit s held)) ∧
      Accepted s t announced found limit source (f.finds limit s held) := by
  unfold acceptWithin finds
  cases hsource : f.source with
  | some c => exact acceptFrom_accepted due limit f hfound (hseeks c hsource) hwritten
  | none =>
      refine ⟨none, ?_, .nothing hfound ?_ (.inr (.inr rfl))⟩
      · show Except.ok f = .ok (f.taking due none [])
        rw [taking_nil, ← hsource]
      · rintro _ ⟨⟩

/-- Asked often enough, the source of a track that has ended ends. -/
theorem Accepted.source_eq {limit : Nat} {source : Option TrackCursor} {new : List GroupCursor}
    (h : Accepted s t announced found limit source new) (hended : (s.track t).ending ≠ none)
    (hlimit : (s.track t).retained.length < limit) : source = none := by
  rcases h.ends with hopen | hlength | hnone
  · exact absurd hopen hended
  · have hnodup : (new.map GroupCursor.sequence).Nodup := by
      have honce := h.sound.once
      rw [List.map_append] at honce
      exact (List.nodup_append.mp honce).2.1
    have hle := (List.subperm_of_subset (List.Nodup.of_map _ hnodup) h.retained).length_le
    rw [List.length_map, hlength] at hle
    exact absurd hle (Nat.not_le_of_lt hlimit)
  · exact hnone

end Accept

end Forwarder

end LiveMedia.Simulation
