import LiveMedia.Proofs.Live.Announcement
import LiveMedia.Proofs.Live.Growth
import Mathlib.Data.List.Sort

/-!
# Readers follow a track

Readers of one track are made at any time, are forked, and ask for groups while writers go on. Beside
its cursor a follower keeps what it was given; a fork starts with what the follower it was forked from
had been given. `TrackFollows` says how memory, window and gifts belong together. A reader remembers only
numbers of groups that it was given, and of what the track retains it remembers every group up to the
youngest that it was given. The second part is what makes it safe to forget: a number is forgotten when
no retained group bears it, and a group that bears it later is younger than all before.

So readers go forward only. When they wait or have come to the end, nothing that the track retains bears
a number which they were not given.
-/

namespace LiveMedia.Live

-- ── one look at a track ─────────────────────────────────────────────

namespace Track

/-- What a reader that remembers `seen` is told by a track, and what it remembers afterwards. -/
inductive Tells (t : Track) (seen : List Nat) :
    Attempt TransportError (Option GroupEntry) × List Nat → Prop where
  | aborted {e : TransportError} : t.ending = some (.aborted e) → Tells t seen (.failure e, seen)
  | pending : t.ending = none → (∀ e ∈ t.retained, e.sequence ∈ seen) →
      Tells t seen (.pending, seen)
  | ended : t.ending = some .complete → (∀ e ∈ t.retained, e.sequence ∈ seen) →
      Tells t seen (.ok none, t.forget seen)
  | group {front back : List GroupEntry} {e : GroupEntry} :
      (∀ err, t.ending ≠ some (.aborted err)) →
      t.retained = front ++ e :: back → (∀ x ∈ front, x.sequence ∈ seen) → e.sequence ∉ seen →
      Tells t seen (.ok (some e), t.forget seen ++ [e.sequence])

/-- Of the groups in the window nothing is forgotten. -/
theorem mem_forget_iff (t : Track) {seen : List Nat} {e : GroupEntry} (he : e ∈ t.retained) :
    e.sequence ∈ t.forget seen ↔ e.sequence ∈ seen := by
  have hretains : t.retains e.sequence = true :=
    List.any_eq_true.mpr ⟨e, he, beq_self_eq_true _⟩
  rw [forget]
  split
  · rw [List.mem_filter]
    exact and_iff_left hretains
  · rfl

theorem forget_sublist (t : Track) (seen : List Nat) : (t.forget seen).Sublist seen := by
  rw [forget]
  split
  · exact List.filter_sublist
  · exact List.Sublist.refl _

/-- A memory that was too large is cut down to the window. -/
theorem length_forget (t : Track) {seen : List Nat} (hnodup : seen.Nodup)
    (hwindow : t.retained.length ≤ window) : (t.forget seen).length ≤ 2 * window := by
  rw [forget]
  split
  · have hsubset : seen.filter t.retains ⊆ t.retained.map GroupEntry.sequence := by
      intro n hn
      obtain ⟨e, he, heq⟩ := List.any_eq_true.mp (List.mem_filter.mp hn).2
      exact List.mem_map.mpr ⟨e, he, beq_iff_eq.mp heq⟩
    have hle := (List.subperm_of_subset (hnodup.filter _) hsubset).length_le
    rw [List.length_map] at hle
    omega
  · omega

/-- The first group that is new to the memory after the cut is the first that was new before. -/
theorem find?_forget_eq_some {t : Track} {seen : List Nat} {e : GroupEntry}
    (h : (t.retained.find? fun x => !(t.forget seen).contains x.sequence) = some e) :
    ∃ front back, t.retained = front ++ e :: back ∧ (∀ x ∈ front, x.sequence ∈ seen) ∧
      e.sequence ∉ seen := by
  obtain ⟨hnew, front, back, hsplit, hfront⟩ := List.find?_eq_some_iff_append.mp h
  refine ⟨front, back, hsplit, fun x hx => ?_, fun hseen => ?_⟩
  · have hmem : x ∈ t.retained := hsplit ▸ List.mem_append_left _ hx
    have hseen := hfront x hx
    rw [Bool.not_not, List.contains_iff_mem] at hseen
    exact (t.mem_forget_iff hmem).mp hseen
  · have he : e ∈ t.retained := hsplit ▸ List.mem_append_right _ List.mem_cons_self
    rw [Bool.not_eq_true', List.contains_eq_mem, decide_eq_false_iff_not] at hnew
    exact hnew ((t.mem_forget_iff he).mpr hseen)

theorem find?_forget_eq_none {t : Track} {seen : List Nat}
    (h : (t.retained.find? fun x => !(t.forget seen).contains x.sequence) = none) :
    ∀ e ∈ t.retained, e.sequence ∈ seen := by
  intro e he
  have hseen := List.find?_eq_none.mp h e he
  rw [Bool.not_eq_true, Bool.not_eq_false', List.contains_iff_mem] at hseen
  exact (t.mem_forget_iff he).mp hseen

theorem tells_nextGroup (t : Track) (seen : List Nat) : Tells t seen (t.nextGroup seen) := by
  rw [nextGroup]
  split
  · next e hending => exact .aborted hending
  · next halive =>
    split
    · next hwait =>
      obtain ⟨hopen, hall⟩ := Bool.and_eq_true_iff.mp hwait
      refine .pending (Option.isNone_iff_eq_none.mp hopen) ?_
      intro e he
      exact List.contains_iff_mem.mp (List.all_eq_true.mp hall e he)
    · next hgo =>
      dsimp only
      split
      · next e hfound =>
        obtain ⟨front, back, hsplit, hfront, hnew⟩ := find?_forget_eq_some hfound
        exact .group halive hsplit hfront hnew
      · next hfound =>
        have hall := find?_forget_eq_none hfound
        have hcontains : (t.retained.all fun e => seen.contains e.sequence) = true :=
          List.all_eq_true.mpr fun e he => List.contains_iff_mem.mpr (hall e he)
        -- an open track would have been found to have nothing new
        cases hending : t.ending with
        | none =>
            rw [hending] at hgo
            exact absurd (Bool.and_eq_true_iff.mpr ⟨rfl, hcontains⟩) hgo
        | some ending =>
            cases ending with
            | complete => exact .ended hending hall
            | aborted err => exact absurd hending (halive err)

end Track

/-- Everything that the track retains is known to the reader. -/
def TrackCursor.CaughtUp (c : TrackCursor) (s : Store) : Prop :=
  ∀ e ∈ (s.track c.track).retained, e.sequence ∈ c.seen

/-- What a track that was not aborted answers to its cursor, and the cursor afterwards. -/
inductive Store.Tells (s : Store) (c : TrackCursor) :
    Attempt TransportError (Option GroupCursor) × TrackCursor → Prop where
  | pending : c.CaughtUp s → Store.Tells s c (.pending, c)
  | dropped : c.CaughtUp s → Store.Tells s c (.failure .dropped, c)
  | ended : c.CaughtUp s →
      Store.Tells s c (.ok none, { c with seen := (s.track c.track).forget c.seen })
  | group {front back : List GroupEntry} {e : GroupEntry} :
      (s.track c.track).retained = front ++ e :: back → (∀ x ∈ front, x.sequence ∈ c.seen) →
      e.sequence ∉ c.seen → Store.Tells s c
        (.ok (some e.cursor), { c with seen := (s.track c.track).forget c.seen ++ [e.sequence] })

theorem Store.nextGroup_aborted {s : Store} {c : TrackCursor} {e : TransportError}
    (h : (s.track c.track).ending = some (.aborted e)) (held : Holdings) :
    s.nextGroup held c = (.failure e, c) := by
  simp only [Store.nextGroup, Track.nextGroup, h]
  rfl

theorem Store.trackOutcome_aborted {s : Store} {c : TrackCursor} {e : TransportError}
    (h : (s.track c.track).ending = some (.aborted e)) (held : Holdings) :
    s.trackOutcome held c = .failure e := by
  rw [Store.trackOutcome, Track.outcome, h]
  rfl

theorem Store.tells_nextGroup {s : Store} {c : TrackCursor}
    (h : ∀ e, (s.track c.track).ending ≠ some (.aborted e)) (held : Holdings) :
    s.Tells c (s.nextGroup held c) := by
  have htells := (s.track c.track).tells_nextGroup c.seen
  rw [Store.nextGroup]
  generalize (s.track c.track).nextGroup c.seen = x at htells
  cases htells with
  | aborted hending => exact absurd hending (h _)
  | pending _ hall =>
      cases hwritten : held.writesTrack c.track with
      | true => exact .pending hall
      | false => exact .dropped hall
  | ended _ hall => exact .ended hall
  | group _ hsplit hfront hnew => exact .group hsplit hfront hnew

/-- Nobody is told of a failure but that of an aborted track, or that the writers are gone. -/
theorem Store.failure_of_nextGroup {s : Store} {c : TrackCursor} {held : Holdings}
    {e : TransportError} (h : (s.nextGroup held c).1 = .failure e) :
    e = .dropped ∨ (s.track c.track).ending = some (.aborted e) := by
  by_cases halive : ∀ e, (s.track c.track).ending ≠ some (.aborted e)
  · have htells := Store.tells_nextGroup halive held
    generalize s.nextGroup held c = x at h htells
    cases htells with
    | dropped _ => exact .inl (Halt.failed.inj (Except.error.inj h)).symm
    | pending _ => cases h
    | ended _ => cases h
    | group _ _ _ => cases h
  · obtain ⟨err, herr⟩ := not_forall.mp halive
    have hending : (s.track c.track).ending = some (.aborted err) := not_not.mp herr
    rw [Store.nextGroup_aborted hending held] at h
    obtain rfl : err = e := Halt.failed.inj (Except.error.inj h)
    exact .inr hending

/-- Who is told to wait, that there is no more, or that the writers are gone, has caught up. A track that
    was aborted as dropped says so even to a reader that has not. -/
theorem Store.caughtUp_of_nextGroup {s : Store} {c : TrackCursor} (held : Holdings)
    (h : (s.nextGroup held c).1 = .pending ∨ (s.nextGroup held c).1 = .ok none ∨
      ((s.nextGroup held c).1 = .failure .dropped ∧
        (s.track c.track).ending ≠ some (.aborted .dropped))) : c.CaughtUp s := by
  by_cases halive : ∀ e, (s.track c.track).ending ≠ some (.aborted e)
  · have htells := Store.tells_nextGroup halive held
    generalize s.nextGroup held c = x at h htells
    cases htells with
    | pending hall => exact hall
    | dropped hall => exact hall
    | ended hall => exact hall
    | group _ _ _ => rcases h with h | h | ⟨h, -⟩ <;> exact nomatch h
  · obtain ⟨e, he⟩ := not_forall.mp halive
    have hending : (s.track c.track).ending = some (.aborted e) := not_not.mp he
    rw [Store.nextGroup_aborted hending held] at h
    rcases h with h | h | ⟨h, hnot⟩
    · exact nomatch h
    · exact nomatch h
    · obtain rfl : e = .dropped := Halt.failed.inj (Except.error.inj h)
      exact absurd hending hnot

-- ── followers ───────────────────────────────────────────────────────

/-- A cursor of a track, and the groups that it was given; a fork was given what the other had been
    given before. -/
structure TrackFollower where
  cursor : TrackCursor
  given : List GroupCursor

/-- The follower asks for the next group, at a time when `held` is held. -/
def TrackFollower.next (r : TrackFollower) (s : Store) (held : Holdings) : TrackFollower :=
  match s.nextGroup held r.cursor with
  | (.ok (some g), cursor) => ⟨cursor, r.given ++ [g]⟩
  | (_, cursor) => ⟨cursor, r.given⟩

/-- A track with its followers. -/
structure TrackFollowing where
  history : TrackHistory
  followers : List TrackFollower

namespace TrackFollowing

/-- One thing that happens to a track with its followers. -/
inductive Move where
  | call (c : TrackCall)
  /-- A writer makes a new follower. -/
  | subscribe
  | fork (follower : Nat)
  | next (follower : Nat) (held : Holdings)

/-- A new track, with no follower yet. -/
def start (s : Store) (info : TrackInfo) : TrackFollowing := ⟨.start s info, []⟩

def after (f : TrackFollowing) (t : TrackWriter) : Move → TrackFollowing
  | .call c => { f with history := f.history.call t c }
  | .subscribe => { f with followers := f.followers ++ [⟨t.cursor, []⟩] }
  | .fork i => { f with followers := f.followers ++ f.followers[i]?.toList }
  | .next i held => { f with followers := f.followers.modify i fun r => r.next f.history.store held }

def run (f : TrackFollowing) (t : TrackWriter) : List Move → TrackFollowing
  | [] => f
  | m :: ms => (f.after t m).run t ms

end TrackFollowing

/-- What a follower remembers and was given, against what the track retains. -/
structure TrackFollows (t : TrackWriter) (h : TrackHistory) (r : TrackFollower) : Prop where
  track_eq : r.cursor.track = t.track
  seen_nodup : r.cursor.seen.Nodup
  length_seen : r.cursor.seen.length ≤ 2 * Track.window + 1
  created : ∀ g ∈ r.given, g ∈ h.created.map GroupEntry.cursor
  ordered : r.given.Pairwise fun a b => a.group < b.group
  /-- Only what was given is remembered. -/
  remembered : ∀ n ∈ r.cursor.seen, ∃ g ∈ r.given, g.sequence = n
  /-- Nothing that is retained was passed over. -/
  passed : ∀ e ∈ (h.store.track t.track).retained, ∀ g ∈ r.given,
    e.group ≤ g.group → e.sequence ∈ r.cursor.seen

namespace TrackFollows

variable {t : TrackWriter} {h : TrackHistory} {r : TrackFollower}

theorem fresh (t : TrackWriter) (h : TrackHistory) : TrackFollows t h ⟨t.cursor, []⟩ where
  track_eq := rfl
  seen_nodup := List.nodup_nil
  length_seen := Nat.zero_le _
  created _ hg := absurd hg List.not_mem_nil
  ordered := .nil
  remembered _ hn := absurd hn List.not_mem_nil
  passed _ _ _ hg := absurd hg List.not_mem_nil

-- ── while writers go on ─────────────────────────────────────────────

/-- A track may change in all but what it retains. -/
theorem retained_congr (hr : TrackFollows t h r) {s : Store}
    (hretained : (s.track t.track).retained = (h.store.track t.track).retained) :
    TrackFollows t { h with store := s } r where
  track_eq := hr.track_eq
  seen_nodup := hr.seen_nodup
  length_seen := hr.length_seen
  created := hr.created
  ordered := hr.ordered
  remembered := hr.remembered
  passed e he := hr.passed e (hretained ▸ he)

/-- A group that is created is younger than all that were given. -/
theorem create (hr : TrackFollows t h r) (ha : Announced t h) (sequence : Nat) :
    TrackFollows t (h.call t (.create sequence)) r := by
  have hafter := ha.create sequence
  revert hafter
  show Announced t (h.record (h.store.createGroup t sequence)) →
    TrackFollows t (h.record (h.store.createGroup t sequence)) r
  cases hcreate : h.store.createGroup t sequence with
  | error e =>
      intro _
      exact hr
  | ok made =>
      obtain ⟨g, s⟩ := made
      obtain ⟨rfl, -⟩ := Store.createGroup_eq_ok hcreate
      intro hafter
      refine ⟨hr.track_eq, hr.seen_nodup, hr.length_seen, ?_, hr.ordered, hr.remembered, ?_⟩
      · intro g hg
        obtain ⟨e, he, rfl⟩ := List.mem_map.mp (hr.created g hg)
        exact List.mem_map_of_mem (List.mem_append_left _ he)
      · intro e he g hg hle
        obtain ⟨e', he', rfl⟩ := List.mem_map.mp (hr.created g hg)
        have hlt : e.group < h.store.groups.size := Nat.lt_of_le_of_lt hle (ha.made e' he')
        have hretained : e ∈ Track.latest
            ((h.store.track t.track).retained ++ [⟨h.store.groups.size, sequence⟩]) := by
          rw [ha.retained_eq, Track.latest_latest_append]
          exact hafter.retained_eq ▸ he
        rcases List.mem_append.mp ((Track.latest_suffix _).mem hretained) with he | he
        · exact hr.passed e he _ hg hle
        · obtain rfl := List.mem_singleton.mp he
          exact absurd hlt (Nat.lt_irrefl _)

theorem call (hr : TrackFollows t h r) (ha : Announced t h) (c : TrackCall) :
    TrackFollows t (h.call t c) r := by
  rcases h.call_cases t c with ⟨sequence, heq⟩ | heq | ⟨ending, heq⟩
  · rw [heq]
    exact hr.create ha sequence
  · rw [heq]
    exact hr
  · rw [heq]
    refine hr.retained_congr ?_
    rw [h.store.track_setTrack_self ha.track_lt]

-- ── asking for a group ──────────────────────────────────────────────

/-- A cursor that was told nothing new may have forgotten what left the window. -/
theorem forget (hr : TrackFollows t h r) : TrackFollows t h
    ⟨{ r.cursor with seen := (h.store.track t.track).forget r.cursor.seen }, r.given⟩ where
  track_eq := hr.track_eq
  seen_nodup := hr.seen_nodup.sublist (Track.forget_sublist _ _)
  length_seen := (Track.forget_sublist _ _).length_le.trans hr.length_seen
  created := hr.created
  ordered := hr.ordered
  remembered n hn := hr.remembered n ((Track.forget_sublist _ _).mem hn)
  passed e he g hg hle := (Track.mem_forget_iff _ he).mpr (hr.passed e he g hg hle)

/-- The first group that is not known is younger than all that were given. -/
theorem take (hr : TrackFollows t h r) (ha : Announced t h) {front back : List GroupEntry}
    {e : GroupEntry} (hsplit : (h.store.track t.track).retained = front ++ e :: back)
    (hfront : ∀ x ∈ front, x.sequence ∈ r.cursor.seen) (hnew : e.sequence ∉ r.cursor.seen) :
    TrackFollows t h ⟨{ r.cursor with
      seen := (h.store.track t.track).forget r.cursor.seen ++ [e.sequence] },
      r.given ++ [e.cursor]⟩ := by
  have he : e ∈ (h.store.track t.track).retained := by
    rw [hsplit]
    exact List.mem_append_right _ List.mem_cons_self
  have hyounger : ∀ g ∈ r.given, g.group < e.group := by
    intro g hg
    by_contra hle
    exact hnew (hr.passed e he g hg (Nat.le_of_not_lt hle))
  have hforgotten := hr.forget
  refine ⟨hr.track_eq, ?_, ?_, ?_, ?_, ?_, ?_⟩
  · have hnot : e.sequence ∉ (h.store.track t.track).forget r.cursor.seen :=
      fun hmem => hnew ((Track.forget_sublist _ _).mem hmem)
    exact List.nodup_append.mpr ⟨hforgotten.seen_nodup, List.nodup_singleton _, fun n hn m hm =>
      fun heq => hnot (List.mem_singleton.mp hm ▸ heq ▸ hn)⟩
  · have hle := (h.store.track t.track).length_forget hr.seen_nodup ha.length_retained
    rw [List.length_append, List.length_singleton]
    exact Nat.succ_le_succ hle
  · intro g hg
    rcases List.mem_append.mp hg with hg | hg
    · exact hr.created g hg
    · obtain rfl := List.mem_singleton.mp hg
      exact List.mem_map_of_mem (ha.mem_created he)
  · refine List.pairwise_append.mpr ⟨hr.ordered, List.pairwise_singleton _ _, ?_⟩
    intro g hg g' hg'
    obtain rfl := List.mem_singleton.mp hg'
    exact hyounger g hg
  · intro n hn
    rcases List.mem_append.mp hn with hn | hn
    · obtain ⟨g, hg, heq⟩ := hforgotten.remembered n hn
      exact ⟨g, List.mem_append_left _ hg, heq⟩
    · obtain rfl := List.mem_singleton.mp hn
      exact ⟨e.cursor, List.mem_append_right _ List.mem_cons_self, rfl⟩
  · intro x hx g hg hle
    rcases List.mem_append.mp hg with hg | hg
    · exact List.mem_append_left _ (hforgotten.passed x hx g hg hle)
    · obtain rfl := List.mem_singleton.mp hg
      -- up to the group itself there are only groups that were passed
      have hordered := ha.retained_ordered
      rw [hsplit] at hordered hx
      rcases List.mem_append.mp hx with hx | hx
      · refine List.mem_append_left _ ((Track.mem_forget_iff _ ?_).mpr (hfront x hx))
        rw [hsplit]
        exact List.mem_append_left _ hx
      · rcases List.mem_cons.mp hx with rfl | hx
        · exact List.mem_append_right _ List.mem_cons_self
        · have hlt := List.rel_of_pairwise_cons (List.pairwise_append.mp hordered).2.1 hx
          exact absurd hle (Nat.not_le_of_lt hlt)

/-- **Who asks for a group goes on following.** -/
theorem next (hr : TrackFollows t h r) (ha : Announced t h) (held : Holdings) :
    TrackFollows t h (r.next h.store held) := by
  obtain ⟨⟨track, info, seen⟩, given⟩ := r
  obtain rfl : track = t.track := hr.track_eq
  rw [TrackFollower.next]
  by_cases halive : ∀ e, (h.store.track t.track).ending ≠ some (.aborted e)
  · have htells := Store.tells_nextGroup (c := ⟨t.track, info, seen⟩) halive held
    generalize h.store.nextGroup held ⟨t.track, info, seen⟩ = x at htells
    cases htells with
    | pending hall => exact hr
    | dropped hall => exact hr
    | ended hall => exact hr.forget
    | group hsplit hfront hnew => exact hr.take ha hsplit hfront hnew
  · obtain ⟨e, he⟩ := not_forall.mp halive
    rw [Store.nextGroup_aborted (c := ⟨t.track, info, seen⟩) (not_not.mp he)]
    exact hr

/-- What is given comes in the order of creation, and nothing comes twice. -/
theorem given_sublist (hr : TrackFollows t h r) (ha : Announced t h) :
    r.given.Sublist (h.created.map GroupEntry.cursor) := by
  have hordered : (h.created.map GroupEntry.cursor).Pairwise fun a b => a.group < b.group :=
    List.pairwise_map.mpr ha.ordered
  have hnodup : r.given.Nodup := hr.ordered.imp fun hlt heq =>
    Nat.ne_of_lt hlt (congrArg GroupCursor.group heq)
  have : Std.Antisymm fun a b : GroupCursor => a.group < b.group :=
    ⟨fun _ _ hlt hgt => absurd hgt (Nat.lt_asymm hlt)⟩
  exact List.sublist_of_subperm_of_pairwise (List.subperm_of_subset hnodup hr.created) hr.ordered
    hordered

end TrackFollows

-- ── runs ────────────────────────────────────────────────────────────

namespace TrackFollowing

/-- The history is kept, and every follower follows it. -/
structure Sound (t : TrackWriter) (f : TrackFollowing) : Prop where
  announced : Announced t f.history
  follows : ∀ r ∈ f.followers, TrackFollows t f.history r

theorem sound_start (s : Store) (info : TrackInfo) : Sound (s.newTrack info).1 (.start s info) :=
  ⟨.start s info, fun _ hr => absurd hr List.not_mem_nil⟩

theorem Sound.after {t : TrackWriter} {f : TrackFollowing} (hf : Sound t f) (m : Move) :
    Sound t (f.after t m) := by
  obtain ⟨ha, hfollowers⟩ := hf
  cases m with
  | call c => exact ⟨ha.call c, fun r hr => (hfollowers r hr).call ha c⟩
  | subscribe => exact ⟨ha, forall_mem_subscribe hfollowers (.fresh t f.history)⟩
  | fork i => exact ⟨ha, forall_mem_copy hfollowers i⟩
  | next i held => exact ⟨ha, forall_mem_modify hfollowers i fun _ hr => hr.next ha held⟩

theorem Sound.run {t : TrackWriter} {f : TrackFollowing} (hf : Sound t f) (ms : List Move) :
    Sound t (f.run t ms) := by
  induction ms generalizing f with
  | nil => exact hf
  | cons m ms ih => exact ih (hf.after m)

/-- **Readers go forward and pass nothing over.** After any moves, with whatever is held then: the groups
    that a reader was given are in the order of their creation and none is there twice; it remembers at
    most one number more than two windows hold; of an aborted track it is told the error, and of no other
    error but that the writers are gone; and when it has to wait, is told that there are no more groups, or
    that the writers are gone, then each number that the track retains is one of a group that it was
    given. -/
theorem cursors_follow_creation (s : Store) (info : TrackInfo) (ms : List Move) :
    let t := (s.newTrack info).1
    let f := (start s info).run t ms
    let track := f.history.store.track t.track
    (f.history.created.map GroupEntry.group).Nodup ∧ ∀ r ∈ f.followers,
      r.given.Sublist (f.history.created.map GroupEntry.cursor) ∧
      r.cursor.seen.Nodup ∧ r.cursor.seen.length ≤ 65 ∧
      ∀ held : Holdings,
        let answer := (f.history.store.nextGroup held r.cursor).1
        (∀ e, track.ending = some (.aborted e) → answer = .failure e) ∧
        (∀ e, answer = .failure e → e = .dropped ∨ track.ending = some (.aborted e)) ∧
        (answer = .pending ∨ answer = .ok none ∨
            (answer = .failure .dropped ∧ track.ending ≠ some (.aborted .dropped)) →
          ∀ e ∈ track.retained, ∃ g ∈ r.given, g.sequence = e.sequence) := by
  intro t f track
  obtain ⟨ha, hfollowers⟩ := (sound_start s info).run ms
  refine ⟨?_, ?_⟩
  · exact List.pairwise_map.mpr (ha.ordered.imp Nat.ne_of_lt)
  · intro r hr
    have hfollows := hfollowers r hr
    refine ⟨hfollows.given_sublist ha, hfollows.seen_nodup, hfollows.length_seen, ?_⟩
    intro held answer
    have htrack : f.history.store.track r.cursor.track = track := by
      rw [hfollows.track_eq]
    refine ⟨?_, ?_, ?_⟩
    · intro e he
      exact congrArg Prod.fst (Store.nextGroup_aborted (htrack ▸ he) held)
    · intro e he
      exact htrack ▸ Store.failure_of_nextGroup he
    · intro hanswer e he
      have hcaught : r.cursor.CaughtUp f.history.store := by
        refine Store.caughtUp_of_nextGroup held ?_
        rw [htrack]
        exact hanswer
      exact hfollows.remembered e.sequence (hcaught e (htrack ▸ he))

/-- A reader is given group 5 and is forked. So many groups follow that group 5 leaves the window, and
    another group 5 is created. The first of the two reads on. -/
def comeback : List Move :=
  [.subscribe, .call (.create 5), .next 0 [.trackWriter 0], .fork 0] ++
    (List.range 32).map (fun n => .call (.create (n + 6))) ++ [.call (.create 5)] ++
    List.replicate 40 (.next 0 [.trackWriter 0])

theorem cursors_follow_creation_comeback :
    let t : TrackWriter := ⟨0, ⟨"video", 0⟩⟩
    let f := (start .empty t.info).run t comeback
    ∃ r, f.followers[0]? = some r ∧
      r.given.map GroupCursor.sequence = 5 :: (List.range 31).map (· + 7) ∧
      r.given.Sublist (f.history.created.map GroupEntry.cursor) ∧
      (f.history.store.nextGroup [.trackWriter 0] r.cursor).1 = .pending ∧
      (f.history.store.track 0).retains 5 = true ∧ ∃ g ∈ r.given, g.sequence = 5 := by
  intro t f
  have hgiven : f.followers[0]?.map (fun r => r.given.map GroupCursor.sequence) =
      some (5 :: (List.range 31).map (· + 7)) := by decide +kernel
  have hwaits : f.followers[0]?.map (fun r =>
      (f.history.store.nextGroup [.trackWriter 0] r.cursor).1) = some .pending := by decide +kernel
  have hretains : (f.history.store.track 0).retains 5 = true := by decide +kernel
  obtain ⟨r, hr, hsequences⟩ := Option.map_eq_some_iff.mp hgiven
  rw [hr] at hwaits
  have hpending := Option.some.inj hwaits
  obtain ⟨-, hall⟩ := cursors_follow_creation .empty t.info comeback
  obtain ⟨hsublist, -, -, hanswer⟩ := hall r (List.mem_of_getElem? hr)
  obtain ⟨e, he, hsequence⟩ := List.any_eq_true.mp hretains
  obtain ⟨g, hg, heq⟩ := (hanswer [.trackWriter 0]).2.2 (.inl hpending) e he
  exact ⟨r, hr, hsequences, hsublist, hpending, hretains, g, hg, heq.trans (beq_iff_eq.mp hsequence)⟩

end TrackFollowing

end LiveMedia.Live
