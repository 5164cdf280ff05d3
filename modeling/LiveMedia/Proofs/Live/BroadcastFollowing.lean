import LiveMedia.Proofs.Live.Footprint
import LiveMedia.Proofs.Live.TrackFollowing

/-!
# Subscriptions

A broadcast has a cursor for each name that is published, and whoever subscribes gets a copy of it. So a
subscription begins where that cursor stood when it was published: it is given what the track retains in the
order of creation, but passes over every group whose number the cursor remembered
(`TrackFollower.given_nexts`). It is complete exactly if there is no such group among those that are retained,
as after `createTrack`, whose cursor was given nothing yet.

`BroadcastFollowing` is a broadcast with everybody around it, and a log of what was published and taken out
again. Three things are kept along every run: the broadcast has for each name what the log says last
(`Sound`), the numbers that a track retains are all different (`Store.Orderly`), and what a reader remembers
are numbers of groups that it was given, all those among them that are still retained
(`TrackFollower.Remembers`). For the last two it is enough to know that a step announces at most one new
group (`Store.Announces`).
-/

namespace LiveMedia.Live

open LiveMedia.Wire

-- ── what is announced in one step ───────────────────────────────────

/-- From one store to the other, a track may have announced one new group. Broadcasts are as they were. -/
structure Store.Announces (s s' : Store) : Prop where
  groups_le : s.groups.size ≤ s'.groups.size
  broadcasts : s'.broadcasts = s.broadcasts
  window : ∀ id, (s'.track id).retained = (s.track id).retained ∨
    ∃ sequence, s.groups.size < s'.groups.size ∧ (s.track id).retains sequence = false ∧
      (s'.track id).retained =
        Track.latest ((s.track id).retained ++ [⟨s.groups.size, sequence⟩])

/-- A track that announces a group retains none of that number. -/
theorem Store.not_retains_of_createGroup {s : Store} {t : TrackWriter} {sequence : Nat}
    {made : GroupWriter × Store} (h : s.createGroup t sequence = .ok made) :
    (s.track t.track).retains sequence = false := by
  cases hretains : (s.track t.track).retains sequence with
  | false => rfl
  | true =>
      cases hending : (s.track t.track).ending with
      | some ending => cases (Store.createGroup_of_ended hending sequence).symm.trans h
      | none => cases (Store.createGroup_of_retained hending hretains).symm.trans h

namespace Store.Announces

variable {s s' : Store}

/-- Tracks are as they were. -/
theorem same (hgroups : s.groups.size ≤ s'.groups.size) (hbroadcasts : s'.broadcasts = s.broadcasts)
    (htracks : s'.tracks = s.tracks) : s.Announces s' where
  groups_le := hgroups
  broadcasts := hbroadcasts
  window id := by
    rw [Store.track, htracks]
    exact .inl rfl

theorem refl (s : Store) : s.Announces s := same (Nat.le_refl _) rfl rfl

theorem confined {base : FrameId} {g : GroupId} (h : Confined base g s s') : s.Announces s' :=
  same (Nat.le_of_eq h.groups_size.symm) h.broadcasts h.tracks

theorem setGroup (id : GroupId) (g : Group) : s.Announces (s.setGroup id g) :=
  same (Nat.le_of_eq (s.size_setGroup id g).symm) rfl rfl

/-- A track may change in all but what it retains. -/
theorem setTrack {id : TrackId} {t : Track} (h : t.retained = (s.track id).retained) :
    s.Announces (s.setTrack id t) where
  groups_le := Nat.le_refl _
  broadcasts := rfl
  window i := by
    by_cases hi : i = id
    · subst hi
      rcases s.track_setTrack_or i t i with heq | heq
      · rw [heq]
        exact .inl h
      · rw [heq]
        exact .inl rfl
    · rw [s.track_setTrack_of_ne hi]
      exact .inl rfl

theorem newTrack (info : TrackInfo) : s.Announces (s.newTrack info).2 where
  groups_le := Nat.le_refl _
  broadcasts := rfl
  window id := by
    rw [Store.track_newTrack]
    exact .inl rfl

theorem settled {α : Type} {x : Except TransportError α} {set : α → Store}
    (h : ∀ a, x = .ok a → s.Announces (set a)) : s.Announces (Operation.settled s (x.map set)) :=
  Operation.settled_map_induction (refl s) h

theorem createGroup {t : TrackWriter} {sequence : Nat} {made : GroupWriter × Store}
    (h : s.createGroup t sequence = .ok made) : s.Announces made.2 := by
  have hnew := Store.not_retains_of_createGroup h
  obtain ⟨g, s'⟩ := made
  obtain ⟨-, rfl⟩ := Store.createGroup_eq_ok h
  have hgroups : s.groups.size < (s.newGroup sequence).2.groups.size := by
    rw [Store.size_newGroup]
    exact Nat.lt_succ_self _
  refine ⟨Nat.le_of_lt hgroups, rfl, fun id => ?_⟩
  by_cases hid : id = t.track
  · subst hid
    rcases (s.newGroup sequence).2.track_setTrack_or t.track _ t.track with heq | heq
    · right
      refine ⟨sequence, hgroups, hnew, ?_⟩
      rw [heq]
    · left
      rw [heq]
      rfl
  · left
    rw [Store.track_setTrack_of_ne _ hid]
    rfl

end Store.Announces

/-- **An operation announces at most one group.** -/
theorem Operation.announces (op : Operation) (s : Store) : s.Announces (op.perform s) := by
  cases op with
  | newFrame size => exact .same (Nat.le_refl _) rfl rfl
  | writeChunk w chunk => exact .settled fun _ _ => .same (Nat.le_refl _) rfl rfl
  | closeFrame w => exact .settled fun _ _ => .same (Nat.le_refl _) rfl rfl
  | abortFrame e w => exact .same (Nat.le_refl _) rfl rfl
  | newGroup sequence =>
      refine .same ?_ rfl rfl
      rw [perform, Store.size_newGroup]
      exact Nat.le_succ _
  | appendFrame g w => exact .settled fun x _ => .setGroup g.group x
  | createFrame g size =>
      exact .settled fun made hmade => .confined (Store.confined_createFrame (w := made.1) hmade)
  | writeFrame g chunks =>
      exact settled_induction (.refl s) fun s' h => .confined (Store.confined_writeFrame h)
  | closeGroup g => exact .settled fun x _ => .setGroup g.group x
  | abortGroup e g =>
      have hframes : Store.Confined 0 g.group s
          ((s.group g.group).frames.foldl (fun s w => s.abortFrame e w) s) :=
        s.confined_abortFrames e g.group fun w _ => Nat.zero_le w.frame
      exact .confined (hframes.trans (.setGroup _))
  | newTrack info => exact .newTrack info
  | createGroup t sequence => exact .settled fun _ hmade => .createGroup hmade
  | closeTrack t =>
      refine .settled fun x hx => ?_
      rw [Track.close_eq_ok hx]
      exact .setTrack rfl
  | abortTrack e t => exact .setTrack rfl

/-- With a number that was not retained the numbers stay different. -/
theorem Track.nodup_latest_append {t : Track} {entry : GroupEntry}
    (h : (t.retained.map GroupEntry.sequence).Nodup) (hnew : t.retains entry.sequence = false) :
    ((latest (t.retained ++ [entry])).map GroupEntry.sequence).Nodup := by
  refine List.Nodup.sublist ((latest_suffix _).sublist.map _) ?_
  rw [List.map_append]
  refine List.nodup_append.mpr ⟨h, List.nodup_singleton _, ?_⟩
  rintro n hn m hm rfl
  obtain ⟨e, he, rfl⟩ := List.mem_map.mp hn
  have hsequence : e.sequence = entry.sequence := List.mem_singleton.mp hm
  have hretains : t.retains entry.sequence = true :=
    List.any_eq_true.mpr ⟨e, he, beq_iff_eq.mpr hsequence⟩
  rw [hnew] at hretains
  cases hretains

/-- The groups that a track retains have different numbers, and they are groups of the store. -/
structure Store.Orderly (s : Store) : Prop where
  numbers : ∀ id, ((s.track id).retained.map GroupEntry.sequence).Nodup
  made : ∀ id, ∀ e ∈ (s.track id).retained, e.group < s.groups.size

theorem Store.Orderly.announces {s s' : Store} (h : s.Orderly) (ha : s.Announces s') : s'.Orderly := by
  constructor
  · intro id
    rcases ha.window id with heq | ⟨sequence, -, hnew, heq⟩
    · rw [heq]
      exact h.numbers id
    · rw [heq]
      exact Track.nodup_latest_append (h.numbers id) hnew
  · intro id e he
    rcases ha.window id with heq | ⟨sequence, hlt, -, heq⟩
    · rw [heq] at he
      exact Nat.lt_of_lt_of_le (h.made id e he) ha.groups_le
    · rw [heq] at he
      rcases List.mem_append.mp ((Track.latest_suffix _).mem he) with he | he
      · exact Nat.lt_of_lt_of_le (h.made id e he) ha.groups_le
      · obtain rfl := List.mem_singleton.mp he
        exact hlt

-- ── what a reader remembers ─────────────────────────────────────────

namespace TrackFollower

/-- A reader remembers numbers of groups that it was given, and of those that are retained the number of every
    one. -/
structure Remembers (s : Store) (r : TrackFollower) : Prop where
  made : ∀ g ∈ r.given, g.group < s.groups.size
  given : ∀ n ∈ r.cursor.seen, ∃ g ∈ r.given, g.sequence = n
  retained : ∀ e ∈ (s.track r.cursor.track).retained, e.cursor ∈ r.given → e.sequence ∈ r.cursor.seen

namespace Remembers

variable {s s' : Store} {r : TrackFollower}

theorem fresh (s : Store) (t : TrackWriter) : Remembers s ⟨t.cursor, []⟩ where
  made _ hg := absurd hg List.not_mem_nil
  given _ hn := absurd hn List.not_mem_nil
  retained _ _ hg := absurd hg List.not_mem_nil

/-- A group that is announced later was not given to anybody. -/
theorem announces (h : Remembers s r) (ha : s.Announces s') : Remembers s' r where
  made g hg := Nat.lt_of_lt_of_le (h.made g hg) ha.groups_le
  given := h.given
  retained e he hgiven := by
    rcases ha.window r.cursor.track with heq | ⟨sequence, -, -, heq⟩
    · exact h.retained e (heq ▸ he) hgiven
    · rw [heq] at he
      rcases List.mem_append.mp ((Track.latest_suffix _).mem he) with he | he
      · exact h.retained e he hgiven
      · obtain rfl := List.mem_singleton.mp he
        exact absurd (h.made _ hgiven) (Nat.lt_irrefl _)

/-- To forget what left the window changes nothing about what is in it. -/
theorem forget (h : Remembers s r) : Remembers s
    ⟨{ r.cursor with seen := (s.track r.cursor.track).forget r.cursor.seen }, r.given⟩ where
  made := h.made
  given n hn := h.given n ((Track.forget_sublist _ _).mem hn)
  retained e he hgiven := (Track.mem_forget_iff _ he).mpr (h.retained e he hgiven)

theorem take (h : Remembers s r) (hs : s.Orderly) {e : GroupEntry}
    (he : e ∈ (s.track r.cursor.track).retained) : Remembers s
      ⟨{ r.cursor with seen := (s.track r.cursor.track).forget r.cursor.seen ++ [e.sequence] },
        r.given ++ [e.cursor]⟩ where
  made g hg := by
    rcases List.mem_append.mp hg with hg | hg
    · exact h.made g hg
    · obtain rfl := List.mem_singleton.mp hg
      exact hs.made _ e he
  given n hn := by
    rcases List.mem_append.mp hn with hn | hn
    · obtain ⟨g, hg, heq⟩ := h.forget.given n hn
      exact ⟨g, List.mem_append_left _ hg, heq⟩
    · obtain rfl := List.mem_singleton.mp hn
      exact ⟨e.cursor, List.mem_append_right _ List.mem_cons_self, rfl⟩
  retained x hx hgiven := by
    rcases List.mem_append.mp hgiven with hgiven | hgiven
    · exact List.mem_append_left _ (h.forget.retained x hx hgiven)
    · have hcursor : x.cursor = e.cursor := List.mem_singleton.mp hgiven
      have hsequence : x.sequence = e.sequence := congrArg GroupCursor.sequence hcursor
      exact List.mem_append_right _ (List.mem_singleton.mpr hsequence)

theorem next (h : Remembers s r) (hs : s.Orderly) (held : Holdings) : Remembers s (r.next s held) := by
  obtain ⟨c, given⟩ := r
  rw [TrackFollower.next]
  by_cases halive : ∀ e, (s.track c.track).ending ≠ some (.aborted e)
  · have htells := Store.tells_nextGroup halive held
    generalize s.nextGroup held c = x at htells
    cases htells with
    | pending hall => exact h
    | dropped hall => exact h
    | ended hall => exact h.forget
    | group hsplit hfront hnew =>
        refine h.take hs (hsplit ▸ ?_)
        exact List.mem_append_right _ List.mem_cons_self
  · obtain ⟨e, he⟩ := not_forall.mp halive
    rw [Store.nextGroup_aborted (not_not.mp he)]
    exact h

end Remembers

end TrackFollower

-- ── reading on ──────────────────────────────────────────────────────

/-- The groups that are retained and not known to the reader. -/
def TrackCursor.unseen (c : TrackCursor) (s : Store) : List GroupEntry :=
  (s.track c.track).retained.filter fun e => e.sequence ∉ c.seen

namespace TrackCursor

variable {s : Store} {c : TrackCursor}

theorem unseen_of_caughtUp (h : c.CaughtUp s) : c.unseen s = [] := by
  refine List.filter_eq_nil_iff.mpr fun e he => ?_
  rw [decide_eq_true_eq, not_not]
  exact h e he

theorem unseen_forget (c : TrackCursor) (s : Store) :
    TrackCursor.unseen { c with seen := (s.track c.track).forget c.seen } s = c.unseen s := by
  refine List.filter_congr fun e he => ?_
  exact decide_eq_decide.mpr (not_congr (Track.mem_forget_iff _ he))

/-- The first group that is not known comes first, and is not among the others. -/
theorem unseen_cons (hs : s.Orderly) {front back : List GroupEntry} {e : GroupEntry}
    (hsplit : (s.track c.track).retained = front ++ e :: back)
    (hfront : ∀ x ∈ front, x.sequence ∈ c.seen) (hnew : e.sequence ∉ c.seen) :
    c.unseen s = e :: TrackCursor.unseen
      { c with seen := (s.track c.track).forget c.seen ++ [e.sequence] } s := by
  have hnumbers := hs.numbers c.track
  rw [hsplit, List.map_append, List.map_cons] at hnumbers
  have hback : e.sequence ∉ back.map GroupEntry.sequence :=
    (List.nodup_cons.mp (List.nodup_append.mp hnumbers).2.1).1
  -- what is forgotten is none of these
  have hforget : ∀ x ∈ front ++ e :: back,
      (x.sequence ∈ (s.track c.track).forget c.seen ↔ x.sequence ∈ c.seen) :=
    fun x hx => Track.mem_forget_iff _ (hsplit ▸ hx)
  have hbefore : c.unseen s = e :: back.filter fun x => x.sequence ∉ c.seen := by
    have hnone : front.filter (fun x => x.sequence ∉ c.seen) = [] :=
      List.filter_eq_nil_iff.mpr fun x hx => by simp [hfront x hx]
    rw [unseen, hsplit, List.filter_append, hnone, List.nil_append,
      List.filter_cons_of_pos (by simpa using hnew)]
  have hafter : TrackCursor.unseen
      { c with seen := (s.track c.track).forget c.seen ++ [e.sequence] } s =
        back.filter fun x => x.sequence ∉ c.seen := by
    have hnone : front.filter
        (fun x => x.sequence ∉ (s.track c.track).forget c.seen ++ [e.sequence]) = [] := by
      refine List.filter_eq_nil_iff.mpr fun x hx => ?_
      have hx' := hforget x (List.mem_append_left _ hx)
      simp [hx', hfront x hx]
    show List.filter _ (s.track c.track).retained = _
    rw [hsplit, List.filter_append, hnone, List.nil_append, List.filter_cons_of_neg (by simp)]
    refine List.filter_congr fun x hx => ?_
    have hne : x.sequence ≠ e.sequence := fun heq => hback (heq ▸ List.mem_map_of_mem hx)
    have hx' := hforget x (List.mem_append_right _ (List.mem_cons_of_mem _ hx))
    simp [hx', hne]
  rw [hbefore, hafter]

end TrackCursor

namespace TrackFollower

/-- A reader after it asked for a group again and again, with whatever was held each time. -/
def nexts (r : TrackFollower) (s : Store) (helds : List Holdings) : TrackFollower :=
  helds.foldl (fun r held => r.next s held) r

/-- Who asks is given the first group that it does not know, and knows it from then on. -/
theorem next_eq {s : Store} (hs : s.Orderly) {r : TrackFollower}
    (halive : ∀ e, (s.track r.cursor.track).ending ≠ some (.aborted e)) (held : Holdings) :
    (r.next s held).cursor.track = r.cursor.track ∧
      (r.next s held).given = r.given ++ ((r.cursor.unseen s).take 1).map GroupEntry.cursor ∧
      (r.next s held).cursor.unseen s = (r.cursor.unseen s).drop 1 := by
  obtain ⟨c, given⟩ := r
  have htells := Store.tells_nextGroup halive held
  rw [TrackFollower.next]
  generalize s.nextGroup held c = x at htells
  cases htells with
  | pending hall =>
      rw [TrackCursor.unseen_of_caughtUp hall]
      exact ⟨rfl, (List.append_nil _).symm, TrackCursor.unseen_of_caughtUp hall⟩
  | dropped hall =>
      rw [TrackCursor.unseen_of_caughtUp hall]
      exact ⟨rfl, (List.append_nil _).symm, TrackCursor.unseen_of_caughtUp hall⟩
  | ended hall =>
      rw [TrackCursor.unseen_of_caughtUp hall]
      refine ⟨rfl, (List.append_nil _).symm, ?_⟩
      exact (c.unseen_forget s).trans (TrackCursor.unseen_of_caughtUp hall)
  | group hsplit hfront hnew =>
      rw [TrackCursor.unseen_cons hs hsplit hfront hnew]
      exact ⟨rfl, rfl, rfl⟩

/-- **A reader is given what it does not know**, in the order in which it is retained. -/
theorem given_nexts {s : Store} (hs : s.Orderly) {r : TrackFollower}
    (halive : ∀ e, (s.track r.cursor.track).ending ≠ some (.aborted e)) (helds : List Holdings) :
    (r.nexts s helds).given =
      r.given ++ ((r.cursor.unseen s).take helds.length).map GroupEntry.cursor := by
  induction helds generalizing r with
  | nil => simp [nexts]
  | cons held helds ih =>
      obtain ⟨htrack, hgiven, hunseen⟩ := next_eq hs halive held
      show ((r.next s held).nexts s helds).given = _
      rw [ih (by rw [htrack]; exact halive), hgiven, hunseen, List.append_assoc, ← List.map_append,
        ← List.take_add, Nat.add_comm]
      rfl

end TrackFollower

/-- **A reader is given everything** that is retained exactly if it remembers no number of it. -/
theorem TrackFollower.nexts_complete_iff {s : Store} (hs : s.Orderly) {c : TrackCursor}
    (halive : ∀ e, (s.track c.track).ending ≠ some (.aborted e)) :
    (∀ helds : List Holdings, (s.track c.track).retained.length ≤ helds.length →
        (TrackFollower.nexts ⟨c, []⟩ s helds).given = (s.track c.track).retained.map GroupEntry.cursor) ↔
      ∀ e ∈ (s.track c.track).retained, e.sequence ∉ c.seen := by
  have hlength : (c.unseen s).length ≤ (s.track c.track).retained.length := List.length_filter_le _ _
  have hgiven (helds : List Holdings) (hlong : (s.track c.track).retained.length ≤ helds.length) :
      (TrackFollower.nexts ⟨c, []⟩ s helds).given = (c.unseen s).map GroupEntry.cursor := by
    rw [given_nexts hs halive, List.take_of_length_le (hlength.trans hlong)]
    rfl
  constructor
  · intro h e he
    have hall := h (List.replicate (s.track c.track).retained.length []) (by simp)
    rw [hgiven _ (by simp)] at hall
    have hsame := congrArg List.length hall
    rw [List.length_map, List.length_map] at hsame
    exact of_decide_eq_true (List.length_filter_eq_length_iff.mp hsame e he)
  · intro h helds hlong
    have hunseen : c.unseen s = (s.track c.track).retained :=
      List.filter_eq_self.mpr fun e he => decide_eq_true (h e he)
    rw [hgiven helds hlong, hunseen]

-- ── names ───────────────────────────────────────────────────────────

namespace Broadcast

variable (b : Broadcast)

/-- Entries of one name make no difference to another. -/
theorem find?_filter_of_ne {name other : String} (h : other ≠ name) :
    (b.tracks.filter fun entry => entry.1 != name).find? (fun entry => entry.1 == other) =
      b.tracks.find? fun entry => entry.1 == other := by
  rw [List.find?_filter]
  congr 1
  funext entry
  rw [Bool.eq_iff_iff, decide_eq_true_iff, bne_iff_ne, beq_iff_eq]
  constructor
  · rintro ⟨-, heq⟩
    exact heq
  · rintro rfl
    exact ⟨h, rfl⟩

theorem find?_insert_self (c : TrackCursor) : (b.insert c).find? c.info.name = some c := by
  have hnone : (b.tracks.filter fun entry => entry.1 != c.info.name).find?
      (fun entry => entry.1 == c.info.name) = none := by
    simp
  simp [find?, insert, List.find?_append, hnone]

theorem find?_insert_of_ne {c : TrackCursor} {name : String} (h : name ≠ c.info.name) :
    (b.insert c).find? name = b.find? name := by
  have hnone : [(c.info.name, c)].find? (fun entry => entry.1 == name) = none := by
    simp [Ne.symm h]
  rw [find?, insert, List.find?_append, b.find?_filter_of_ne h, hnone, Option.or_none, find?]

theorem find?_erase_self (name : String) : (b.erase name).find? name = none := by
  simp [find?, erase]

theorem find?_erase_of_ne {name other : String} (h : other ≠ name) :
    (b.erase name).find? other = b.find? other := by
  rw [find?, erase, b.find?_filter_of_ne h, find?]

end Broadcast

theorem Store.broadcast_setBroadcast_self {s : Store} {id : BroadcastId} (h : id < s.broadcasts.size)
    (b : Broadcast) : (s.setBroadcast id b).broadcast id = b := by
  simp [broadcast, setBroadcast, h]

-- ── a broadcast with its readers ────────────────────────────────────

/-- A broadcast in a store, the readers of tracks, and what was published under a name or, if it is `none`,
    taken out again, in this order. -/
structure BroadcastFollowing where
  store : Store
  readers : List TrackFollower
  log : List (String × Option TrackFollower)

namespace BroadcastFollowing

/-- One thing that happens around a broadcast. -/
inductive Move where
  | perform (op : Operation)
  /-- A writer makes a new reader. -/
  | consume (t : TrackWriter)
  | fork (reader : Nat)
  | next (reader : Nat) (held : Holdings)
  | create (info : TrackInfo)
  /-- A copy of the reader is published. -/
  | insert (reader : Nat)
  | remove (name : String)
  | subscribe (info : TrackInfo)

/-- The reader that was published last under a name, unless it was taken out. -/
def published (f : BroadcastFollowing) (name : String) : Option TrackFollower :=
  (f.log.filter fun entry => entry.1 == name).getLast?.bind Prod.snd

/-- What the published reader had been given. -/
def given (f : BroadcastFollowing) (name : String) : List GroupCursor :=
  ((f.published name).map TrackFollower.given).getD []

/-- A new broadcast in an empty store. -/
def start : BroadcastFollowing := ⟨Store.empty.newBroadcast.2, [], []⟩

def after (f : BroadcastFollowing) (b : BroadcastId) : Move → BroadcastFollowing
  | .perform op => { f with store := op.perform f.store }
  | .consume t => { f with readers := f.readers ++ [⟨t.cursor, []⟩] }
  | .fork i => { f with readers := f.readers ++ f.readers[i]?.toList }
  | .next i held => { f with readers := f.readers.modify i fun r => r.next f.store held }
  | .create info =>
    let (t, s) := f.store.createTrack b info
    { f with store := s, log := f.log ++ [(info.name, some ⟨t.cursor, []⟩)] }
  | .insert i =>
    match f.readers[i]? with
    | some r =>
      { f with
        store := (f.store.insertTrack b r.cursor).2
        log := f.log ++ [(r.cursor.info.name, some r)] }
    | none => f
  | .remove name =>
    let (removed, s) := f.store.removeTrack b name
    { store := s
      readers := f.readers ++ removed.toList.map fun c => ⟨c, f.given name⟩
      log := f.log ++ [(name, none)] }
  | .subscribe info =>
    let (c, s) := f.store.subscribe b info
    { f with store := s, readers := f.readers ++ [⟨c, f.given info.name⟩] }

def run (f : BroadcastFollowing) (b : BroadcastId) : List Move → BroadcastFollowing
  | [] => f
  | m :: ms => (f.after b m).run b ms

theorem published_append (f : BroadcastFollowing) (s : Store) (readers : List TrackFollower)
    (name other : String) (r : Option TrackFollower) :
    published ⟨s, readers, f.log ++ [(name, r)]⟩ other =
      if other = name then r else f.published other := by
  rw [published, List.filter_append]
  by_cases hname : other = name
  · simp [hname]
  · have hne : (name == other) = false := beq_eq_false_iff_ne.mpr (Ne.symm hname)
    simp [hname, hne, published]

/-- What holds after every run. -/
structure Sound (b : BroadcastId) (f : BroadcastFollowing) : Prop where
  made : b < f.store.broadcasts.size
  orderly : f.store.Orderly
  readers : ∀ r ∈ f.readers, r.Remembers f.store
  /-- The broadcast has what was published last. -/
  listed : ∀ name, (f.store.broadcast b).find? name = (f.published name).map TrackFollower.cursor
  named : ∀ name r, f.published name = some r → r.cursor.info.name = name
  remembers : ∀ name r, f.published name = some r → r.Remembers f.store

namespace Sound

variable {b : BroadcastId} {f : BroadcastFollowing}

theorem start : Sound Store.empty.newBroadcast.1 start where
  made := Nat.zero_lt_one
  orderly := ⟨fun _ => List.nodup_nil, fun _ _ he => absurd he List.not_mem_nil⟩
  readers _ hr := absurd hr List.not_mem_nil
  listed _ := rfl
  named _ _ hr := nomatch hr
  remembers _ _ hr := nomatch hr

/-- Writers go on. -/
theorem announces (h : Sound b f) {s : Store} (ha : f.store.Announces s) : Sound b { f with store := s } where
  made := by
    rw [ha.broadcasts]
    exact h.made
  orderly := h.orderly.announces ha
  readers r hr := (h.readers r hr).announces ha
  listed name := by
    show (s.broadcast b).find? name = (f.published name).map _
    rw [← h.listed name, Store.broadcast, ha.broadcasts]
    rfl
  named := h.named
  remembers name r hr := (h.remembers name r hr).announces ha

/-- There is one reader more. -/
theorem read (h : Sound b f) {r : TrackFollower} (hr : r.Remembers f.store) :
    Sound b { f with readers := f.readers ++ [r] } :=
  { h with readers := forall_mem_subscribe h.readers hr }

/-- Something is published or taken out. -/
theorem enter (h : Sound b f) {name : String} {r : Option TrackFollower} {entries : Broadcast}
    (hself : entries.find? name = r.map TrackFollower.cursor)
    (hother : ∀ other ≠ name, entries.find? other = (f.store.broadcast b).find? other)
    (hr : ∀ x, r = some x → x.cursor.info.name = name ∧ x.Remembers f.store) :
    Sound b { f with store := f.store.setBroadcast b entries, log := f.log ++ [(name, r)] } where
  made := by
    show b < (f.store.broadcasts.setIfInBounds b entries).size
    rw [Array.size_setIfInBounds]
    exact h.made
  orderly := ⟨h.orderly.numbers, h.orderly.made⟩
  readers x hx := ⟨(h.readers x hx).made, (h.readers x hx).given, (h.readers x hx).retained⟩
  listed other := by
    rw [Store.broadcast_setBroadcast_self h.made, published_append]
    by_cases hname : other = name
    · rw [if_pos hname, hname, hself]
    · rw [if_neg hname, hother other hname, h.listed other]
  named other x hx := by
    rw [published_append] at hx
    by_cases hname : other = name
    · rw [if_pos hname] at hx
      exact (hr x hx).1.trans hname.symm
    · rw [if_neg hname] at hx
      exact h.named other x hx
  remembers other x hx := by
    rw [published_append] at hx
    have hkept : x.Remembers f.store := by
      by_cases hname : other = name
      · rw [if_pos hname] at hx
        exact (hr x hx).2
      · rw [if_neg hname] at hx
        exact h.remembers other x hx
    exact ⟨hkept.made, hkept.given, hkept.retained⟩

theorem publish (h : Sound b f) {r : TrackFollower} (hr : r.Remembers f.store) :
    Sound b { f with
      store := (f.store.insertTrack b r.cursor).2
      log := f.log ++ [(r.cursor.info.name, some r)] } := by
  refine h.enter (Broadcast.find?_insert_self _ r.cursor) ?_ ?_
  · intro other hne
    exact Broadcast.find?_insert_of_ne _ hne
  · rintro x ⟨⟩
    exact ⟨rfl, hr⟩

/-- A copy of the published cursor remembers what it did. -/
theorem remembers_copy (h : Sound b f) {name : String} {c : TrackCursor}
    (hc : (f.store.broadcast b).find? name = some c) (info : TrackInfo) :
    TrackFollower.Remembers f.store ⟨{ c with info := info }, f.given name⟩ := by
  rw [h.listed name] at hc
  obtain ⟨r, hr, rfl⟩ := Option.map_eq_some_iff.mp hc
  have hkept := h.remembers name r hr
  have hgiven : f.given name = r.given := by rw [given, hr]; rfl
  rw [hgiven]
  exact ⟨hkept.made, hkept.given, hkept.retained⟩

/-- **Every move keeps the broadcast and the log together.** -/
theorem after (h : Sound b f) (m : Move) : Sound b (f.after b m) := by
  cases m with
  | perform op => exact h.announces (op.announces f.store)
  | consume t => exact h.read (.fresh f.store t)
  | fork i => exact { h with readers := forall_mem_copy h.readers i }
  | next i held =>
      exact { h with readers := forall_mem_modify h.readers i fun _ hr => hr.next h.orderly held }
  | create info => exact (h.announces (.newTrack info)).publish (.fresh _ _)
  | insert i =>
      show Sound b (match f.readers[i]? with | some r => _ | none => _)
      cases hi : f.readers[i]? with
      | none => exact h
      | some r => exact h.publish (h.readers r (List.mem_of_getElem? hi))
  | remove name =>
      -- the cursor goes back to a reader, and then the name is free
      have hback : Sound b { f with readers := f.readers ++
          ((f.store.broadcast b).find? name).toList.map fun c => ⟨c, f.given name⟩ } := by
        cases hc : (f.store.broadcast b).find? name with
        | none =>
            rw [Option.toList_none, List.map_nil, List.append_nil]
            exact h
        | some c => exact h.read (h.remembers_copy hc c.info)
      refine hback.enter (Broadcast.find?_erase_self _ name) ?_ (fun _ hx => nomatch hx)
      intro other hne
      exact Broadcast.find?_erase_of_ne _ hne
  | subscribe info =>
      rw [BroadcastFollowing.after, Store.subscribe]
      cases hc : (f.store.broadcast b).find? info.name with
      | some c => exact h.read (h.remembers_copy hc _)
      | none =>
          have hnone : f.given info.name = [] := by
            rw [h.listed info.name, Option.map_eq_none_iff] at hc
            rw [given, hc]
            rfl
          have hnew := h.announces (.newTrack info)
          have haborted := hnew.announces
            (s := (f.store.newTrack info).2.abortTrack .notFound (f.store.newTrack info).1) (.setTrack rfl)
          rw [hnone]
          exact haborted.read (.fresh _ (f.store.newTrack info).1)

theorem run (h : Sound b f) (ms : List Move) : Sound b (f.run b ms) := by
  induction ms generalizing f with
  | nil => exact h
  | cons m ms ih => exact ih (h.after m)

end Sound

/-- A name that is not published. -/
theorem subscribe_of_none {s : Store} {b : BroadcastId} {info : TrackInfo}
    (h : (s.broadcast b).find? info.name = none) : s.subscribe b info =
      ((s.newTrack info).1.cursor, (s.newTrack info).2.abortTrack .notFound (s.newTrack info).1) := by
  rw [Store.subscribe, h]

/-- The track that is made up for it was aborted at once. -/
theorem ending_subscribe_of_none {s : Store} {b : BroadcastId} {info : TrackInfo}
    (h : (s.broadcast b).find? info.name = none) :
    ((s.subscribe b info).2.track (s.subscribe b info).1.track).ending = some (.aborted .notFound) := by
  rw [subscribe_of_none h, Store.abortTrack]
  show ((Store.setTrack _ (s.newTrack info).1.track _).track (s.newTrack info).1.track).ending = _
  rw [Store.track_setTrack_self]
  · rfl
  · show s.tracks.size < (s.tracks.push .fresh).size
    rw [Array.size_push]
    exact Nat.lt_succ_self _

/-- A name that is published. -/
theorem subscribe_of_some {s : Store} {b : BroadcastId} {info : TrackInfo} {c : TrackCursor}
    (h : (s.broadcast b).find? info.name = some c) :
    s.subscribe b info = ({ c with info := { c.info with priority := info.priority } }, s) := by
  rw [Store.subscribe, h]

/-- **A subscription goes on where the published cursor stood.** After any moves around a broadcast, whoever
    subscribes gets a cursor with the name and the priority that were asked for. If the name is not published,
    this cursor fails as not found. If it is, then of a track that was aborted the cursor gives the error, and
    of any other it gives the retained groups in the order of creation, the oldest first, but for those whose
    number the published cursor remembers. All of them are given exactly if it remembers none of them: it
    remembers numbers of groups only that it had been given, or the cursor that it is a copy of, and it
    remembers every one of these that is still retained. -/
theorem subscriptions_follow_published (ms : List Move) (info : TrackInfo) :
    let b := Store.empty.newBroadcast.1
    let f := start.run b ms
    let c := (f.store.subscribe b info).1
    let s := (f.store.subscribe b info).2
    let track := s.track c.track
    c.info = info ∧
      (f.published info.name = none → ∀ held,
        (s.nextGroup held c).1 = .failure .notFound ∧ s.trackOutcome held c = .failure .notFound) ∧
      ∀ r, f.published info.name = some r → s = f.store ∧ c.track = r.cursor.track ∧
        (∀ e, track.ending = some (.aborted e) → ∀ held, (s.nextGroup held c).1 = .failure e) ∧
        ((∀ e, track.ending ≠ some (.aborted e)) →
          (∀ helds : List Holdings, (TrackFollower.nexts ⟨c, []⟩ s helds).given =
            ((track.retained.filter fun e => e.sequence ∉ r.cursor.seen).take helds.length).map
              GroupEntry.cursor) ∧
          ((∀ helds : List Holdings, track.retained.length ≤ helds.length →
              (TrackFollower.nexts ⟨c, []⟩ s helds).given = track.retained.map GroupEntry.cursor) ↔
            ∀ e ∈ track.retained, e.sequence ∉ r.cursor.seen)) ∧
        (∀ n ∈ r.cursor.seen, ∃ g ∈ r.given, g.sequence = n) ∧
        ∀ e ∈ track.retained, e.cursor ∈ r.given → e.sequence ∈ r.cursor.seen := by
  intro b f
  have hf : Sound b f := Sound.start.run ms
  cases hpublished : f.published info.name with
  | none =>
      have hnone : (f.store.broadcast b).find? info.name = none := by
        rw [hf.listed, hpublished]
        rfl
      have hended := ending_subscribe_of_none hnone
      refine ⟨?_, fun _ held => ?_, fun r hr => nomatch hr⟩
      · rw [subscribe_of_none hnone]
        rfl
      · exact ⟨congrArg Prod.fst (Store.nextGroup_aborted hended held),
          Store.trackOutcome_aborted hended held⟩
  | some r =>
      have hsome : (f.store.broadcast b).find? info.name = some r.cursor := by
        rw [hf.listed, hpublished]
        rfl
      rw [subscribe_of_some hsome]
      dsimp only
      refine ⟨?_, ?_, ?_⟩
      · have hname := hf.named info.name r hpublished
        rw [hname]
      · intro h
        cases h
      · rintro x ⟨⟩
        have hkept := hf.remembers info.name r hpublished
        let c : TrackCursor := { r.cursor with info := { r.cursor.info with priority := info.priority } }
        refine ⟨rfl, rfl, ?_, ?_, hkept.given, hkept.retained⟩
        · intro e he held
          exact congrArg Prod.fst (Store.nextGroup_aborted (c := c) he held)
        · intro halive
          constructor
          · exact TrackFollower.given_nexts (r := ⟨c, []⟩) hf.orderly halive
          · exact TrackFollower.nexts_complete_iff (c := c) hf.orderly halive

/-- Two groups on a track that was created in the broadcast. The subscription is given both, whatever another
    subscription read before. -/
theorem subscriptions_follow_published_created :
    let f := start.run 0 [.create ⟨"video", 0⟩, .perform (.createGroup ⟨0, ⟨"video", 0⟩⟩ 0),
      .perform (.createGroup ⟨0, ⟨"video", 0⟩⟩ 1), .subscribe ⟨"video", 7⟩, .next 0 [.trackWriter 0]]
    let c := (f.store.subscribe 0 ⟨"video", 3⟩).1
    c = ⟨0, ⟨"video", 3⟩, []⟩ ∧
      (TrackFollower.nexts ⟨c, []⟩ f.store [[.trackWriter 0], [.trackWriter 0]]).given =
        [⟨0, 0, 0, none⟩, ⟨1, 1, 0, none⟩] := by
  intro f c
  obtain ⟨-, -, hpublished⟩ := subscriptions_follow_published [.create ⟨"video", 0⟩,
    .perform (.createGroup ⟨0, ⟨"video", 0⟩⟩ 0), .perform (.createGroup ⟨0, ⟨"video", 0⟩⟩ 1),
    .subscribe ⟨"video", 7⟩, .next 0 [.trackWriter 0]] ⟨"video", 3⟩
  obtain ⟨-, -, -, hgiven, -, -⟩ := hpublished ⟨⟨0, ⟨"video", 0⟩, []⟩, []⟩ rfl
  have hopen : (f.store.track 0).ending = none := rfl
  have halive : ∀ e, (f.store.track 0).ending ≠ some (.aborted e) := by
    intro e he
    rw [hopen] at he
    cases he
  exact ⟨rfl, (hgiven halive).1 [[.trackWriter 0], [.trackWriter 0]]⟩

/-- A cursor that has read on is published. Its subscription waits, although the track retains a group. -/
theorem published_cursor_hides_group :
    let f := start.run 0 [.perform (.newTrack ⟨"video", 0⟩), .consume ⟨0, ⟨"video", 0⟩⟩,
      .perform (.createGroup ⟨0, ⟨"video", 0⟩⟩ 0), .next 0 [.trackWriter 0], .insert 0]
    let c := (f.store.subscribe 0 ⟨"video", 3⟩).1
    (f.store.track c.track).retained = [⟨0, 0⟩] ∧ (f.store.track c.track).ending = none ∧
      (f.store.nextGroup [.trackWriter 0] c).1 = .pending := by
  decide +kernel

end BroadcastFollowing

end LiveMedia.Live
