import LiveMedia.Proofs.Live.TrackFollowing
import Mathlib.Data.Finset.Card
import Mathlib.Data.Finset.Dedup
import Mathlib.Data.Finset.Range

/-!
# Numbers that come again

No reader is given a group twice, but a group may bear the number of a group before it: a track refuses a
number only while it retains a group of that number. What keeps the number from a reader is the reader's
memory, and this memory is cut down to the window once it holds more than two windows and a number.

So there are two halves. Until then nothing was forgotten, and the numbers of the first 66 groups that a
reader is given are all different (`Distinct`). After that no number is safe: on every track that is
open, every number that a reader was ever given can be given to it again (`run_comeback`). It takes
new groups with new numbers: 32 of them push the old group out of the window, and 66 more make the reader
forget its number (`Shows.forgets`). Then a group of that number is created and the reader takes it for
a new one.
-/

namespace LiveMedia.Live

-- ── the first groups ────────────────────────────────────────────────

/-- The numbers of the first groups that a reader was given are different. Up to the memory's limit they
    are all remembered, unless the track has ended and has nothing more for the reader. -/
structure Distinct (t : TrackWriter) (h : TrackHistory) (r : TrackFollower) : Prop where
  numbers : ((r.given.take (2 * Track.window + 2)).map GroupCursor.sequence).Nodup
  memory : r.given.length ≤ 2 * Track.window + 1 →
    r.cursor.seen = r.given.map GroupCursor.sequence ∨
      (h.store.track t.track).ending ≠ none ∧
        ∀ e ∈ (h.store.track t.track).retained, e.sequence ∈ r.cursor.seen

/-- Nothing is forgotten up to the limit. -/
theorem Track.forget_of_le (t : Track) {seen : List Nat} (h : seen.length ≤ 2 * window) :
    t.forget seen = seen := if_neg (Nat.not_lt_of_le h)

/-- Above the limit all is forgotten that is not in the window. -/
theorem Track.retains_of_mem_forget (t : Track) {seen : List Nat} {n : Nat}
    (h : 2 * window < seen.length) (hn : n ∈ t.forget seen) : t.retains n = true := by
  rw [forget, if_pos h] at hn
  exact (List.mem_filter.mp hn).2

theorem Track.retains_eq_true_iff (t : Track) (n : Nat) :
    t.retains n = true ↔ ∃ e ∈ t.retained, e.sequence = n := by
  simp [retains]

/-- The calls of a writer make no difference to a track that has ended: it retains what it did. -/
theorem TrackHistory.call_of_ended {t : TrackWriter} {h : TrackHistory}
    (htrack : t.track < h.store.tracks.size) (hended : (h.store.track t.track).ending ≠ none)
    (c : TrackCall) :
    ((h.call t c).store.track t.track).ending ≠ none ∧
      ((h.call t c).store.track t.track).retained = (h.store.track t.track).retained := by
  obtain ⟨ending, hending⟩ := Option.ne_none_iff_exists'.mp hended
  have hcreate (sequence : Nat) : h.call t (.create sequence) = h := by
    simp only [call, Store.createGroup_of_ended hending, record]
  cases c with
  | create sequence =>
      rw [hcreate sequence]
      exact ⟨hended, rfl⟩
  | append =>
      cases hnext : (h.store.track t.track).nextSequence? with
      | none =>
          have heq : h.call t .append = h := by
            simp only [call, Store.appendGroup?, hnext, Option.map_none]
          rw [heq]
          exact ⟨hended, rfl⟩
      | some sequence =>
          have heq : h.call t .append = h.call t (.create sequence) := by
            simp only [call, Store.appendGroup?, hnext, Option.map_some]
          rw [heq, hcreate sequence]
          exact ⟨hended, rfl⟩
  | close =>
      have heq : h.call t .close = h := by
        simp only [call, Store.closeTrack_of_ended hending]
        rfl
      rw [heq]
      exact ⟨hended, rfl⟩
  | abort e =>
      have heq : (h.call t (.abort e)).store.track t.track =
          (h.store.track t.track).abort e := h.store.track_setTrack_self htrack _
      rw [heq]
      refine ⟨fun hnone => ?_, rfl⟩
      cases hnone

namespace Distinct

variable {t : TrackWriter} {h : TrackHistory} {r : TrackFollower}

theorem fresh (t : TrackWriter) (h : TrackHistory) : Distinct t h ⟨t.cursor, []⟩ :=
  ⟨List.nodup_nil, fun _ => .inl rfl⟩

theorem call (hr : Distinct t h r) (htrack : t.track < h.store.tracks.size) (c : TrackCall) :
    Distinct t (h.call t c) r := by
  refine ⟨hr.numbers, fun hle => ?_⟩
  rcases hr.memory hle with hseen | ⟨hended, hknown⟩
  · exact .inl hseen
  · obtain ⟨hended', hretained⟩ := TrackHistory.call_of_ended htrack hended c
    exact .inr ⟨hended', hretained ▸ hknown⟩

/-- A group that the reader did not know. -/
theorem take (hr : Distinct t h r) {e : GroupEntry}
    (he : e ∈ (h.store.track t.track).retained) (hnew : e.sequence ∉ r.cursor.seen) :
    Distinct t h ⟨{ r.cursor with
      seen := (h.store.track t.track).forget r.cursor.seen ++ [e.sequence] },
      r.given ++ [e.cursor]⟩ := by
  by_cases hle : r.given.length ≤ 2 * Track.window + 1
  · have hseen : r.cursor.seen = r.given.map GroupCursor.sequence := by
      rcases hr.memory hle with hseen | ⟨-, hknown⟩
      · exact hseen
      · exact absurd (hknown e he) hnew
    have hall : (r.given ++ [e.cursor]).length ≤ 2 * Track.window + 2 := by
      simp only [List.length_append, List.length_singleton]
      omega
    have hnumbers := hr.numbers
    rw [List.take_of_length_le (Nat.le_succ_of_le hle), ← hseen] at hnumbers
    refine ⟨?_, fun hle' => .inl ?_⟩
    · show (((r.given ++ [e.cursor]).take (2 * Track.window + 2)).map GroupCursor.sequence).Nodup
      rw [List.take_of_length_le hall, List.map_append, ← hseen]
      refine List.nodup_append.mpr ⟨hnumbers, List.nodup_singleton _, ?_⟩
      intro n hn m hm heq
      have hm : m = e.sequence := List.mem_singleton.mp hm
      exact hnew (hm ▸ heq ▸ hn)
    · have hlength : r.cursor.seen.length ≤ 2 * Track.window := by
        rw [hseen, List.length_map]
        simp only [List.length_append, List.length_singleton] at hle'
        omega
      show (h.store.track t.track).forget r.cursor.seen ++ [e.sequence] = _
      rw [Track.forget_of_le _ hlength, List.map_append, hseen]
      rfl
  · have hmany : 2 * Track.window + 2 ≤ r.given.length := by omega
    refine ⟨?_, fun hle' => ?_⟩
    · show (((r.given ++ [e.cursor]).take (2 * Track.window + 2)).map GroupCursor.sequence).Nodup
      rw [List.take_append_of_le_length hmany]
      exact hr.numbers
    · simp only [List.length_append, List.length_singleton] at hle'
      omega

theorem next (hr : Distinct t h r) (htrack : r.cursor.track = t.track) (held : Holdings) :
    Distinct t h (r.next h.store held) := by
  obtain ⟨⟨track, info, seen⟩, given⟩ := r
  obtain rfl : track = t.track := htrack
  have htells := (h.store.track t.track).tells_nextGroup seen
  rw [TrackFollower.next, Store.nextGroup]
  dsimp only
  generalize (h.store.track t.track).nextGroup seen = x at htells
  cases htells with
  | aborted hending => exact hr
  | pending hopen hknown =>
      cases held.writesTrack t.track with
      | true => exact hr
      | false => exact hr
  | ended hending hknown =>
      refine ⟨hr.numbers, fun _ => .inr ⟨?_, fun e he => ?_⟩⟩
      · rw [hending]
        exact Option.some_ne_none _
      · exact (Track.mem_forget_iff _ he).mpr (hknown e he)
  | group _ hsplit hfront hnew =>
      refine hr.take (hsplit ▸ ?_) hnew
      exact List.mem_append_right _ List.mem_cons_self

end Distinct

namespace TrackFollowing

theorem distinct_run {t : TrackWriter} {f : TrackFollowing} (hsound : Sound t f)
    (hf : ∀ r ∈ f.followers, Distinct t f.history r) (ms : List Move) :
    ∀ r ∈ (f.run t ms).followers, Distinct t (f.run t ms).history r := by
  induction ms generalizing f with
  | nil => exact hf
  | cons m ms ih =>
      refine ih (hsound.after m) ?_
      cases m with
      | call c => exact fun r hr => (hf r hr).call hsound.announced.track_lt c
      | subscribe => exact forall_mem_subscribe hf (.fresh t f.history)
      | fork i => exact forall_mem_copy hf i
      | next i held =>
          have hboth : ∀ r ∈ f.followers, TrackFollows t f.history r ∧ Distinct t f.history r :=
            fun r hr => ⟨hsound.follows r hr, hf r hr⟩
          have hnext := forall_mem_modify hboth i fun r hr =>
            ⟨hr.1.next hsound.announced held, hr.2.next hr.1.track_eq held⟩
          exact fun r hr => (hnext r hr).2

end TrackFollowing

-- ── asking an open track ────────────────────────────────────────────

/-- A reader of an open track knows all that is retained, or is given the first group that it does not
    know. -/
theorem TrackFollower.next_of_open {r : TrackFollower} {s : Store}
    (hopen : (s.track r.cursor.track).ending = none) (held : Holdings) :
    (r.cursor.CaughtUp s ∧ r.next s held = r) ∨
      ∃ front e back, (s.track r.cursor.track).retained = front ++ e :: back ∧
        (∀ x ∈ front, x.sequence ∈ r.cursor.seen) ∧ e.sequence ∉ r.cursor.seen ∧
        r.next s held = ⟨{ r.cursor with
          seen := (s.track r.cursor.track).forget r.cursor.seen ++ [e.sequence] },
          r.given ++ [e.cursor]⟩ := by
  obtain ⟨⟨track, info, seen⟩, given⟩ := r
  have htells := (s.track track).tells_nextGroup seen
  rw [TrackFollower.next, Store.nextGroup]
  dsimp only at hopen ⊢
  generalize (s.track track).nextGroup seen = x at htells
  cases htells with
  | aborted hending =>
      rw [hopen] at hending
      cases hending
  | ended hending _ =>
      rw [hopen] at hending
      cases hending
  | pending _ hknown =>
      left
      refine ⟨hknown, ?_⟩
      cases held.writesTrack track with
      | true => rfl
      | false => rfl
  | @group front back e _ hsplit hfront hnew =>
      right
      exact ⟨front, e, back, hsplit, hfront, hnew, rfl⟩

/-- A reader that asks gets to know one more of the groups that an open track retains. -/
theorem TrackFollower.knows_more {r : TrackFollower} {s : Store}
    (hopen : (s.track r.cursor.track).ending = none) (held : Holdings) {known : Nat}
    (hknown : ∀ e ∈ (s.track r.cursor.track).retained.take known, e.sequence ∈ r.cursor.seen) :
    (r.next s held).cursor.track = r.cursor.track ∧
      (∃ more, (r.next s held).given = r.given ++ more) ∧
      ∀ e ∈ (s.track r.cursor.track).retained.take (known + 1),
        e.sequence ∈ (r.next s held).cursor.seen := by
  rcases TrackFollower.next_of_open hopen held with
    ⟨hcaught, heq⟩ | ⟨front, e, back, hsplit, hfront, hnew, heq⟩
  · rw [heq]
    exact ⟨rfl, ⟨[], (List.append_nil _).symm⟩, fun e he => hcaught e (List.mem_of_mem_take he)⟩
  · rw [heq]
    refine ⟨rfl, ⟨[e.cursor], rfl⟩, fun x hx => ?_⟩
    have hfound : front ++ [e] <+: (s.track r.cursor.track).retained := by
      rw [hsplit]
      exact ⟨back, List.append_assoc front [e] back⟩
    -- the groups that were known lie in front of the new one
    have hlength : known < (front ++ [e]).length := by
      by_contra hle
      have hmem : e ∈ (s.track r.cursor.track).retained.take known :=
        (List.prefix_take_iff.mpr ⟨hfound, Nat.le_of_not_lt hle⟩).mem
          (List.mem_append_right _ List.mem_cons_self)
      exact hnew (hknown e hmem)
    have hwithin : (s.track r.cursor.track).retained.take (known + 1) <+: front ++ [e] :=
      List.prefix_of_prefix_length_le (List.take_prefix _ _) hfound
        ((List.length_take_le _ _).trans hlength)
    rcases List.mem_append.mp (hwithin.mem hx) with hx' | hx'
    · exact List.mem_append_left _
        ((Track.mem_forget_iff _ (List.mem_of_mem_take hx)).mpr (hfront x hx'))
    · rw [List.mem_singleton.mp hx']
      exact List.mem_append_right _ List.mem_cons_self

namespace TrackFollowing

variable {t : TrackWriter} {f : TrackFollowing} {i : Nat} {r : TrackFollower}

theorem run_append (f : TrackFollowing) (t : TrackWriter) (ms ms' : List Move) :
    f.run t (ms ++ ms') = (f.run t ms).run t ms' := by
  induction ms generalizing f with
  | nil => rfl
  | cons m ms ih => exact ih (f.after t m)

theorem follower_next (hr : f.followers[i]? = some r) (held : Holdings) :
    (f.after t (.next i held)).followers[i]? = some (r.next f.history.store held) := by
  show (f.followers.modify i fun r => r.next f.history.store held)[i]? = _
  rw [List.getElem?_modify, hr]
  exact congrArg some (if_pos rfl)

/-- A reader that asks again and again gets to know the retained groups from the front. -/
theorem run_asking (hr : f.followers[i]? = some r) (htrack : r.cursor.track = t.track)
    (hopen : (f.history.store.track t.track).ending = none) (held : Holdings) {known : Nat}
    (hknown : ∀ e ∈ (f.history.store.track t.track).retained.take known, e.sequence ∈ r.cursor.seen)
    (calls : Nat) :
    let f' := f.run t (List.replicate calls (.next i held))
    f'.history = f.history ∧ ∃ r' more, f'.followers[i]? = some r' ∧ r'.given = r.given ++ more ∧
      ∀ e ∈ (f.history.store.track t.track).retained.take (known + calls),
        e.sequence ∈ r'.cursor.seen := by
  induction calls generalizing f r known with
  | zero => exact ⟨rfl, r, [], hr, (List.append_nil _).symm, hknown⟩
  | succ calls ih =>
      rw [← htrack] at hopen hknown
      obtain ⟨htrack', ⟨more, hgiven⟩, hknown'⟩ := TrackFollower.knows_more hopen held hknown
      rw [htrack] at hopen htrack' hknown'
      obtain ⟨hhistory, r', more', hr', hgiven', hall⟩ :=
        ih (follower_next hr held) htrack' hopen hknown'
      refine ⟨hhistory, r', more ++ more', hr', ?_, ?_⟩
      · rw [hgiven', hgiven, List.append_assoc]
      · rw [Nat.add_right_comm] at hall
        exact hall

end TrackFollowing

-- ── showing new groups to a reader ──────────────────────────────────

/-- The reader of an open track knows everything that the track retains. -/
structure Current (t : TrackWriter) (h : TrackHistory) (r : TrackFollower) : Prop where
  isOpen : (h.store.track t.track).ending = none
  known : ∀ e ∈ (h.store.track t.track).retained, e.sequence ∈ r.cursor.seen

/-- What has become of a track and its reader when groups with these numbers were created and the reader
    was given them. Of another number that is not retained the reader keeps the memory only as long as
    it keeps the memory of all numbers. -/
structure Shows (t : TrackWriter) (numbers : List Nat) (h : TrackHistory) (r : TrackFollower)
    (h' : TrackHistory) (r' : TrackFollower) : Prop where
  current : Current t h' r'
  shown : ∃ entries : List GroupEntry, entries.map GroupEntry.sequence = numbers ∧
    h'.created = h.created ++ entries ∧ r'.given = r.given ++ entries.map GroupEntry.cursor
  seen : ∀ n ∈ r'.cursor.seen, n ∈ r.cursor.seen ∨ n ∈ numbers
  gone : ∀ m ∉ numbers, (h.store.track t.track).retains m = false →
    (h'.store.track t.track).retains m = false
  remembers : ∀ m ∉ numbers, (h.store.track t.track).retains m = false → m ∈ r'.cursor.seen →
    r.cursor.seen.length + numbers.length ≤ r'.cursor.seen.length

namespace Shows

variable {t : TrackWriter} {numbers numbers' : List Nat} {h h' h'' : TrackHistory}
  {r r' r'' : TrackFollower}

theorem refl (hc : Current t h r) : Shows t [] h r h r :=
  ⟨hc, ⟨[], rfl, (List.append_nil _).symm, (List.append_nil _).symm⟩, fun _ hn => .inl hn,
    fun _ _ hm => hm, fun _ _ _ _ => Nat.le_refl _⟩

theorem trans (hs : Shows t numbers h r h' r') (hs' : Shows t numbers' h' r' h'' r'') :
    Shows t (numbers ++ numbers') h r h'' r'' := by
  obtain ⟨entries, hnumbers, hcreated, hgiven⟩ := hs.shown
  obtain ⟨entries', hnumbers', hcreated', hgiven'⟩ := hs'.shown
  refine ⟨hs'.current, ⟨entries ++ entries', ?_, ?_, ?_⟩, ?_, ?_, ?_⟩
  · rw [List.map_append, hnumbers, hnumbers']
  · rw [hcreated', hcreated, List.append_assoc]
  · rw [hgiven', hgiven, List.append_assoc, List.map_append]
  · intro n hn
    rw [List.mem_append]
    rcases hs'.seen n hn with hn | hn
    · exact (hs.seen n hn).imp_right .inl
    · exact .inr (.inr hn)
  · intro m hm hnot
    obtain ⟨hm, hm'⟩ := not_or.mp (hm ∘ List.mem_append.mpr)
    exact hs'.gone m hm' (hs.gone m hm hnot)
  · intro m hm hnot hseen
    obtain ⟨hm, hm'⟩ := not_or.mp (hm ∘ List.mem_append.mpr)
    have hbefore : m ∈ r'.cursor.seen := (hs'.seen m hseen).resolve_right hm'
    have hle := hs.remembers m hm hnot hbefore
    have hle' := hs'.remembers m hm' (hs.gone m hm hnot) hseen
    rw [List.length_append]
    omega

/-- A window full of other numbers pushes a number out. -/
theorem leaves_window (hs : Shows t numbers h r h' r') (ha : Announced t h')
    (hmany : Track.window ≤ numbers.length) {m : Nat} (hm : m ∉ numbers) :
    (h'.store.track t.track).retains m = false := by
  obtain ⟨entries, rfl, hcreated, -⟩ := hs.shown
  rw [List.length_map] at hmany
  refine Bool.eq_false_iff.mpr fun hretains => ?_
  obtain ⟨e, he, rfl⟩ := (Track.retains_eq_true_iff _ m).mp hretains
  have hlength : h.created.length ≤ (h.created ++ entries).length - Track.window := by
    rw [List.length_append]
    omega
  rw [ha.retained_eq, hcreated] at he
  have hmem : e ∈ entries := by
    have hsuffix : (h.created ++ entries).drop ((h.created ++ entries).length - Track.window) <:+
        entries := by
      obtain ⟨k, hk⟩ := Nat.exists_eq_add_of_le hlength
      rw [hk, ← List.drop_drop, List.drop_left]
      exact List.drop_suffix k entries
    exact hsuffix.mem he
  exact hm (List.mem_map_of_mem hmem)

/-- More numbers than the memory holds make the reader forget a number that is not retained. -/
theorem forgets (hs : Shows t numbers h r h' r') (hr : TrackFollows t h' r')
    (hmany : 2 * Track.window + 1 < numbers.length) {m : Nat} (hm : m ∉ numbers)
    (hnot : (h.store.track t.track).retains m = false) : m ∉ r'.cursor.seen := by
  intro hseen
  have hle := hs.remembers m hm hnot hseen
  have hlimit := hr.length_seen
  omega

end Shows

/-- The window after one more group: that group, behind the latest of the others. -/
theorem Track.latest_append_singleton (entries : List GroupEntry) (e : GroupEntry) :
    latest (entries ++ [e]) = entries.drop (entries.length + 1 - window) ++ [e] := by
  have hle : entries.length + 1 - window ≤ entries.length := by
    simp only [window]
    omega
  show (entries ++ [e]).drop ((entries ++ [e]).length - window) = _
  rw [List.length_append, List.length_singleton, List.drop_append_of_le_length hle]

/-- The track is open and retains a new group, behind the latest of those before it. -/
structure Gains (t : TrackWriter) (new : GroupEntry) (h h' : TrackHistory) : Prop where
  created_eq : h'.created = h.created ++ [new]
  isOpen : (h'.store.track t.track).ending = none
  retained_eq : (h'.store.track t.track).retained = (h.store.track t.track).retained.drop
    ((h.store.track t.track).retained.length + 1 - Track.window) ++ [new]

/-- An open track gains the group of a number that it does not retain. -/
theorem TrackHistory.create_gains {t : TrackWriter} {h : TrackHistory} (ha : Announced t h)
    (hopen : (h.store.track t.track).ending = none) {n : Nat}
    (hnew : (h.store.track t.track).retains n = false) :
    ∃ new : GroupEntry, new.sequence = n ∧ Gains t new h (h.call t (.create n)) := by
  obtain ⟨⟨g, s⟩, hcreate⟩ := Store.createGroup_of_open hopen hnew
  have hcall : h.call t (.create n) = ⟨s, h.created ++ [⟨g.group, g.sequence⟩]⟩ := by
    simp only [TrackHistory.call, hcreate, TrackHistory.record]
  obtain ⟨rfl, hs⟩ := Store.createGroup_eq_ok hcreate
  have hafter : s.track t.track = { h.store.track t.track with
      retained := Track.latest ((h.store.track t.track).retained ++ [⟨h.store.groups.size, n⟩])
      largest := some (max n ((h.store.track t.track).largest.getD n)) } := by
    rw [hs]
    exact (h.store.newGroup n).2.track_setTrack_self ha.track_lt _
  rw [hcall]
  refine ⟨⟨h.store.groups.size, n⟩, rfl, rfl, ?_, ?_⟩
  · show (s.track t.track).ending = none
    rw [hafter]
    exact hopen
  · show (s.track t.track).retained = _
    rw [hafter]
    exact Track.latest_append_singleton _ _

namespace Gains

variable {t : TrackWriter} {new : GroupEntry} {h h' : TrackHistory}

theorem new_mem (hg : Gains t new h h') : new ∈ (h'.store.track t.track).retained := by
  rw [hg.retained_eq]
  exact List.mem_append_right _ List.mem_cons_self

theorem mem_or_eq (hg : Gains t new h h') {e : GroupEntry}
    (he : e ∈ (h'.store.track t.track).retained) :
    e ∈ (h.store.track t.track).retained ∨ e = new := by
  rw [hg.retained_eq] at he
  exact (List.mem_append.mp he).imp List.mem_of_mem_drop List.mem_singleton.mp

theorem gone (hg : Gains t new h h') {m : Nat} (hm : m ≠ new.sequence)
    (hnot : (h.store.track t.track).retains m = false) :
    (h'.store.track t.track).retains m = false := by
  refine Bool.eq_false_iff.mpr fun hretains => ?_
  obtain ⟨e, he, rfl⟩ := (Track.retains_eq_true_iff _ m).mp hretains
  rcases hg.mem_or_eq he with he | rfl
  · exact Bool.eq_false_iff.mp hnot ((Track.retains_eq_true_iff _ _).mpr ⟨e, he, rfl⟩)
  · exact hm rfl

end Gains

namespace Current

variable {t : TrackWriter} {h h' : TrackHistory} {r : TrackFollower}

/-- What the reader does not remember is not retained. -/
theorem not_retained (hc : Current t h r) {n : Nat} (hn : n ∉ r.cursor.seen) :
    (h.store.track t.track).retains n = false := by
  refine Bool.eq_false_iff.mpr fun hretains => ?_
  obtain ⟨e, he, heq⟩ := (Track.retains_eq_true_iff _ n).mp hretains
  exact hn (heq ▸ hc.known e he)

/-- The only group that the reader does not know is the new one, so it is given that. -/
theorem next_eq (hc : Current t h r) (htrack : r.cursor.track = t.track) {new : GroupEntry}
    (hg : Gains t new h h') (hn : new.sequence ∉ r.cursor.seen) (held : Holdings) :
    r.next h'.store held = ⟨{ r.cursor with
      seen := (h'.store.track t.track).forget r.cursor.seen ++ [new.sequence] },
      r.given ++ [new.cursor]⟩ := by
  have hopen := hg.isOpen
  have hlast := hg.new_mem
  rw [← htrack] at hopen hlast ⊢
  rcases TrackFollower.next_of_open hopen held with
    ⟨hcaught, -⟩ | ⟨front, e, back, hsplit, -, hunknown, heq⟩
  · exact absurd (hcaught new hlast) hn
  · have he : e ∈ (h'.store.track t.track).retained := by
      rw [← htrack, hsplit]
      exact List.mem_append_right _ List.mem_cons_self
    rcases hg.mem_or_eq he with hold | rfl
    · exact absurd (hc.known e hold) hunknown
    · exact heq

/-- A group is created with a number that the reader does not remember, and the reader is given it. -/
theorem shows (hc : Current t h r) (ha : Announced t h) (htrack : r.cursor.track = t.track) {n : Nat}
    (hn : n ∉ r.cursor.seen) (held : Holdings) :
    Shows t [n] h r (h.call t (.create n)) (r.next (h.call t (.create n)).store held) := by
  obtain ⟨new, rfl, hg⟩ := h.create_gains ha hc.isOpen (hc.not_retained hn)
  have hgone : ∀ m ∉ [new.sequence], (h.store.track t.track).retains m = false →
      ((h.call t (.create new.sequence)).store.track t.track).retains m = false :=
    fun m hm => hg.gone (hm ∘ List.mem_singleton.mpr)
  rw [hc.next_eq htrack hg hn held]
  refine ⟨⟨hg.isOpen, ?_⟩, ⟨[new], rfl, hg.created_eq, rfl⟩, ?_, hgone, ?_⟩
  · intro e he
    rcases hg.mem_or_eq he with hold | rfl
    · exact List.mem_append_left _ ((Track.mem_forget_iff _ he).mpr (hc.known e hold))
    · exact List.mem_append_right _ List.mem_cons_self
  · intro m hm
    exact (List.mem_append.mp hm).imp_left (Track.forget_sublist _ _).mem
  · -- the memory was not cut down, as it holds a number that is not retained
    intro m hm hnot hseen
    have hkept := (List.mem_append.mp hseen).resolve_right hm
    have hle : r.cursor.seen.length ≤ 2 * Track.window := by
      by_contra hlt
      have hretains := Track.retains_of_mem_forget _ (Nat.lt_of_not_le hlt) hkept
      exact Bool.eq_false_iff.mp (hgone m hm hnot) hretains
    show _ ≤ (Track.forget _ r.cursor.seen ++ [new.sequence]).length
    rw [Track.forget_of_le _ hle, List.length_append]

end Current

namespace TrackFollowing

variable {t : TrackWriter} {f : TrackFollowing} {i : Nat} {r : TrackFollower}

/-- Groups with these numbers are created, and the reader asks once after each. -/
def showing (i : Nat) (held : Holdings) : List Nat → List Move
  | [] => []
  | n :: numbers => .call (.create n) :: .next i held :: showing i held numbers

theorem showing_append (i : Nat) (held : Holdings) (numbers numbers' : List Nat) :
    showing i held (numbers ++ numbers') = showing i held numbers ++ showing i held numbers' := by
  induction numbers with
  | nil => rfl
  | cons n numbers ih => simp only [List.cons_append, showing, ih]

/-- **Groups whose numbers the reader does not remember are all given to it.** -/
theorem run_showing (hsound : Sound t f) (hr : f.followers[i]? = some r)
    (hc : Current t f.history r) (held : Holdings) {numbers : List Nat} (hnodup : numbers.Nodup)
    (hnew : ∀ n ∈ numbers, n ∉ r.cursor.seen) :
    let f' := f.run t (showing i held numbers)
    Sound t f' ∧ ∃ r', f'.followers[i]? = some r' ∧ Shows t numbers f.history r f'.history r' := by
  refine ⟨hsound.run _, ?_⟩
  induction numbers generalizing f r with
  | nil => exact ⟨r, hr, .refl hc⟩
  | cons n numbers ih =>
      obtain ⟨hnot, hnodup⟩ := List.nodup_cons.mp hnodup
      obtain ⟨hn, hnew⟩ := List.forall_mem_cons.mp hnew
      have htrack := (hsound.follows r (List.mem_of_getElem? hr)).track_eq
      have hstep := hc.shows hsound.announced htrack hn held
      have hr' := follower_next (t := t) (f := f.after t (.call (.create n))) hr held
      have hsound' : Sound t ((f.after t (.call (.create n))).after t (.next i held)) :=
        (hsound.after _).after _
      obtain ⟨r', hr'', hrest⟩ := ih hsound' hr' hstep.current hnodup (fun m hm hseen => by
        rcases hstep.seen m hseen with hseen | hm'
        · exact hnew m hm hseen
        · exact hnot (List.mem_singleton.mp hm' ▸ hm))
      exact ⟨r', hr'', hstep.trans hrest⟩

/-- There are as many small numbers as one likes that are none of those in a list. -/
theorem exists_fresh (avoid : List Nat) (k : Nat) : ∃ numbers : List Nat, numbers.length = k ∧
    numbers.Nodup ∧ ∀ n ∈ numbers, n ∉ avoid ∧ n < k + avoid.length := by
  have hcard : k ≤ (Finset.range (k + avoid.length) \ avoid.toFinset).card := by
    have hsdiff := Finset.le_card_sdiff avoid.toFinset (Finset.range (k + avoid.length))
    have hle := List.toFinset_card_le avoid
    rw [Finset.card_range] at hsdiff
    omega
  obtain ⟨s, hs, hk⟩ := Finset.exists_subset_card_eq hcard
  refine ⟨s.toList, by rw [Finset.length_toList, hk], s.nodup_toList, fun n hn => ?_⟩
  have hmem := hs (Finset.mem_toList.mp hn)
  rw [Finset.mem_sdiff, Finset.mem_range, List.mem_toFinset] at hmem
  exact ⟨hmem.2, hmem.1⟩

/-- A reader of an open track that asks often enough knows all that is retained. -/
theorem run_catching_up (hsound : Sound t f) (hr : f.followers[i]? = some r)
    (hopen : (f.history.store.track t.track).ending = none) (held : Holdings) :
    let f' := f.run t (List.replicate Track.window (.next i held))
    Sound t f' ∧ ∃ r' asked, f'.followers[i]? = some r' ∧ r'.given = r.given ++ asked ∧
      Current t f'.history r' := by
  have htrack := (hsound.follows r (List.mem_of_getElem? hr)).track_eq
  have hnone : ∀ e ∈ (f.history.store.track t.track).retained.take 0,
      e.sequence ∈ r.cursor.seen := by simp
  obtain ⟨hhistory, r', asked, hr', hgiven, hknown⟩ :=
    run_asking hr htrack hopen held hnone Track.window
  rw [Nat.zero_add, List.take_of_length_le hsound.announced.length_retained] at hknown
  refine ⟨hsound.run _, r', asked, hr', hgiven, ?_⟩
  rw [hhistory]
  exact ⟨hopen, hknown⟩

/-- A window full of new groups and then more than a memory full: a number that none of them has is
    forgotten. -/
theorem run_forgetting (hsound : Sound t f) (hr : f.followers[i]? = some r)
    (hc : Current t f.history r) (held : Holdings) {m : Nat} {first second : List Nat}
    (hfirst : first.length = Track.window) (hsecond : second.length = 2 * Track.window + 2)
    (hnodup : (first ++ second).Nodup) (hother : ∀ n ∈ first ++ second, n ≠ m ∧ n ∉ r.cursor.seen) :
    let f' := f.run t (showing i held (first ++ second))
    Sound t f' ∧ ∃ r', f'.followers[i]? = some r' ∧
      Shows t (first ++ second) f.history r f'.history r' ∧ m ∉ r'.cursor.seen := by
  obtain ⟨hnodup₁, hnodup₂, hdisjoint⟩ := List.nodup_append.mp hnodup
  have hm₁ : m ∉ first := fun hm => (hother m (List.mem_append_left _ hm)).1 rfl
  have hm₂ : m ∉ second := fun hm => (hother m (List.mem_append_right _ hm)).1 rfl
  obtain ⟨hsound₁, r₁, hr₁, hs₁⟩ := run_showing hsound hr hc held hnodup₁
    fun n hn => (hother n (List.mem_append_left _ hn)).2
  have hgone := hs₁.leaves_window hsound₁.announced (Nat.le_of_eq hfirst.symm) hm₁
  have hnew : ∀ n ∈ second, n ∉ r₁.cursor.seen := by
    intro n hn hseen
    rcases hs₁.seen n hseen with hseen | hshown
    · exact (hother n (List.mem_append_right _ hn)).2 hseen
    · exact hdisjoint n hshown n hn rfl
  obtain ⟨hsound₂, r₂, hr₂, hs₂⟩ := run_showing hsound₁ hr₁ hs₁.current held hnodup₂ hnew
  have hforgotten : m ∉ r₂.cursor.seen :=
    hs₂.forgets (hsound₂.follows r₂ (List.mem_of_getElem? hr₂)) (by omega) hm₂ hgone
  rw [showing_append, run_append]
  exact ⟨hsound₂, r₂, hr₂, hs₁.trans hs₂, hforgotten⟩

/-- **The reader of an open track can be given any number**, whatever it was given before: it catches up,
    and other groups make it forget the number. -/
theorem run_comeback (hsound : Sound t f) (hr : f.followers[i]? = some r)
    (hopen : (f.history.store.track t.track).ending = none) (held : Holdings) (m : Nat) :
    ∃ numbers : List Nat, (∀ n ∈ numbers, n < Track.sequenceLimit) ∧ ∃ r' more g,
      (f.run t (List.replicate Track.window (.next i held) ++
        showing i held (numbers ++ [m]))).followers[i]? = some r' ∧
      r'.given = r.given ++ more ++ [g] ∧ g.sequence = m := by
  obtain ⟨hsound₁, r₁, asked, hr₁, hgiven₁, hc₁⟩ := run_catching_up hsound hr hopen held
  obtain ⟨numbers, hlength, hnodup, hfresh⟩ :=
    exists_fresh (m :: r₁.cursor.seen) (Track.window + (2 * Track.window + 2))
  have hother : ∀ n ∈ numbers, n ≠ m ∧ n ∉ r₁.cursor.seen := fun n hn =>
    not_or.mp ((hfresh n hn).1 ∘ List.mem_cons.mpr)
  have hsmall : ∀ n ∈ numbers, n < Track.sequenceLimit := by
    intro n hn
    have hlt := (hfresh n hn).2
    have hseen := (hsound₁.follows r₁ (List.mem_of_getElem? hr₁)).length_seen
    simp only [List.length_cons, Track.window, Track.sequenceLimit] at *
    omega
  obtain ⟨first, second, rfl, hfirst⟩ : ∃ first second, numbers = first ++ second ∧
      first.length = Track.window :=
    ⟨numbers.take Track.window, numbers.drop Track.window, (List.take_append_drop _ _).symm,
      by rw [List.length_take, hlength]; omega⟩
  have hsecond : second.length = 2 * Track.window + 2 := by
    rw [List.length_append, hfirst] at hlength
    omega
  obtain ⟨hsound₂, r₂, hr₂, hs₂, hforgotten⟩ :=
    run_forgetting hsound₁ hr₁ hc₁ held hfirst hsecond hnodup hother
  obtain ⟨-, r₃, hr₃, hs₃⟩ := run_showing hsound₂ hr₂ hs₂.current held (List.nodup_singleton m)
    fun n hn => List.mem_singleton.mp hn ▸ hforgotten
  obtain ⟨entries, hentries, -, hgiven⟩ := (hs₂.trans hs₃).shown
  obtain ⟨others, last, rfl, -, hlast⟩ := List.map_eq_append_iff.mp hentries
  obtain ⟨e, rfl, he⟩ := List.map_eq_singleton_iff.mp hlast
  refine ⟨first ++ second, hsmall, r₃, asked ++ others.map GroupEntry.cursor, e.cursor, ?_, ?_, he⟩
  · simp only [run_append, showing_append _ _ (first ++ second)]
    exact hr₃
  · rw [hgiven, hgiven₁, List.map_append]
    simp only [List.append_assoc, List.map_cons, List.map_nil]

-- ── the result ──────────────────────────────────────────────────────

/-- **No number is safe from coming again, but none of the first 66 is one.** After any moves, for every
    reader: the numbers of the first 66 groups that it was given are all different; and if the track is
    open, then for each group that it was given, whatever is held, there are groups with other numbers
    such that the reader is given the same number again once they and another group of this number were
    created. -/
theorem numbers_come_again (s : Store) (info : TrackInfo) (ms : List Move) :
    let t := (s.newTrack info).1
    let f := (start s info).run t ms
    ∀ (i : Nat) (r : TrackFollower), f.followers[i]? = some r →
      ((r.given.take 66).map GroupCursor.sequence).Nodup ∧
      ((f.history.store.track t.track).ending = none → ∀ g ∈ r.given, ∀ held : Holdings,
        ∃ numbers : List Nat, (∀ n ∈ numbers, n < Track.sequenceLimit) ∧ ∃ r' more again,
          (f.run t (List.replicate 32 (.next i held) ++
            showing i held (numbers ++ [g.sequence]))).followers[i]? = some r' ∧
          r'.given = r.given ++ more ++ [again] ∧ again.sequence = g.sequence) := by
  intro t f i r hr
  have hsound : Sound t f := (sound_start s info).run ms
  have hdistinct : Distinct t f.history r := by
    have hall := distinct_run (sound_start s info) (fun _ hr => absurd hr List.not_mem_nil) ms
    exact hall r (List.mem_of_getElem? hr)
  refine ⟨hdistinct.numbers, ?_⟩
  intro hopen g _ held
  exact run_comeback hsound hr hopen held g.sequence

/-- A reader that was given group 5 will be given group 5. -/
theorem numbers_come_again_five :
    let t : TrackWriter := ⟨0, ⟨"video", 0⟩⟩
    let f := (start .empty t.info).run t [.subscribe, .call (.create 5), .next 0 [.trackWriter 0]]
    (f.history.store.track 0).ending = none ∧ ∃ r g, f.followers[0]? = some r ∧ g ∈ r.given ∧
      g.sequence = 5 ∧ ∃ numbers : List Nat, (∀ n ∈ numbers, n < Track.sequenceLimit) ∧
        ∃ r' more again, (f.run t (List.replicate 32 (.next 0 [.trackWriter 0]) ++
          showing 0 [.trackWriter 0] (numbers ++ [5]))).followers[0]? = some r' ∧
          r'.given = r.given ++ more ++ [again] ∧ again.sequence = 5 := by
  intro t f
  have hopen : (f.history.store.track 0).ending = none := rfl
  have hreader : f.followers[0]? = some ⟨⟨0, ⟨"video", 0⟩, [5]⟩, [⟨0, 5, 0, none⟩]⟩ := rfl
  obtain ⟨-, hagain⟩ := numbers_come_again .empty t.info
    [.subscribe, .call (.create 5), .next 0 [.trackWriter 0]] 0 _ hreader
  exact ⟨hopen, _, ⟨0, 5, 0, none⟩, hreader, List.mem_cons_self, rfl,
    hagain hopen _ List.mem_cons_self [.trackWriter 0]⟩

/-- A reader is given the groups 0 to 65, each as soon as it was created; then another group 0 is
    created. -/
def overlong : List Move := .subscribe :: showing 0 [.trackWriter 0] (List.range 66 ++ [0])

/-- The reader is given both groups 0. -/
theorem number_given_twice :
    let t : TrackWriter := ⟨0, ⟨"video", 0⟩⟩
    ∃ r ∈ ((start .empty t.info).run t overlong).followers,
      r.given.map GroupCursor.sequence = List.range 66 ++ [0] ∧
      ¬ (r.given.map GroupCursor.sequence).Nodup := by
  intro t
  have hgiven : (((start .empty t.info).run t overlong).followers[0]?.map fun r =>
      r.given.map GroupCursor.sequence) = some (List.range 66 ++ [0]) := by decide +kernel
  obtain ⟨r, hr, hnumbers⟩ := Option.map_eq_some_iff.mp hgiven
  refine ⟨r, List.mem_of_getElem? hr, hnumbers, ?_⟩
  rw [hnumbers]
  decide

end TrackFollowing

end LiveMedia.Live
