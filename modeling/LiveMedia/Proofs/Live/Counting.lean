import LiveMedia.Proofs.Live.TrackFollowing

/-!
# Tracks that count their groups

A track whose groups are numbered from zero on (`Track.Counts`) says with the number of a group when it came.
A cursor that goes on asking such a track is given the groups one after the other, and what it knows is a
count (`TrackCursor.Knows`): it remembers the groups below the count that are still kept, and nothing else.
As long as the window holds the group that comes next, that is the group it is given (`nextGroup_next`).
-/

namespace LiveMedia.Live

/-- The number of a group says when it came. -/
theorem sequence_of_getElem? {entries : List GroupEntry} {e : GroupEntry} {n : Nat}
    (h : entries.map GroupEntry.sequence = List.range entries.length) (he : entries[n]? = some e) :
    e.sequence = n := by
  have hmap : (entries.map GroupEntry.sequence)[n]? = some e.sequence := by
    rw [List.getElem?_map, he]
    rfl
  rw [h] at hmap
  obtain ⟨_, heq⟩ := List.getElem?_eq_some_iff.mp hmap
  rw [← heq, List.getElem_range]

/-- The groups of a track are numbered from zero on, and it keeps the latest of them. -/
structure Track.Counts (t : Track) (entries : List GroupEntry) : Prop where
  sequences : entries.map GroupEntry.sequence = List.range entries.length
  retained : t.retained = Track.latest entries

namespace Track.Counts

variable {t t' : Track} {entries : List GroupEntry} {e : GroupEntry} {n : Nat}

theorem sequence_eq (h : t.Counts entries) (he : entries[n]? = some e) : e.sequence = n :=
  sequence_of_getElem? h.sequences he

theorem getElem?_sequence (h : t.Counts entries) (he : e ∈ entries) : entries[e.sequence]? = some e := by
  obtain ⟨n, hn⟩ := List.mem_iff_getElem?.mp he
  rw [h.sequence_eq hn]
  exact hn

theorem nodup (h : t.Counts entries) : (entries.map GroupEntry.sequence).Nodup :=
  h.sequences ▸ List.nodup_range

theorem sequence_lt (h : t.Counts entries) (he : e ∈ entries) : e.sequence < entries.length :=
  (List.getElem?_eq_some_iff.mp (h.getElem?_sequence he)).1

/-- What is kept are the groups whose numbers are in the window. -/
theorem mem_retained_iff (h : t.Counts entries) :
    e ∈ t.retained ↔ e ∈ entries ∧ entries.length ≤ e.sequence + window := by
  rw [h.retained, latest]
  constructor
  · intro he
    obtain ⟨i, hi⟩ := List.mem_iff_getElem?.mp he
    rw [List.getElem?_drop] at hi
    rw [h.sequence_eq hi]
    exact ⟨List.mem_of_mem_drop he, by omega⟩
  · rintro ⟨he, hle⟩
    refine List.mem_iff_getElem?.mpr ⟨e.sequence - (entries.length - window), ?_⟩
    rw [List.getElem?_drop, Nat.add_sub_cancel' (by omega)]
    exact h.getElem?_sequence he

theorem mem (h : t.Counts entries) (he : e ∈ t.retained) : e ∈ entries := (h.mem_retained_iff.mp he).1

theorem ascending (h : t.Counts entries) : t.retained.Pairwise fun a b => a.sequence < b.sequence := by
  have hall : entries.Pairwise fun a b => a.sequence < b.sequence := by
    rw [← List.pairwise_map (f := GroupEntry.sequence) (R := (· < ·)), h.sequences]
    exact List.pairwise_lt_range
  exact h.retained ▸ hall.sublist (latest_suffix entries).sublist

/-- The track may change in all but what it keeps. -/
theorem same (h : t.Counts entries) (hretained : t'.retained = t.retained) : t'.Counts entries :=
  ⟨h.sequences, hretained.trans h.retained⟩

end Track.Counts

/-- The cursor was given so many groups, the first of its track. Of these it remembers what the track keeps,
    and it remembers no others. -/
structure TrackCursor.Knows (c : TrackCursor) (s : Store) (count : Nat) : Prop where
  seen_lt : ∀ n ∈ c.seen, n < count
  kept : ∀ e ∈ (s.track c.track).retained, e.sequence < count → e.sequence ∈ c.seen

namespace TrackCursor.Knows

variable {c : TrackCursor} {s s' : Store} {count : Nat} {entries more : List GroupEntry} {e : GroupEntry}

theorem start {s : Store} (hseen : c.seen = []) : c.Knows s 0 where
  seen_lt _ hn := absurd (hseen ▸ hn) List.not_mem_nil
  kept _ _ hlt := absurd hlt (Nat.not_lt_zero _)

/-- The track is as it was. -/
theorem same (h : c.Knows s count) (htrack : s'.track c.track = s.track c.track) : c.Knows s' count :=
  ⟨h.seen_lt, htrack ▸ h.kept⟩

/-- The track goes on counting. -/
theorem later (h : c.Knows s count) (hcounts : (s.track c.track).Counts entries)
    (hcounts' : (s'.track c.track).Counts (entries ++ more)) (hcount : count ≤ entries.length) :
    c.Knows s' count where
  seen_lt := h.seen_lt
  kept e he hlt := by
    obtain ⟨he, hle⟩ := hcounts'.mem_retained_iff.mp he
    have hold := hcounts'.getElem?_sequence he
    rw [List.getElem?_append_left (Nat.lt_of_lt_of_le hlt hcount)] at hold
    rw [List.length_append] at hle
    exact h.kept e (hcounts.mem_retained_iff.mpr ⟨List.mem_of_getElem? hold, by omega⟩) hlt

/-- **The next group is the next that is given**, if the window holds it. -/
theorem nextGroup_next (h : c.Knows s count) (hcounts : (s.track c.track).Counts entries)
    (halive : ∀ err, (s.track c.track).ending ≠ some (.aborted err)) (he : entries[count]? = some e)
    (hwindow : entries.length ≤ count + Track.window) (held : Holdings) :
    ∃ c', s.nextGroup held c = (.ok (some e.cursor), c') ∧ c'.track = c.track ∧ c'.Knows s (count + 1) := by
  have hsequence := hcounts.sequence_eq he
  have hretained : e ∈ (s.track c.track).retained :=
    hcounts.mem_retained_iff.mpr ⟨List.mem_of_getElem? he, hsequence.symm ▸ hwindow⟩
  have hnew : e.sequence ∉ c.seen := fun hseen => Nat.ne_of_lt (h.seen_lt _ hseen) hsequence
  have htells := Store.tells_nextGroup halive held
  generalize s.nextGroup held c = x at htells
  cases htells with
  | pending hall => exact absurd (hall e hretained) hnew
  | dropped hall => exact absurd (hall e hretained) hnew
  | ended hall => exact absurd (hall e hretained) hnew
  | @group front back x hsplit hfront hunseen =>
      -- what comes before it is known, and what comes behind it has a larger number
      have hx : x ∈ (s.track c.track).retained := hsplit ▸ List.mem_append_right _ List.mem_cons_self
      have hle : count ≤ x.sequence := Nat.le_of_not_lt fun hlt => hunseen (h.kept x hx hlt)
      have hascending := hcounts.ascending
      rw [hsplit] at hretained hascending
      obtain rfl : e = x := by
        rcases List.mem_append.mp hretained with hmem | hmem
        · exact absurd (hfront e hmem) hnew
        · rcases List.mem_cons.mp hmem with rfl | hmem
          · rfl
          · have hlt := (List.pairwise_cons.mp (List.pairwise_append.mp hascending).2.1).1 e hmem
            exact absurd hle (Nat.not_le_of_lt (hsequence ▸ hlt))
      refine ⟨_, rfl, rfl, fun n hn => ?_, fun e' he' hlt => ?_⟩
      · rcases List.mem_append.mp hn with hn | hn
        · exact Nat.lt_succ_of_lt (h.seen_lt n (((s.track c.track).forget_sublist c.seen).subset hn))
        · rw [List.mem_singleton.mp hn, hsequence]
          exact Nat.lt_succ_self count
      · rcases Nat.lt_succ_iff_lt_or_eq.mp hlt with hlt | heq
        · exact List.mem_append_left _ ((Track.mem_forget_iff _ he').mpr (h.kept e' he' hlt))
        · exact List.mem_append_right _ (List.mem_singleton.mpr (heq.trans hsequence.symm))

/-- Who was given all has caught up. -/
theorem caughtUp (h : c.Knows s count) (hcounts : (s.track c.track).Counts entries)
    (hall : entries.length ≤ count) : c.CaughtUp s := fun e he =>
  h.kept e he (Nat.lt_of_lt_of_le (hcounts.sequence_lt (hcounts.mem he)) hall)

end TrackCursor.Knows

namespace TrackCursor.CaughtUp

variable {c : TrackCursor} {s : Store} {held : Holdings}

/-- Who has caught up waits as long as the track is open and written. -/
theorem nextGroup_open (h : c.CaughtUp s) (hopen : (s.track c.track).ending = none)
    (hwritten : .trackWriter c.track ∈ held) : s.nextGroup held c = (.pending, c) := by
  have htells := (s.track c.track).tells_nextGroup c.seen
  rw [Store.nextGroup]
  generalize (s.track c.track).nextGroup c.seen = x at htells
  cases htells with
  | aborted hending => cases hopen.symm.trans hending
  | pending _ _ =>
      have hheld : held.writesTrack c.track = true := List.contains_iff_mem.mpr hwritten
      simp only [Attempt.pending, orDropped, hheld, if_true]
  | ended hending _ => cases hopen.symm.trans hending
  | @group _ _ e _ hsplit _ hnew =>
      exact absurd (h e (hsplit ▸ List.mem_append_right _ List.mem_cons_self)) hnew

/-- Who has caught up is told that a closed track has no more. -/
theorem nextGroup_closed (h : c.CaughtUp s) (hclosed : (s.track c.track).ending = some .complete) :
    ∃ c', s.nextGroup held c = (.ok none, c') := by
  have htells := (s.track c.track).tells_nextGroup c.seen
  rw [Store.nextGroup]
  generalize (s.track c.track).nextGroup c.seen = x at htells
  cases htells with
  | aborted hending => cases hclosed.symm.trans hending
  | pending hending _ => cases hclosed.symm.trans hending
  | ended _ _ => exact ⟨_, rfl⟩
  | @group _ _ e _ hsplit _ hnew =>
      exact absurd (h e (hsplit ▸ List.mem_append_right _ List.mem_cons_self)) hnew

end TrackCursor.CaughtUp

end LiveMedia.Live
