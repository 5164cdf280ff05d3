import LiveMedia.Proofs.Live.Growth

/-!
# What a track has announced

A track keeps the latest of its groups only. `TrackHistory` keeps, beside the store, every group that
was created on one track since it was made, and `Announced` ties the two together: what the track
retains are the last entries of the history, and since a store only adds groups, their identities
increase in the order of their creation. So identities tell the age of a group, which sequence numbers
do not: these come in any order, and come again once their groups have left the window.
-/

namespace LiveMedia.Live

-- ── the window ──────────────────────────────────────────────────────

namespace Track

theorem length_latest (entries : List GroupEntry) : (latest entries).length ≤ window := by
  show (entries.drop (entries.length - window)).length ≤ window
  rw [List.length_drop]
  omega

theorem latest_suffix (entries : List GroupEntry) : latest entries <:+ entries :=
  List.drop_suffix _ _

/-- To keep the latest after every entry is to keep the latest of all. -/
theorem latest_latest_append (entries : List GroupEntry) (entry : GroupEntry) :
    latest (latest entries ++ [entry]) = latest (entries ++ [entry]) := by
  have hlength : (latest entries).length = entries.length - (entries.length - window) :=
    List.length_drop
  show (entries.drop (entries.length - window) ++ [entry]).drop _ = _
  rw [← List.drop_append_of_le_length (Nat.sub_le _ _), List.drop_drop]
  show _ = (entries ++ [entry]).drop ((entries ++ [entry]).length - window)
  congr 1
  rw [List.length_append, List.length_append, hlength, List.length_singleton]
  omega

/-- Of a few new entries all are kept, and what is kept beside them was kept before. -/
theorem filter_latest_append {entries more : List GroupEntry} (hnodup : (entries ++ more).Nodup)
    (hfew : more.length ≤ window) :
    (latest (entries ++ more)).filter (fun e => e ∉ latest entries) = more := by
  have hold : entries.drop ((entries ++ more).length - window) <:+ latest entries := by
    refine List.drop_suffix_drop_left entries ?_
    rw [List.length_append]
    omega
  have hkept : latest (entries ++ more) = entries.drop ((entries ++ more).length - window) ++ more := by
    refine List.drop_append_of_le_length ?_
    rw [List.length_append]
    omega
  have hnew : ∀ e ∈ more, e ∉ latest entries := fun e he hmem =>
    (List.nodup_append.mp hnodup).2.2 e ((latest_suffix entries).mem hmem) e he rfl
  rw [hkept, List.filter_append, List.filter_eq_nil_iff.mpr, List.filter_eq_self.mpr, List.nil_append]
  · exact fun e he => decide_eq_true (hnew e he)
  · intro e he
    simp [hold.mem he]

end Track

-- ── histories ───────────────────────────────────────────────────────

/-- One call of a writer of a track. Copies of a writer make the same calls. -/
inductive TrackCall where
  | create (sequence : Nat)
  | append
  | close
  | abort (e : TransportError)

/-- A store, and the groups that were created on one of its tracks, in order of creation. -/
structure TrackHistory where
  store : Store
  created : List GroupEntry

namespace TrackHistory

/-- A new track in a store. -/
def start (s : Store) (info : TrackInfo) : TrackHistory := ⟨(s.newTrack info).2, []⟩

/-- The history after a call that was to create a group. -/
def record (h : TrackHistory) : Except TransportError (GroupWriter × Store) → TrackHistory
  | .ok (g, s) => ⟨s, h.created ++ [⟨g.group, g.sequence⟩]⟩
  | .error _ => h

/-- The history after a call. A track that has run out of sequence numbers appends nothing. -/
def call (h : TrackHistory) (t : TrackWriter) : TrackCall → TrackHistory
  | .create sequence => h.record (h.store.createGroup t sequence)
  | .append => match h.store.appendGroup? t with
    | some result => h.record result
    | none => h
  | .close => { h with store := Operation.settled h.store (h.store.closeTrack t) }
  | .abort e => { h with store := h.store.abortTrack e t }

/-- A call creates a group, or fails, or changes how the track ended and nothing else of it. -/
theorem call_cases (h : TrackHistory) (t : TrackWriter) (c : TrackCall) :
    (∃ sequence, h.call t c = h.call t (.create sequence)) ∨ h.call t c = h ∨
      ∃ ending, h.call t c = { h with
        store := h.store.setTrack t.track { h.store.track t.track with ending := ending } } := by
  cases c with
  | create sequence => exact .inl ⟨sequence, rfl⟩
  | append =>
      cases hnext : (h.store.track t.track).nextSequence? with
      | none =>
          right; left
          simp only [call, Store.appendGroup?, hnext, Option.map_none]
      | some sequence =>
          left
          refine ⟨sequence, ?_⟩
          simp only [call, Store.appendGroup?, hnext, Option.map_some]
  | abort e => exact .inr (.inr ⟨some (.aborted e), rfl⟩)
  | close =>
      right
      cases hending : (h.store.track t.track).ending with
      | some ending =>
          left
          simp only [call, Store.closeTrack_of_ended hending]
          rfl
      | none =>
          right
          refine ⟨some .complete, ?_⟩
          simp only [call, Store.closeTrack_of_open hending]
          rfl

end TrackHistory

/-- What the track retains is what was created last, and later groups have larger identities. -/
structure Announced (t : TrackWriter) (h : TrackHistory) : Prop where
  track_lt : t.track < h.store.tracks.size
  retained_eq : (h.store.track t.track).retained = Track.latest h.created
  made : ∀ e ∈ h.created, e.group < h.store.groups.size
  ordered : h.created.Pairwise fun a b => a.group < b.group

namespace Announced

variable {t : TrackWriter} {h : TrackHistory}

theorem start (s : Store) (info : TrackInfo) :
    Announced (s.newTrack info).1 (.start s info) := by
  refine ⟨?_, ?_, ?_, .nil⟩
  · show s.tracks.size < (s.tracks.push .fresh).size
    rw [Array.size_push]
    exact Nat.lt_succ_self _
  · show ((s.tracks.push .fresh)[s.tracks.size]?.getD .fresh).retained = _
    rw [Array.getElem?_push_size]
    rfl
  · intro e he
    exact absurd he List.not_mem_nil

theorem mem_created (ha : Announced t h) {e : GroupEntry}
    (he : e ∈ (h.store.track t.track).retained) : e ∈ h.created := by
  rw [ha.retained_eq] at he
  exact (Track.latest_suffix h.created).mem he

theorem retained_ordered (ha : Announced t h) :
    (h.store.track t.track).retained.Pairwise fun a b => a.group < b.group := by
  rw [ha.retained_eq]
  exact ha.ordered.sublist (Track.latest_suffix h.created).sublist

theorem length_retained (ha : Announced t h) :
    (h.store.track t.track).retained.length ≤ Track.window := by
  rw [ha.retained_eq]
  exact Track.length_latest h.created

/-- The track may change in all but what it retains. -/
theorem setTrack (ha : Announced t h) {track : Track}
    (hretained : track.retained = (h.store.track t.track).retained) :
    Announced t { h with store := h.store.setTrack t.track track } := by
  refine ⟨?_, ?_, ha.made, ha.ordered⟩
  · show t.track < (h.store.tracks.setIfInBounds t.track track).size
    rw [Array.size_setIfInBounds]
    exact ha.track_lt
  · show ((h.store.setTrack t.track track).track t.track).retained = _
    rw [h.store.track_setTrack_self ha.track_lt, hretained]
    exact ha.retained_eq

/-- A group that is created is younger than all groups before it. -/
theorem create (ha : Announced t h) (sequence : Nat) : Announced t (h.call t (.create sequence)) := by
  show Announced t (h.record (h.store.createGroup t sequence))
  cases hcreate : h.store.createGroup t sequence with
  | error e => exact ha
  | ok made =>
      obtain ⟨g, s⟩ := made
      obtain ⟨rfl, rfl⟩ := Store.createGroup_eq_ok hcreate
      refine ⟨?_, ?_, ?_, ?_⟩
      · show t.track < (h.store.tracks.setIfInBounds t.track _).size
        rw [Array.size_setIfInBounds]
        exact ha.track_lt
      · show (((h.store.newGroup sequence).2.setTrack t.track _).track t.track).retained = _
        rw [(h.store.newGroup sequence).2.track_setTrack_self ha.track_lt, ha.retained_eq]
        exact Track.latest_latest_append h.created _
      · intro e he
        show e.group < (h.store.groups.push .fresh).size
        rw [Array.size_push]
        rcases List.mem_append.mp he with he | he
        · exact Nat.lt_succ_of_lt (ha.made e he)
        · obtain rfl := List.mem_singleton.mp he
          exact Nat.lt_succ_self _
      · refine List.pairwise_append.mpr ⟨ha.ordered, List.pairwise_singleton _ _, ?_⟩
        intro e he e' he'
        obtain rfl := List.mem_singleton.mp he'
        exact ha.made e he

/-- **Every call keeps the history and the window together.** -/
theorem call (ha : Announced t h) (c : TrackCall) : Announced t (h.call t c) := by
  rcases h.call_cases t c with ⟨sequence, heq⟩ | heq | ⟨ending, heq⟩
  · rw [heq]
    exact ha.create sequence
  · rw [heq]
    exact ha
  · rw [heq]
    exact ha.setTrack rfl

end Announced

end LiveMedia.Live
