import LiveMedia.Proofs.Live.Ownership

/-!
# Two hands on one store

Two hands that each make groups on a track of their own do not get in each other's way. `Store.Parted` is
what keeps them apart: every group is one hand's or the other's, and shares no frame with another group.
`Store.Beside` is what one of them does beside the other. It works on groups that it has, makes new ones and
closes its track, one thing after the other (`Beside.trans`), and of what the other hand has everything
stays as it was.
-/

namespace LiveMedia.Live

open LiveMedia.Wire

namespace Store

variable {s s' s'' : Store} {own own' own'' others : List GroupId} {g : GroupId} {t : TrackWriter}

theorem Owned.subset {gs gs' : List GroupId} (h : s.Owned gs) (hsubset : gs' ⊆ gs) : s.Owned gs' :=
  ⟨h.listed, fun g hg => h.known g (hsubset hg), fun g hg => h.apart g (hsubset hg)⟩

/-- The groups of a hand and those of the others. -/
structure Parted (s : Store) (own others : List GroupId) : Prop where
  owned : s.Owned (own ++ others)
  apart : ∀ g ∈ own, g ∉ others

/-- Being parted does not depend on the side. -/
theorem Parted.symm (h : s.Parted own others) : s.Parted others own where
  owned := h.owned.subset (List.append_subset.mpr
    ⟨List.subset_append_right own others, List.subset_append_left own others⟩)
  apart g hg hown := h.apart g hown hg

/-- What a hand does that has groups and a track, beside the groups of others. -/
structure Beside (others : List GroupId) (t : TrackId) (own : List GroupId) (s : Store)
    (own' : List GroupId) (s' : Store) : Prop where
  parted : s'.Parted own' others
  spares : ∀ g ∈ others, Spares g s s'
  grows : s.Grows s'
  tracks_le : s.tracks.size ≤ s'.tracks.size
  tracks : ∀ i ≠ t, s'.track i = s.track i

namespace Beside

theorem refl {t : TrackId} (h : s.Parted own others) : Beside others t own s own s :=
  ⟨h, fun g _ => .refl g s, .refl s, Nat.le_refl _, fun _ _ => rfl⟩

theorem trans {t : TrackId} (h : Beside others t own s own' s') (h' : Beside others t own' s' own'' s'') :
    Beside others t own s own'' s'' where
  parted := h'.parted
  spares g hg := (h.spares g hg).trans (h'.spares g hg)
  grows := h.grows.trans h'.grows
  tracks_le := Nat.le_trans h.tracks_le h'.tracks_le
  tracks i hi := (h'.tracks i hi).trans (h.tracks i hi)

/-- It works on a group of its own. -/
theorem served {t : TrackId} (h : s.Parted own others) (hg : g ∈ own) (hserved : Served g s s') :
    Beside others t own s own s' := by
  obtain ⟨howned, hspares⟩ := hserved.owned h.owned (List.mem_append_left others hg)
  refine ⟨⟨howned, h.apart⟩, fun x hx => ?_, hserved.grows, hserved.tracks_le,
    fun i _ => hserved.track i⟩
  refine hspares x (List.mem_append_right own hx) ?_
  rintro rfl
  exact h.apart x hg hx

/-- Who fills a group of its own leaves the others alone. -/
theorem writeFrame {t : TrackId} {w : GroupWriter} {chunks : List Bytes} (h : s.Parted own others)
    (hw : w.group ∈ own) (hwrite : s.writeFrame w chunks = .ok s') : Beside others t own s own s' := by
  refine served h hw (.single (.writeFrame w chunks) (.of_group rfl rfl rfl) ?_)
  exact Operation.perform_writeFrame hwrite

theorem closeGroup {t : TrackId} {w : GroupWriter} (h : s.Parted own others) (hw : w.group ∈ own)
    (hclose : s.closeGroup w = .ok s') : Beside others t own s own s' := by
  refine served h hw (.single (.closeGroup w) (.of_group rfl rfl rfl) ?_)
  exact Operation.perform_closeGroup hclose

/-- An operation on a track leaves all groups alone. -/
theorem onTrack {op : Operation} (h : s.Parted own others) (hgroup : op.group? = none)
    (hreach : op.reaches? = none) (htrack : op.track? = some t.track) :
    Beside others t.track own s own (op.perform s) := by
  obtain ⟨howned, hspares⟩ := h.owned.elsewhere (.of_track op hgroup hreach)
  refine ⟨⟨howned, h.apart⟩, fun g hg => hspares g (List.mem_append_right own hg), op.grows s,
    (op.adds s).tracks_le, fun i hi => (op.leaves s).track i fun heq => ?_⟩
  exact hi (Option.some.inj (heq.symm.trans htrack))

/-- Closing a track does not touch the groups of anybody. -/
theorem closeTrack (h : s.Parted own others) (hclose : s.closeTrack t = .ok s') :
    Beside others t.track own s own s' := by
  rw [← Operation.perform_closeTrack hclose]
  exact onTrack h rfl rfl rfl

/-- It makes a group on its track. -/
theorem createGroup {sequence : Nat} {w : GroupWriter} (h : s.Parted own others)
    (hmade : s.createGroup t sequence = .ok (w, s')) :
    Beside others t.track own s (own ++ [w.group]) s' := by
  have hperform : (Operation.createGroup t sequence).perform s = s' :=
    Operation.perform_createGroup hmade
  have hbeside : Beside others t.track own s own s' := hperform ▸ onTrack h rfl rfl rfl
  refine { hbeside with parted := ⟨(h.owned.createGroup hmade).subset ?_, fun g hg => ?_⟩ }
  · intro g hg
    simp only [List.mem_append] at hg ⊢
    exact hg.elim (Or.imp_left .inl) fun hothers => .inl (.inr hothers)
  · rcases List.mem_append.mp hg with hg | hg
    · exact h.apart g hg
    · -- the new group is younger than all
      obtain rfl := List.mem_singleton.mp hg
      obtain ⟨rfl, -⟩ := createGroup_eq_ok hmade
      exact fun hothers => Nat.lt_irrefl _ (h.owned.known _ (List.mem_append_right own hothers))

end Beside

end Store

end LiveMedia.Live
