import LiveMedia.Proofs.Live.Sharing
import LiveMedia.Proofs.Playback.Grouping

/-!
# A publisher beside other hands

A publisher touches the groups of its own track and nothing else: it ends the group that it was filling, makes
the next one and writes into it (`Publisher.write?_beside`, `Publisher.close_beside`). And as long as others
leave its groups and its track alone, it stands where it stood (`Publisher.Publishes.spared`).
-/

namespace LiveMedia.Playback

open LiveMedia.Wire LiveMedia.Live

theorem Finished.spared {s s' : Store} {base : FrameId} {bound : GroupId} {e : GroupEntry}
    {run : List MediaFrame} (h : Finished base bound s e run) (hspares : Store.Spares e.group s s') :
    Finished base bound s' e run where
  complete := hspares.complete h.complete
  group_lt := h.group_lt
  frames_lt w hw := h.frames_lt w (hspares.group ▸ hw)
  sized := h.sized.congr hspares.group hspares.frame

namespace Publisher

-- ── what a publisher does ───────────────────────────────────────────

section

variable {s s' : Store} {own others : List GroupId} {p p' : Publisher} {f : MediaFrame}

theorem endGroup_beside (h : s.Parted own others) (hcurrent : ∀ g ∈ p.current, g.group ∈ own)
    (hend : p.endGroup s = (.ok s', p')) :
    Store.Beside others p.track.track own s own s' ∧ p'.track = p.track := by
  unfold endGroup at hend
  split at hend
  next g hg =>
    obtain ⟨hclose, rfl⟩ := Prod.mk.inj hend
    cases hclosed : s.closeGroup g with
    | error e =>
        rw [hclosed] at hclose
        cases hclose
    | ok closed =>
        rw [hclosed] at hclose
        obtain rfl := Except.ok.inj hclose
        exact ⟨.closeGroup h (hcurrent g hg) hclosed, rfl⟩
  next =>
    obtain ⟨hsame, rfl⟩ := Prod.mk.inj hend
    obtain rfl := Except.ok.inj hsame
    exact ⟨.refl h, rfl⟩

theorem beginGroup?_beside (h : s.Parted own others) (hbegin : p.beginGroup? s = some (.ok s', p')) :
    ∃ g, p' = { p with current := some g } ∧
      Store.Beside others p.track.track own s (own ++ [g.group]) s' := by
  unfold beginGroup? at hbegin
  split at hbegin
  next => cases hbegin
  next g opened happend =>
    obtain ⟨hopened, rfl⟩ := Prod.mk.inj (Option.some.inj hbegin)
    obtain rfl := Except.ok.inj hopened
    obtain ⟨sequence, -, hmade⟩ := Option.map_eq_some_iff.mp happend
    exact ⟨g, rfl, .createGroup h hmade⟩
  next => cases hbegin

theorem writeCurrent_beside {t : TrackId} (h : s.Parted own others)
    (hcurrent : ∀ g ∈ p.current, g.group ∈ own) (hwrite : p.writeCurrent s f = .ok s') :
    Store.Beside others t own s own s' := by
  unfold writeCurrent at hwrite
  split at hwrite
  next g hg =>
    cases hwritten : s.writeFrame g f.chunks with
    | error e =>
        rw [writeTo, hwritten] at hwrite
        cases hwrite
    | ok written =>
        rw [writeTo, hwritten] at hwrite
        obtain rfl := Except.ok.inj hwrite
        exact .writeFrame h (hcurrent g hg) hwritten
  next => cases hwrite

/-- **A write leaves the groups of others alone.** A keyframe makes one group, any other frame none. -/
theorem write?_beside (h : s.Parted own others) (hcurrent : ∀ g ∈ p.current, g.group ∈ own)
    (hwrite : p.write? s f = some (.ok (), p', s')) :
    ∃ made, Store.Beside others p.track.track own s (own ++ made) s' ∧
      (f.keyframe = true → ∃ g, p'.current = some g ∧ made = [g.group]) ∧
      (f.keyframe = false → made = []) := by
  unfold write? at hwrite
  split at hwrite
  next hkey =>
    split at hwrite
    next => cases (Prod.mk.inj (Option.some.inj hwrite)).1
    next s₁ p₁ hend =>
      obtain ⟨hends, htrack⟩ := endGroup_beside h hcurrent hend
      split at hwrite
      next => cases hwrite
      next => cases (Prod.mk.inj (Option.some.inj hwrite)).1
      next s₂ p₂ hbegin =>
        obtain ⟨g, rfl, hbegins⟩ := beginGroup?_beside hends.parted hbegin
        rw [htrack] at hbegins
        split at hwrite
        next s₃ hwritten =>
          obtain ⟨-, rfl, rfl⟩ := by simpa only [Option.some.injEq, Prod.mk.injEq] using hwrite
          have hmine : ∀ g' ∈ some g, g'.group ∈ own ++ [g.group] := by
            rintro _ ⟨⟩
            exact List.mem_append_right _ List.mem_cons_self
          exact ⟨[g.group], (hends.trans hbegins).trans (writeCurrent_beside hbegins.parted hmine hwritten),
            fun _ => ⟨g, rfl, rfl⟩, fun hf => nomatch hkey.symm.trans hf⟩
        next => cases (Prod.mk.inj (Option.some.inj hwrite)).1
  next hkey =>
    split at hwrite
    next s₁ hwritten =>
      obtain ⟨-, rfl, rfl⟩ := by simpa only [Option.some.injEq, Prod.mk.injEq] using hwrite
      refine ⟨[], ?_, fun hf => absurd hf hkey, fun _ => rfl⟩
      rw [List.append_nil]
      exact writeCurrent_beside h hcurrent hwritten
    next => cases (Prod.mk.inj (Option.some.inj hwrite)).1

/-- So does the end of the track. -/
theorem close_beside (h : s.Parted own others) (hcurrent : ∀ g ∈ p.current, g.group ∈ own)
    (hclose : p.close s = (.ok (), p', s')) : Store.Beside others p.track.track own s own s' := by
  unfold close at hclose
  split at hclose
  next => cases (Prod.mk.inj hclose).1
  next s₁ p₁ hend =>
    obtain ⟨hends, htrack⟩ := endGroup_beside h hcurrent hend
    split at hclose
    next s₂ hclosed =>
      obtain ⟨-, rfl, rfl⟩ := by simpa only [Prod.mk.injEq] using hclose
      rw [htrack] at hclosed
      exact hends.trans (.closeTrack hends.parted hclosed)
    next => cases (Prod.mk.inj hclose).1

end

-- ── what others leave alone ─────────────────────────────────────────

section

variable {t : TrackWriter} {fs : List MediaFrame} {s s' : Store} {entries more : List GroupEntry}
  {runs : List (List MediaFrame)} {e : GroupEntry} {p p' : Publisher} {own own' others : List GroupId}
  {elsewhere : TrackId}

/-- **A publisher stands where it stood** as long as its track and its groups are left alone. -/
theorem Publishes.spared (h : Publishes t fs s entries p)
    (hbeside : Store.Beside (entries.map GroupEntry.group) elsewhere own s own' s')
    (helsewhere : t.track ≠ elsewhere) : Publishes t fs s' entries p := by
  have hspares : ∀ e ∈ entries, Store.Spares e.group s s' := fun e he =>
    hbeside.spares e.group (List.mem_map_of_mem he)
  have htrack : s'.track t.track = s.track t.track := hbeside.tracks t.track helsewhere
  cases h with
  | waiting hnil hrests =>
      refine .waiting hnil ⟨Nat.lt_of_lt_of_le hrests.track_lt hbeside.tracks_le, ?_, ?_⟩
      · rw [htrack]
        exact hrests.numbered
      · exact .nil
  | @writing entries runs e run hruns hfills =>
      obtain ⟨base, ws, hfilling, hpayloads, hfinished⟩ := hfills.filling
      have hlast := hspares e (List.mem_append_right _ List.mem_cons_self)
      refine .writing hruns ⟨Nat.lt_of_lt_of_le hfills.track_lt hbeside.tracks_le, ?_, base, ws,
        hlast.filling hfilling, ?_, ?_⟩
      · rw [htrack]
        exact hfills.numbered
      · rw [hlast.payloads_eq fun w hw => ?_, hpayloads]
        rw [show s.group e.group = ⟨ws ++ [], none⟩ from hfilling.group_eq]
        exact List.mem_append_left _ hw
      · refine List.forall₂_iff_get.mpr ⟨hfinished.length_eq, fun i hi hi' => ?_⟩
        have he := List.getElem_mem (l := entries) hi
        exact (hfinished.get hi hi').spared (hspares _ (List.mem_append_left _ he))

/-- The group that is being filled is one of its own. -/
theorem Publishes.current_mem (h : Publishes t fs s entries p) :
    ∀ g ∈ p.current, g.group ∈ entries.map GroupEntry.group := by
  cases h with
  | waiting => exact fun g hg => absurd hg nofun
  | writing =>
      rintro _ ⟨⟩
      exact List.mem_map_of_mem (List.mem_append_right _ List.mem_cons_self)

/-- A group that is open is the one that is being filled. -/
theorem Publishes.current_of_open (h : Publishes t fs s entries p) {e : GroupEntry} (he : e ∈ entries)
    (hopen : (s.group e.group).ending = none) : ∃ g, p.current = some g ∧ g.group = e.group := by
  cases h with
  | waiting => exact absurd he List.not_mem_nil
  | @writing front runs last run _ hfills =>
      rcases List.mem_append.mp he with he | he
      · obtain ⟨base, ws, -, -, hfinished⟩ := hfills.filling
        obtain ⟨i, hi, rfl⟩ := List.mem_iff_getElem.mp he
        have hcomplete := (hfinished.get hi (hfinished.length_eq ▸ hi)).complete
        exact nomatch hopen.symm.trans hcomplete.group
      · exact ⟨writerOf last, rfl, congrArg GroupEntry.group (List.mem_singleton.mp he).symm⟩

/-- A write leaves the groups of others alone, also the one that it makes. -/
theorem Publishes.write_beside {f : MediaFrame} (h : Publishes t fs s entries p)
    (hparted : s.Parted (entries.map GroupEntry.group) others)
    (hwrite : p.write? s f = some (.ok (), p', s'))
    (h' : Publishes t (fs ++ [f]) s' (entries ++ more) p') :
    Store.Beside others t.track (entries.map GroupEntry.group) s
      ((entries ++ more).map GroupEntry.group) s' := by
  obtain ⟨made, hbeside, hkey, hother⟩ := write?_beside hparted h.current_mem hwrite
  rw [h.track_eq] at hbeside
  have hlength := h'.holds.length_eq
  rw [List.length_append, h.holds.length_eq, length_runsOf, length_runsOf, List.countP_append,
    Nat.add_left_cancel_iff, List.countP_singleton] at hlength
  suffices heq : made = more.map GroupEntry.group by
    rw [List.map_append, ← heq]
    exact hbeside
  cases hf : f.keyframe with
  | true =>
      rw [hf, if_pos rfl] at hlength
      obtain ⟨g, hg, rfl⟩ := hkey hf
      obtain ⟨e, rfl⟩ := List.length_eq_one_iff.mp hlength
      generalize hentries : entries ++ [e] = all at h'
      cases h' with
      | waiting => cases hg
      | writing =>
          obtain rfl := Option.some.inj hg
          obtain ⟨-, heq⟩ := List.append_inj' hentries rfl
          rw [heq]
          rfl
  | false =>
      rw [hf, if_neg Bool.false_ne_true] at hlength
      rw [hother hf, List.length_eq_zero_iff.mp hlength]
      rfl

end

end Publisher

end LiveMedia.Playback
