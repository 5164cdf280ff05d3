import LiveMedia.Proofs.Playback.Alongside
import LiveMedia.Proofs.Simulation.Undelayed

/-!
# What comes out of an undelayed network

Behind an undelayed network the groups come in the order in which they were published. Here it is added what
is in them. When the publisher has closed its track the forwarder is done with it at once, and the groups
behind the network are complete with the runs of frames that were published (`InStep.arrive`).

While the publisher goes on, this can be said beforehand. Nobody knows whether it will ever write again, and
what is in the store does not depend on it. So one may think of it as closing its track now: the store that
comes of that has the runs of what was published so far, and it grew out of the store that there is
(`InStep.promised`).
-/

namespace LiveMedia.Simulation

open LiveMedia.Wire LiveMedia.Time LiveMedia.Live LiveMedia.Playback LiveMedia.Transfer

/-- The groups are complete with these runs of frames in a store that comes of this one. -/
def Promised (s : Store) (made : List GroupEntry) (runs : List (List MediaFrame)) : Prop :=
  ∃ fin, s.Grows fin ∧
    List.Forall₂ (fun e run => fin.Complete e.group (run.map MediaFrame.encoded)) made runs

/-- A group is whole when its frames are closed, have their sizes, and can be written. -/
theorem wholeGroup_of_complete {s : Store} {g : GroupId} {run : List MediaFrame}
    (hcomplete : s.Complete g (run.map MediaFrame.encoded)) (hsized : s.Sized g)
    (hsmall : ∀ f ∈ run, f.encoded.length ≤ Varint.compactMaximum) : Transmission.WholeGroup s g where
  closed := hcomplete.group
  whole w hw := by
    refine ⟨hcomplete.frames w hw, hsized w hw, ?_⟩
    have hmem : (s.frame w.frame).payload ∈ run.map MediaFrame.encoded :=
      hcomplete.payloads_eq ▸ List.mem_map_of_mem hw
    obtain ⟨f, hf, heq⟩ := List.mem_map.mp hmem
    rw [← hsized w hw, ← heq]
    exact hsmall f hf

namespace Forwarding

variable {f : Forwarding} {now now' : Span}

/-- The receiver of a group holds its writer. -/
theorem groupWriter_mem_holdings (header : Message.GroupHeader) (w : GroupWriter) (phase : ReceivePhase) :
    .groupWriter w.group ∈ (Receiving.body header w phase).holdings := by
  cases phase <;> exact List.mem_cons_self

/-- A group that was made is still written, or has ended. -/
theorem Steady.written (h : Steady f) {e : GroupEntry} (he : e ∈ f.made) :
    .groupWriter e.group ∈ f.forwarder.holdings ∨
      (∃ payloads, f.store.Complete e.group payloads) ∨ f.store.Aborted e.group := by
  obtain ⟨flights, hdeliveries, haloft⟩ := h.aloft
  obtain ⟨g, hg, hsequence⟩ := List.mem_map.mp (haloft.wanted e he)
  have hsame : ∀ e' ∈ f.made, e'.sequence = g.sequence → e' = e := fun e' he' heq =>
    List.inj_on_of_nodup_map h.behind.once he' he (heq.trans hsequence)
  have hended : Delivery.Arrived False False f.store f.made g.sequence g.group →
      (∃ payloads, f.store.Complete e.group payloads) ∨ f.store.Aborted e.group := by
    rintro ⟨e', he', heq, hverdict⟩
    obtain rfl := hsame e' he' heq
    cases hverdict with
    | carried _ hcomplete => exact .inl ⟨_, hcomplete _ (.refl _)⟩
    | lost _ haborted _ => exact .inr haborted
  rcases haloft.accounted g hg with hflight | harrived
  · obtain ⟨⟨_, d⟩, hp, rfl⟩ := List.mem_map.mp hflight
    have hcarries := haloft.carries _ hp
    have hd : d ∈ f.forwarder.deliveries := hdeliveries ▸ List.mem_map_of_mem hp
    dsimp only at hcarries
    cases hcarries with
    | done harrived => exact .inr (hended harrived)
    | underway _ _ _ hstays hlisted =>
        cases hstays with
        | opening => exact absurd (hsequence ▸ List.mem_map_of_mem he) (hlisted.opening rfl)
        | @body w phase _ _ _ _ =>
            obtain rfl := hsame _ (hlisted.body _ _ _ rfl) rfl
            refine .inl (List.mem_append_right _ (List.mem_flatMap.mpr ⟨_, hd, ?_⟩))
            exact List.mem_append_right _ (List.mem_flatMap.mpr
              ⟨_, List.mem_cons_self, groupWriter_mem_holdings _ w phase⟩)
  · exact .inr (hended harrived)

-- ── the publisher at work ───────────────────────────────────────────

variable {more : List GroupEntry} {s : Store}

/-- **A publisher keeps the groups in step**, as long as it announces no more at once than the track keeps. -/
theorem InStep.publish (h : InStep f now)
    (hbeside : Store.Beside (f.made.map GroupEntry.group) f.source (f.announced.map GroupEntry.group)
      f.store ((f.announced ++ more).map GroupEntry.group) s)
    (hcounts : (s.track f.source).Counts (f.announced ++ more))
    (halive : ∀ e, (s.track f.source).ending ≠ some (.aborted e)) (hfew : more.length ≤ Track.window)
    (hbound : ∀ e ∈ more, e.sequence ≤ Varint.compactMaximum) :
    InStep { f with store := s, announced := f.announced ++ more } now := by
  have hannounces : (f.store.track f.source).announces (s.track f.source) = more := by
    have hnew := Track.filter_latest_append (List.Nodup.of_map _ hcounts.nodup) hfew
    rw [← h.counts.retained, ← hcounts.retained] at hnew
    simpa only [Track.announces, List.contains_eq_mem, decide_not] using hnew
  have hbehind : Behind s f.destination.track f.forwarder.closed f.made :=
    h.steady.behind.spared (hbeside.parted.symm.owned.subset (List.subset_append_left _ _))
      hbeside.tracks_le (hbeside.tracks _ h.steady.apart.symm)
  have hsteady := h.steady.elsewhere hbehind hbeside.grows
    (fun e he => hbeside.spares e.group (List.mem_map_of_mem he)) halive
    (hannounces ▸ hcounts.nodup) (hannounces ▸ hbound)
  rw [hannounces] at hsteady
  obtain ⟨c, hc, hknows⟩ := h.cursor
  have htrack : c.track = f.source := (h.steady.seeks c hc).track_eq
  refine ⟨hsteady, hcounts, h.made, ?_, ?_, ⟨c, hc, ?_⟩, hbeside.parted.symm, h.dues⟩
  · rw [List.length_append]
    exact Nat.le_add_right_of_le h.length_le
  · show f.found = ((f.announced ++ more).take f.made.length).map _
    rw [List.take_append_of_le_length h.length_le]
    exact h.found
  · exact hknows.later (htrack ▸ h.counts) (htrack ▸ hcounts) h.length_le

-- ── the end ─────────────────────────────────────────────────────────

/-- **When the publisher is done, so is the forwarder**, and behind the network every group is complete with
    what was published of it. -/
theorem InStep.arrive {runs : List (List MediaFrame)} (h : InStep f now) (others : Holdings)
    (due : Nat → Span) (hnow : now ≤ now') (hnear : f.announced.length ≤ f.made.length + 1)
    (hdue : ∀ n < f.announced.length, due n ≤ now')
    (hended : (f.store.track f.source).ending ≠ none)
    (hcomplete : List.Forall₂ (fun e run => f.store.Complete e.group (run.map MediaFrame.encoded))
      f.announced runs)
    (hsized : ∀ e ∈ f.announced, f.store.Sized e.group)
    (hsmall : ∀ run ∈ runs, ∀ x ∈ run, x.encoded.length ≤ Varint.compactMaximum) :
    ∃ f', f.forwarder.forward others due now' f.store = .ok (f'.forwarder, f'.store) ∧ Goes f now' f' ∧
      f'.forwarder.closed = true ∧
      List.Forall₂ (fun e run => f'.store.Complete e.group (run.map MediaFrame.encoded)) f'.made runs := by
  have hwhole : ∀ e ∈ f.announced, Transmission.WholeGroup f.store e.group := by
    intro e he
    obtain ⟨i, hi, rfl⟩ := List.mem_iff_getElem.mp he
    have hi' : i < runs.length := hcomplete.length_eq ▸ hi
    exact wholeGroup_of_complete (hcomplete.get hi hi') (hsized _ he) (hsmall _ (List.getElem_mem hi'))
  obtain ⟨f', hforward, hgoes⟩ := h.forward hnow hnear (fun hopen => absurd hopen hended)
    (fun e he hopen => nomatch (hwhole e he).closed.symm.trans hopen) hdue
  have hclosed := hgoes.closed hended fun e he => (hwhole e he).not_unfinished
  have hending : (f'.store.track f'.destination.track).ending ≠ none := by
    rw [hgoes.steady.behind.ending, hclosed]
    exact nofun
  obtain ⟨-, hverdicts⟩ := Sound.arrived hgoes.steady hending
  refine ⟨f', hforward, hgoes, hclosed, ?_⟩
  have hlength := hgoes.length_made
  refine List.forall₂_iff_get.mpr ⟨hlength.trans hcomplete.length_eq, fun i hi hi' => ?_⟩
  have hj : i < f.announced.length := hlength ▸ hi
  have ha : f.announced[i] ∈ f.announced := List.getElem_mem hj
  have hrun : f.store.Complete f.announced[i].group (runs[i].map MediaFrame.encoded) := hcomplete.get hj hi'
  -- both groups bear the number `i`
  have hnumber : f'.made[i].sequence = f.announced[i].sequence := by
    have hmade : f'.made.map GroupEntry.sequence = List.range f'.made.length := hlength ▸ hgoes.made
    exact (sequence_of_getElem? hmade (List.getElem?_eq_getElem hi)).trans
      (h.counts.sequence_eq (List.getElem?_eq_getElem hj)).symm
  have hfound : f.announced[i].cursor ∈ f'.found := hgoes.found ▸ List.mem_map_of_mem ha
  have hspares := hgoes.beside.spares _ (List.mem_map_of_mem ha)
  cases hverdicts _ hfound _ (List.getElem_mem hi) hnumber with
  | carried _ hcarried =>
      have hsent : (f'.store.group f.announced[i].cursor.group).frames.map (sentPayload f'.store) =
          runs[i].map MediaFrame.encoded :=
        ((hwhole _ ha).map_sentPayload_later hgoes.beside.grows).trans hrun.payloads_eq
      exact hsent ▸ hcarried _ (.refl _)
  | lost _ _ hnever =>
      refine absurd ?_ (hnever _ (.refl _))
      exact wholeGroup_of_complete (hspares.complete hrun)
        ((hsized _ ha).congr hspares.group hspares.frame) (hsmall _ (List.getElem_mem hi'))

/-- The publisher can close its track at any time. Then all groups are complete with what was published. -/
theorem InStep.close {t : TrackWriter} {fs : List MediaFrame} {p : Publisher} (h : InStep f now)
    (hpublishes : p.Publishes t fs f.store f.announced) (hsource : f.source = t.track) :
    ∃ s, p.close f.store = (.ok (), ⟨t, none⟩, s) ∧ f.store.Grows s ∧ InStep { f with store := s } now ∧
      (s.track f.source).ending = some .complete ∧
      List.Forall₂ (fun e run => s.Complete e.group (run.map MediaFrame.encoded)) f.announced (runsOf fs) ∧
      ∀ e ∈ f.announced, s.Sized e.group := by
  obtain ⟨s, hclose, hgrows, hending, hretained, hcomplete, hsized⟩ := hpublishes.close
  have hbeside := Publisher.close_beside h.parted.symm hpublishes.current_mem hclose
  rw [hpublishes.track_eq, ← hsource] at hbeside
  rw [← hsource] at hending hretained
  have hcounts : (s.track f.source).Counts (f.announced ++ []) := by
    rw [List.append_nil]
    exact h.counts.same (hretained.trans h.counts.retained.symm)
  have hnone : ([] : List GroupEntry).length ≤ Track.window := Nat.zero_le _
  have hlast := h.publish (by rwa [List.append_nil]) hcounts
    (fun e haborted => nomatch hending.symm.trans haborted) hnone
    (fun e he => absurd he List.not_mem_nil)
  rw [List.append_nil] at hlast
  exact ⟨s, hclose, hgrows, hlast, hending, hcomplete, hsized⟩

/-- **What is behind the network was promised**: if the publisher closed its track now, the groups would be
    complete with the runs of what it has published. -/
theorem InStep.promised {t : TrackWriter} {fs : List MediaFrame} {p : Publisher} (h : InStep f now)
    (hall : f.made.length = f.announced.length) (hpublishes : p.Publishes t fs f.store f.announced)
    (hsource : f.source = t.track)
    (hsmall : ∀ x ∈ fs, x.encoded.length ≤ Varint.compactMaximum) :
    Promised f.store f.made (runsOf fs) := by
  obtain ⟨s, -, hgrows, hlast, hending, hcomplete, hsized⟩ := h.close hpublishes hsource
  obtain ⟨f', -, hgoes, -, hthere⟩ := hlast.arrive [] (fun _ => now) (Nat.le_refl _)
    (Nat.le_succ_of_le (Nat.le_of_eq hall.symm)) (fun _ _ => Nat.le_refl _)
    (fun hopen => nomatch hending.symm.trans hopen) hcomplete hsized
    (fun run hrun x hx => hsmall x (mem_of_mem_runsOf hrun hx))
  have hmade : f'.made = f.made :=
    (hgoes.prefix_made.eq_of_length (hall.trans hgoes.length_made.symm)).symm
  exact ⟨f'.store, hgrows.trans hgoes.beside.grows, hmade ▸ hthere⟩

end Forwarding

end LiveMedia.Simulation
