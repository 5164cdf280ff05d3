import LiveMedia.Playback.Publisher
import LiveMedia.Proofs.Live.Announcement
import LiveMedia.Proofs.Live.Filling
import LiveMedia.Proofs.Live.Footprint
import LiveMedia.Proofs.Wire.Primitive
import Mathlib.Data.List.Basic
import Mathlib.Data.List.Forall2
import Mathlib.Data.List.Nodup
import Mathlib.Data.List.TakeWhile

/-!
# Media in groups

A publisher begins a group at each keyframe and puts the frames up to the next one into it. So the groups of a
track are the runs of what was published (`runsOf`), one for each keyframe, and nothing of what comes before
the first keyframe is in any of them. On the wire a frame is its timestamp and its payload; the mark of a
keyframe is not written, and need not be: it is the place of the frame in its run (`keyframe_of_mem_runsOf`).

`Publisher.Publishes` says how far a publisher has come. Before the first keyframe there is nothing on the
track. From then on all groups but the last are complete with what was published (`Finished`), and the last is
being filled. One write is `Publisher.Publishes.write`: it is refused before the first keyframe, it finds no
number for its group, or it is written.
-/

namespace LiveMedia.Playback

open LiveMedia.Wire LiveMedia.Live

-- ── frames on the wire ──────────────────────────────────────────────

namespace MediaFrame

/-- The bytes that are written for a frame. -/
def encoded (f : MediaFrame) : Bytes := f.chunks.flatten

/-- The same frame with its payload in one piece. -/
def joined (f : MediaFrame) : MediaFrame := ofChunks f.timestamp f.keyframe [f.bytes]

/-- **A frame is read back** with the mark that its reader gives it. -/
theorem decode_encoded {f : MediaFrame} (h : f.timestamp.value ≤ Varint.maximum) (keyframe : Bool) :
    decode f.encoded keyframe = .ok (ofChunks f.timestamp keyframe [f.bytes]) := by
  have hrun : Varint.decode.run f.encoded = (.ok f.timestamp.ticks, f.bytes) :=
    Varint.inverts h f.timestamp.ticks.encode rfl f.bytes
  rw [decode, hrun]

end MediaFrame

-- ── runs ────────────────────────────────────────────────────────────

/-- The runs of frames from one keyframe to the next. What comes before the first keyframe is in none. -/
def runsOf : List MediaFrame → List (List MediaFrame)
  | [] => []
  | f :: fs =>
    if f.keyframe then (f :: fs.takeWhile fun f => !f.keyframe) :: runsOf fs else runsOf fs

theorem runsOf_cons_of_keyframe {f : MediaFrame} (hf : f.keyframe = true) (fs : List MediaFrame) :
    runsOf (f :: fs) = (f :: fs.takeWhile fun f => !f.keyframe) :: runsOf fs := by
  rw [runsOf, if_pos hf]

theorem runsOf_cons_of_not_keyframe {f : MediaFrame} (hf : f.keyframe = false) (fs : List MediaFrame) :
    runsOf (f :: fs) = runsOf fs := by
  rw [runsOf, hf]
  rfl

/-- There is one run for each keyframe. -/
theorem length_runsOf (fs : List MediaFrame) : (runsOf fs).length = fs.countP (·.keyframe) := by
  induction fs with
  | nil => rfl
  | cons f fs ih =>
      cases hf : f.keyframe with
      | true => rw [runsOf_cons_of_keyframe hf, List.length_cons, ih, List.countP_cons_of_pos hf]
      | false =>
          rw [runsOf_cons_of_not_keyframe hf, ih, List.countP_cons_of_neg (Bool.eq_false_iff.mp hf)]

theorem length_runsOf_le_append (fs fs' : List MediaFrame) :
    (runsOf fs).length ≤ (runsOf (fs ++ fs')).length := by
  rw [length_runsOf, length_runsOf, List.countP_append]
  exact Nat.le_add_right _ _

theorem runsOf_eq_nil_iff {fs : List MediaFrame} : runsOf fs = [] ↔ ∀ f ∈ fs, f.keyframe = false := by
  rw [← List.length_eq_zero_iff, length_runsOf, List.countP_eq_zero]
  simp

/-- The runs are maximal: put together they are everything from the first keyframe on. -/
theorem flatten_runsOf (fs : List MediaFrame) :
    (runsOf fs).flatten = fs.dropWhile fun f => !f.keyframe := by
  have hsplit : ∀ fs, fs.takeWhile (fun f => !f.keyframe) ++ (runsOf fs).flatten = fs := by
    intro fs
    induction fs with
    | nil => rfl
    | cons f fs ih =>
        cases hf : f.keyframe with
        | true => rw [runsOf_cons_of_keyframe hf]; simpa [hf] using ih
        | false => rw [runsOf_cons_of_not_keyframe hf]; simpa [hf] using ih
  have hboth := (hsplit fs).trans (List.takeWhile_append_dropWhile (p := fun f => !f.keyframe)).symm
  exact List.append_cancel_left hboth

theorem mem_of_mem_runsOf {fs run : List MediaFrame} {f : MediaFrame} (h : run ∈ runsOf fs) (hf : f ∈ run) :
    f ∈ fs := by
  have hmem : f ∈ (runsOf fs).flatten := List.mem_flatten_of_mem h hf
  rw [flatten_runsOf] at hmem
  exact (List.dropWhile_suffix _).mem hmem

/-- The first frame of a run is its keyframe, and there is no other. -/
theorem keyframe_of_mem_runsOf {fs run : List MediaFrame} (h : run ∈ runsOf fs) {k : Nat} {f : MediaFrame}
    (hk : run[k]? = some f) : f.keyframe = (k == 0) := by
  induction fs with
  | nil => cases h
  | cons first fs ih =>
      cases hfirst : first.keyframe with
      | false =>
          rw [runsOf_cons_of_not_keyframe hfirst] at h
          exact ih h
      | true =>
          rw [runsOf_cons_of_keyframe hfirst] at h
          rcases List.mem_cons.mp h with rfl | h
          · cases k with
            | zero =>
                obtain rfl := Option.some.inj hk
                exact hfirst
            | succ k =>
                have hmem : f ∈ fs.takeWhile fun f => !f.keyframe := List.mem_of_getElem? hk
                simpa using List.mem_takeWhile_imp hmem
          · exact ih h

/-- What comes behind no keyframe is in no run. -/
theorem runsOf_append_of_forall {front : List MediaFrame} (h : ∀ f ∈ front, f.keyframe = false)
    (fs : List MediaFrame) : runsOf (front ++ fs) = runsOf fs := by
  induction front with
  | nil => rfl
  | cons f front ih =>
      obtain ⟨hf, hfront⟩ := List.forall_mem_cons.mp h
      rw [List.cons_append, runsOf_cons_of_not_keyframe hf, ih hfront]

/-- Frames that are put together in runs come apart in the same runs. -/
theorem runsOf_flatten {runs : List (List MediaFrame)}
    (h : ∀ run ∈ runs, ∃ f rest, run = f :: rest ∧ f.keyframe = true ∧ ∀ x ∈ rest, x.keyframe = false) :
    runsOf runs.flatten = runs := by
  induction runs with
  | nil => rfl
  | cons run runs ih =>
      obtain ⟨⟨f, rest, rfl, hf, hrest⟩, hruns⟩ := List.forall_mem_cons.mp h
      have hall : ∀ x ∈ rest, (!x.keyframe) = true := fun x hx => by rw [hrest x hx]; rfl
      -- the next run begins with a keyframe, if there is one
      have hstop : runs.flatten.takeWhile (fun f => !f.keyframe) = [] := by
        cases runs with
        | nil => rfl
        | cons run runs =>
            obtain ⟨⟨g, more, rfl, hg, -⟩, -⟩ := List.forall_mem_cons.mp hruns
            rw [List.flatten_cons, List.cons_append, List.takeWhile_cons, hg]
            rfl
      rw [List.flatten_cons, List.cons_append, runsOf_cons_of_keyframe hf,
        runsOf_append_of_forall hrest, ih hruns, List.takeWhile_append_of_pos hall, hstop, List.append_nil]

/-- A keyframe begins a run. -/
theorem runsOf_append_keyframe {f : MediaFrame} (hf : f.keyframe = true) (fs : List MediaFrame) :
    runsOf (fs ++ [f]) = runsOf fs ++ [[f]] := by
  induction fs with
  | nil => exact runsOf_cons_of_keyframe hf []
  | cons g fs ih =>
      cases hg : g.keyframe with
      | false =>
          rw [List.cons_append, runsOf_cons_of_not_keyframe hg, runsOf_cons_of_not_keyframe hg, ih]
      | true =>
          -- the run of `g` ends before `f`, if it did not end before
          have hstop : (fs ++ [f]).takeWhile (fun f => !f.keyframe) =
              fs.takeWhile fun f => !f.keyframe := by
            rw [List.takeWhile_append]
            split
            · next hall =>
              rw [(List.takeWhile_prefix _).eq_of_length hall]
              simp [hf]
            · rfl
          rw [List.cons_append, runsOf_cons_of_keyframe hg, runsOf_cons_of_keyframe hg, ih, hstop,
            List.cons_append]

/-- Without a run before it, any other frame is in none. -/
theorem runsOf_append_of_nil {f : MediaFrame} (hf : f.keyframe = false) {fs : List MediaFrame}
    (h : runsOf fs = []) : runsOf (fs ++ [f]) = [] := by
  rw [runsOf_eq_nil_iff] at h ⊢
  intro x hx
  rcases List.mem_append.mp hx with hx | hx
  · exact h x hx
  · obtain rfl := List.mem_singleton.mp hx
    exact hf

/-- With a run before it, it goes to the last of them. -/
theorem runsOf_append {f : MediaFrame} (hf : f.keyframe = false) {fs : List MediaFrame}
    {runs : List (List MediaFrame)} {run : List MediaFrame} (h : runsOf fs = runs ++ [run]) :
    runsOf (fs ++ [f]) = runs ++ [run ++ [f]] := by
  induction fs generalizing runs run with
  | nil => cases runs <;> cases h
  | cons g fs ih =>
      cases hg : g.keyframe with
      | false =>
          rw [runsOf_cons_of_not_keyframe hg] at h
          rw [List.cons_append, runsOf_cons_of_not_keyframe hg, ih h]
      | true =>
          have hall : (fs.takeWhile fun f => !f.keyframe) = fs ↔ runsOf fs = [] := by
            rw [List.takeWhile_eq_self_iff, runsOf_eq_nil_iff]
            simp
          rw [runsOf_cons_of_keyframe hg] at h
          rw [List.cons_append, runsOf_cons_of_keyframe hg, List.takeWhile_append]
          rcases List.eq_nil_or_concat' (runsOf fs) with hnil | ⟨later, last, hlater⟩
          · -- there is no keyframe behind `g`, so its run is the last and goes on
            rw [hall.mpr hnil, hnil] at h
            obtain ⟨rfl, hrun⟩ := List.append_inj' (show [] ++ [g :: fs] = runs ++ [run] from h) rfl
            obtain rfl := (List.cons.inj hrun).1
            rw [hall.mpr hnil, if_pos rfl, runsOf_append_of_nil hf hnil]
            simp [hf]
          · rw [hlater] at h
            obtain ⟨rfl, hrun⟩ := List.append_inj'
              (show ((g :: fs.takeWhile fun f => !f.keyframe) :: later) ++ [last] = runs ++ [run] from h) rfl
            obtain rfl := (List.cons.inj hrun).1
            have hstop : ¬(fs.takeWhile fun f => !f.keyframe).length = fs.length := by
              intro hlength
              have hnil := hall.mp ((List.takeWhile_prefix _).eq_of_length hlength)
              rw [hlater] at hnil
              simp at hnil
            rw [if_neg hstop, ih hlater, List.cons_append]

/-- Every run goes on as more is published. -/
theorem runsOf_prefix {fs : List MediaFrame} (f : MediaFrame) {i : Nat} {run : List MediaFrame}
    (h : (runsOf fs)[i]? = some run) : ∃ run', (runsOf (fs ++ [f]))[i]? = some run' ∧ run <+: run' := by
  obtain ⟨hlt, rfl⟩ := List.getElem?_eq_some_iff.mp h
  cases hf : f.keyframe with
  | true =>
      refine ⟨(runsOf fs)[i], ?_, List.prefix_refl _⟩
      rw [runsOf_append_keyframe hf, List.getElem?_append_left hlt]
      exact h
  | false =>
      rcases List.eq_nil_or_concat' (runsOf fs) with hnil | ⟨runs, last, hruns⟩
      · simp [hnil] at hlt
      · rw [runsOf_append hf hruns]
        simp only [hruns, List.length_append, List.length_singleton] at hlt ⊢
        by_cases hlast : i < runs.length
        · refine ⟨runs[i], ?_, ?_⟩
          · rw [List.getElem?_append_left hlast, List.getElem?_eq_getElem hlast]
          · simp [List.getElem_append_left hlast]
        · obtain rfl : i = runs.length := by omega
          refine ⟨last ++ [f], ?_, ?_⟩
          · rw [List.getElem?_append_right (Nat.le_refl _), Nat.sub_self]
            rfl
          · rw [List.getElem_append_right (Nat.le_refl _)]
            simp

-- ── numbers ─────────────────────────────────────────────────────────

/-- An open track with these groups, numbered from zero on with none left out. -/
structure Numbered (track : Track) (entries : List GroupEntry) : Prop where
  sequences : entries.map GroupEntry.sequence = List.range entries.length
  retained : track.retained = Track.latest entries
  largest : track.largest = if entries = [] then none else some (entries.length - 1)
  ending : track.ending = none
  length_le : entries.length ≤ Track.sequenceLimit

namespace Numbered

variable {track : Track} {entries : List GroupEntry}

theorem nextSequence?_eq (h : Numbered track entries) : track.nextSequence? =
    if entries.length < Track.sequenceLimit then some entries.length else none := by
  have hlimit : 0 < Track.sequenceLimit := by decide
  rw [Track.nextSequence?, h.largest]
  by_cases hnil : entries = []
  · rw [if_pos hnil, hnil, List.length_nil, if_pos hlimit]
  · have hpos : 0 < entries.length := List.length_pos_iff.mpr hnil
    rw [if_neg hnil]
    dsimp only
    rw [Nat.sub_add_cancel hpos]

/-- A track gets no number twice. -/
theorem nodup (h : Numbered track entries) : entries.Nodup := by
  refine List.Nodup.of_map GroupEntry.sequence ?_
  rw [h.sequences]
  exact List.nodup_range

/-- The next number is free. -/
theorem retains_eq_false (h : Numbered track entries) : track.retains entries.length = false := by
  rw [Track.retains, h.retained, List.any_eq_false]
  intro e he
  have hmem := List.mem_map_of_mem (f := GroupEntry.sequence) ((Track.latest_suffix entries).mem he)
  rw [h.sequences] at hmem
  rw [beq_iff_eq]
  exact Nat.ne_of_lt (List.mem_range.mp hmem)

/-- A group is inserted under the next number, if there is one. -/
theorem insert_eq (h : Numbered track entries) (hlimit : entries.length < Track.sequenceLimit)
    (group : GroupId) :
    ∃ track', track.insert ⟨group, entries.length⟩ = .ok track' ∧
      Numbered track' (entries ++ [⟨group, entries.length⟩]) := by
  have hopen : track.checkOpen = .ok () := by
    rw [Track.checkOpen, h.ending]
  refine ⟨{ track with
    retained := Track.latest (track.retained ++ [⟨group, entries.length⟩])
    largest := some (max entries.length (track.largest.getD entries.length)) }, ?_, ?_⟩
  · rw [Track.insert, hopen]
    show (if track.retains entries.length = true then _ else _) = _
    rw [h.retains_eq_false]
    rfl
  · constructor
    · rw [List.map_append, h.sequences, List.length_append, List.length_singleton, List.range_succ]
      rfl
    · show Track.latest (track.retained ++ _) = _
      rw [h.retained, Track.latest_latest_append]
    · show some (max entries.length (track.largest.getD entries.length)) = _
      have hlargest : max entries.length (track.largest.getD entries.length) = entries.length := by
        rw [h.largest]
        split
        · exact Nat.max_self _
        · exact Nat.max_eq_left (Nat.sub_le _ _)
      rw [hlargest, if_neg (List.append_ne_nil_of_right_ne_nil _ (List.cons_ne_nil _ _)),
        List.length_append]
      rfl
    · exact h.ending
    · rw [List.length_append]
      exact hlimit

end Numbered

-- ── groups ──────────────────────────────────────────────────────────

/-- The hand that writes a group. -/
def writerOf (e : GroupEntry) : GroupWriter := ⟨e.group, e.sequence⟩

/-- The group has the frames of a run. -/
def Holds (s : Store) (e : GroupEntry) (run : List MediaFrame) : Prop :=
  s.payloads (s.group e.group).frames = run.map MediaFrame.encoded

namespace Holds

variable {s : Store} {e : GroupEntry} {run : List MediaFrame}

theorem length_eq (h : Holds s e run) : (s.group e.group).frames.length = run.length := by
  have hlength := congrArg List.length h
  rw [Store.payloads, List.length_map, List.length_map] at hlength
  exact hlength

theorem payload_eq (h : Holds s e run) {k : Nat} {w : FrameWriter}
    (hw : (s.group e.group).frames[k]? = some w) :
    ∃ f, run[k]? = some f ∧ f.encoded = (s.frame w.frame).payload := by
  have hpayload : (run.map MediaFrame.encoded)[k]? = some (s.frame w.frame).payload := by
    rw [← h, Store.payloads, List.getElem?_map, hw]
    rfl
  rw [List.getElem?_map] at hpayload
  exact Option.map_eq_some_iff.mp hpayload

end Holds

/-- The group is complete with a run of frames. It and its frames are older than the bounds. -/
structure Finished (base : FrameId) (bound : GroupId) (s : Store) (e : GroupEntry)
    (run : List MediaFrame) : Prop where
  complete : s.Complete e.group (run.map MediaFrame.encoded)
  group_lt : e.group < bound
  frames_lt : ∀ w ∈ (s.group e.group).frames, w.frame < base
  sized : s.Sized e.group

namespace Finished

variable {base base' : FrameId} {bound bound' : GroupId} {s s' : Store} {e : GroupEntry}
  {run : List MediaFrame}

theorem mono (h : Finished base bound s e run) (hbase : base ≤ base') (hbound : bound ≤ bound') :
    Finished base' bound' s e run where
  complete := h.complete
  group_lt := Nat.lt_of_lt_of_le h.group_lt hbound
  frames_lt w hw := Nat.lt_of_lt_of_le (h.frames_lt w hw) hbase
  sized := h.sized

/-- What is younger may change. -/
theorem congr (h : Finished base bound s e run) (hgroup : ∀ i < bound, s'.group i = s.group i)
    (hframe : ∀ i < base, s'.frame i = s.frame i) : Finished base bound s' e run where
  complete := h.complete.congr (hgroup _ h.group_lt) fun w hw => hframe _ (h.frames_lt w hw)
  group_lt := h.group_lt
  frames_lt w hw := h.frames_lt w (hgroup _ h.group_lt ▸ hw)
  sized := h.sized.congr (hgroup _ h.group_lt) fun w hw => hframe _ (h.frames_lt w hw)

theorem confined (h : Finished base bound s e run) (hs : Store.Confined base bound s s') :
    Finished base bound s' e run :=
  h.congr (fun i hi => hs.groups i (Nat.ne_of_lt hi)) hs.frames

theorem holds (h : Finished base bound s e run) : Holds s e run := h.complete.payloads_eq

end Finished

/-- All groups of an open track are complete with these runs. -/
structure Rests (t : TrackWriter) (s : Store) (entries : List GroupEntry)
    (runs : List (List MediaFrame)) : Prop where
  track_lt : t.track < s.tracks.size
  numbered : Numbered (s.track t.track) entries
  finished : List.Forall₂ (Finished s.frames.size s.groups.size s) entries runs

/-- All groups of an open track are complete with these runs, but for the last. That is being filled, and
    holds a run so far. -/
structure Fills (t : TrackWriter) (s : Store) (entries : List GroupEntry)
    (runs : List (List MediaFrame)) (e : GroupEntry) (run : List MediaFrame) : Prop where
  track_lt : t.track < s.tracks.size
  numbered : Numbered (s.track t.track) (entries ++ [e])
  filling : ∃ base ws, Store.Filling base s (writerOf e) ws none ∧
    s.payloads ws = run.map MediaFrame.encoded ∧ List.Forall₂ (Finished base e.group s) entries runs

variable {t : TrackWriter} {s : Store} {entries : List GroupEntry} {runs : List (List MediaFrame)}
  {e : GroupEntry} {run : List MediaFrame}

theorem rests_start (s : Store) (info : TrackInfo) :
    Rests (s.newTrack info).1 (s.newTrack info).2 [] [] where
  track_lt := by
    show s.tracks.size < (s.tracks.push .fresh).size
    rw [Array.size_push]
    exact Nat.lt_succ_self _
  numbered := by
    have hfresh : (s.newTrack info).2.track (s.newTrack info).1.track = .fresh := by
      show (s.tracks.push .fresh)[s.tracks.size]?.getD .fresh = _
      rw [Array.getElem?_push_size]
      rfl
    rw [hfresh]
    exact ⟨rfl, rfl, rfl, rfl, Nat.zero_le _⟩
  finished := .nil

/-- The next group is begun, with the next number. -/
theorem Rests.begin (h : Rests t s entries runs) (hlimit : entries.length < Track.sequenceLimit) :
    ∃ e s', s.appendGroup? t = some (.ok (writerOf e, s')) ∧ Fills t s' entries runs e [] ∧
      s.Grows s' := by
  obtain ⟨track, hinsert, hnumbered⟩ := h.numbered.insert_eq hlimit s.groups.size
  let s' := (s.newGroup entries.length).2.setTrack t.track track
  have hcreate : s.createGroup t entries.length = .ok (⟨s.groups.size, entries.length⟩, s') := by
    simp only [Store.createGroup, Store.newGroup, hinsert, bind, Except.bind]
    rfl
  refine ⟨⟨s.groups.size, entries.length⟩, s', ?_, ?_, .createGroup hcreate⟩
  · rw [Store.appendGroup?, h.numbered.nextSequence?_eq, if_pos hlimit, Option.map_some, hcreate]
    rfl
  · constructor
    · show t.track < (s.tracks.setIfInBounds t.track track).size
      rw [Array.size_setIfInBounds]
      exact h.track_lt
    · rw [(s.newGroup entries.length).2.track_setTrack_self h.track_lt]
      exact hnumbered
    · refine ⟨s.frames.size, [], .fresh hcreate, rfl, ?_⟩
      exact h.finished.imp fun _ _ hf =>
        hf.congr (fun i _ => s.group_newGroup entries.length i) fun _ _ => rfl

/-- A frame is written at the end of the group. -/
theorem Fills.write (h : Fills t s entries runs e run) (f : MediaFrame) :
    ∃ s', s.writeFrame (writerOf e) f.chunks = .ok s' ∧ Fills t s' entries runs e (run ++ [f]) ∧
      s.Grows s' := by
  obtain ⟨base, ws, hfilling, hpayloads, hfinished⟩ := h.filling
  obtain ⟨c, s', hwrite, hfilling', hpayloads', hconfined⟩ := hfilling.writeFrame f.chunks
  refine ⟨s', hwrite, ⟨?_, ?_, base, ws ++ [c], hfilling', ?_, ?_⟩, .writeFrame hwrite⟩
  · rw [hconfined.tracks]
    exact h.track_lt
  · rw [Store.track, hconfined.tracks]
    exact h.numbered
  · rw [hpayloads', hpayloads, List.map_append]
    rfl
  · exact hfinished.imp fun _ _ hf => hf.confined hconfined

/-- The group is closed. -/
theorem Fills.close (h : Fills t s entries runs e run) :
    ∃ s', s.closeGroup (writerOf e) = .ok s' ∧ Rests t s' (entries ++ [e]) (runs ++ [run]) ∧
      s.Grows s' := by
  obtain ⟨base, ws, hfilling, hpayloads, hfinished⟩ := h.filling
  obtain ⟨s', hclose, hcomplete, hconfined⟩ := hfilling.closeGroup
  rw [hpayloads] at hcomplete
  obtain ⟨group, hgroup, rfl⟩ := exists_of_map_eq_ok hclose
  rw [hfilling.group_eq] at hgroup
  obtain rfl := Except.ok.inj hgroup
  let s' := s.setGroup e.group ⟨ws ++ [], some .complete⟩
  have hself : s'.group e.group = ⟨ws ++ [], some .complete⟩ := s.group_setGroup_self hfilling.group_lt _
  have hlt : e.group < s'.groups.size := hconfined.groups_size.symm ▸ hfilling.group_lt
  refine ⟨s', hclose, ⟨h.track_lt, h.numbered, ?_⟩, .closeGroup hclose⟩
  have hkept := hfinished.imp fun _ _ hf =>
    (hf.confined hconfined).mono hfilling.base_le (Nat.le_of_lt hlt)
  have hframes : (s'.group e.group).frames = ws ++ [] := congrArg Group.frames hself
  have hids : ∀ w ∈ (s'.group e.group).frames, w.frame < s'.frames.size := fun w hw =>
    (hfilling.frame_ids w (hframes ▸ hw)).2
  have hsized : s'.Sized e.group := fun w hw =>
    hfilling.sized w (List.append_nil ws ▸ hframes ▸ hw)
  exact List.rel_append hkept (.cons ⟨hcomplete, hlt, hids, hsized⟩ .nil)

theorem Fills.holds (h : Fills t s entries runs e run) : Holds s e run := by
  obtain ⟨base, ws, hfilling, hpayloads, -⟩ := h.filling
  rw [Holds, show s.group e.group = ⟨ws ++ [], none⟩ from hfilling.group_eq, List.append_nil]
  exact hpayloads

/-- The track is closed. -/
theorem Rests.closeTrack (h : Rests t s entries runs) :
    ∃ s', s.closeTrack t = .ok s' ∧ s.Grows s' ∧ (s'.track t.track).ending = some .complete ∧
      (s'.track t.track).retained = Track.latest entries ∧
      List.Forall₂ (fun e run => s'.Complete e.group (run.map MediaFrame.encoded)) entries runs ∧
      ∀ e ∈ entries, s'.Sized e.group := by
  let track : Track := { s.track t.track with ending := some .complete }
  have hself : (s.setTrack t.track track).track t.track = track := s.track_setTrack_self h.track_lt _
  refine ⟨s.setTrack t.track track, Store.closeTrack_of_open h.numbered.ending,
    .same (fun _ => rfl) (fun _ => rfl), ?_, ?_, ?_, fun e he => ?_⟩
  · rw [hself]
  · rw [hself]
    exact h.numbered.retained
  · exact h.finished.imp fun _ _ hf => hf.complete.congr rfl fun _ _ => rfl
  · obtain ⟨i, hi, rfl⟩ := List.mem_iff_getElem.mp he
    exact (h.finished.get hi (h.finished.length_eq ▸ hi)).sized

-- ── the publisher ───────────────────────────────────────────────────

namespace Publisher

/-- How far a publisher has come that was given frames: its track has a group for each run of them. -/
inductive Publishes (t : TrackWriter) (fs : List MediaFrame) (s : Store) :
    List GroupEntry → Publisher → Prop where
  | waiting : runsOf fs = [] → Rests t s [] [] → Publishes t fs s [] ⟨t, none⟩
  | writing {entries : List GroupEntry} {runs : List (List MediaFrame)} {e : GroupEntry}
      {run : List MediaFrame} : runsOf fs = runs ++ [run] → Fills t s entries runs e run →
      Publishes t fs s (entries ++ [e]) ⟨t, some (writerOf e)⟩

/-- What comes of one more frame. -/
inductive Wrote (t : TrackWriter) (fs : List MediaFrame) (s : Store) (entries : List GroupEntry)
    (p : Publisher) (f : MediaFrame) : Option (Except MediaError Unit × Publisher × Store) → Prop where
  /-- There was no keyframe yet. -/
  | refused : runsOf (fs ++ [f]) = [] → Publishes t (fs ++ [f]) s entries p →
      Wrote t fs s entries p f (some (.error .missingKeyframe, p, s))
  /-- There are more runs than numbers. -/
  | full : Track.sequenceLimit < (runsOf (fs ++ [f])).length → Wrote t fs s entries p f none
  | written {s' : Store} {more : List GroupEntry} {p' : Publisher} : runsOf (fs ++ [f]) ≠ [] →
      more.length ≤ 1 → s.Grows s' → Publishes t (fs ++ [f]) s' (entries ++ more) p' →
      Wrote t fs s entries p f (some (.ok (), p', s'))

namespace Publishes

variable {fs : List MediaFrame} {p : Publisher}

theorem start (s : Store) (info : TrackInfo) : Publishes (s.newTrack info).1 [] (s.newTrack info).2 []
    (.start (s.newTrack info).1) :=
  .waiting rfl (rests_start s info)

theorem track_eq (h : Publishes t fs s entries p) : p.track = t := by
  cases h <;> rfl

theorem numbered (h : Publishes t fs s entries p) : Numbered (s.track t.track) entries := by
  cases h with
  | waiting _ hrests => exact hrests.numbered
  | writing _ hfills => exact hfills.numbered

theorem holds (h : Publishes t fs s entries p) : List.Forall₂ (Holds s) entries (runsOf fs) := by
  cases h with
  | waiting hnil _ =>
      rw [hnil]
      exact .nil
  | writing hruns hfills =>
      obtain ⟨base, ws, -, -, hfinished⟩ := hfills.filling
      rw [hruns]
      exact List.rel_append (hfinished.imp fun _ _ hf => hf.holds) (.cons hfills.holds .nil)

/-- The current group, if there is one, is closed. -/
theorem endGroup (h : Publishes t fs s entries p) : ∃ s', p.endGroup s = (.ok s', ⟨t, none⟩) ∧
    Rests t s' entries (runsOf fs) ∧ s.Grows s' := by
  cases h with
  | waiting hnil hrests =>
      rw [hnil]
      exact ⟨s, rfl, hrests, .refl s⟩
  | writing hruns hfills =>
      obtain ⟨s', hclose, hrests, hgrows⟩ := hfills.close
      rw [hruns]
      refine ⟨s', ?_, hrests, hgrows⟩
      rw [Publisher.endGroup]
      dsimp only
      rw [hclose]
      rfl

/-- **Every frame is written**, unless there was no keyframe yet or there is no number left. -/
theorem write (h : Publishes t fs s entries p) (f : MediaFrame) :
    Wrote t fs s entries p f (p.write? s f) := by
  cases hf : f.keyframe with
  | true =>
      obtain ⟨s₁, hend, hrests, hgrows₁⟩ := h.endGroup
      have hruns := runsOf_append_keyframe hf fs
      rw [Publisher.write?, if_pos hf, hend]
      dsimp only
      rw [Publisher.beginGroup?]
      by_cases hlimit : entries.length < Track.sequenceLimit
      · obtain ⟨e, s₂, happend, hfills, hgrows₂⟩ := hrests.begin hlimit
        obtain ⟨s₃, hwrite, hfills', hgrows₃⟩ := hfills.write f
        rw [happend]
        dsimp only [Publisher.writeCurrent, Publisher.writeTo]
        rw [hwrite]
        have hone : [e].length ≤ 1 := Nat.le_refl 1
        refine .written ?_ hone ((hgrows₁.trans hgrows₂).trans hgrows₃) (.writing hruns hfills')
        simp [hruns]
      · have hnone : s₁.appendGroup? t = none := by
          rw [Store.appendGroup?, hrests.numbered.nextSequence?_eq, if_neg hlimit]
          rfl
        rw [hnone]
        refine .full ?_
        rw [hruns, List.length_append, ← hrests.finished.length_eq]
        exact Nat.lt_succ_of_le (Nat.le_of_not_lt hlimit)
  | false =>
      rw [Publisher.write?, hf, if_neg Bool.false_ne_true]
      cases h with
      | waiting hnil hrests =>
          have hnil' := runsOf_append_of_nil hf hnil
          exact .refused hnil' (.waiting hnil' hrests)
      | @writing entries runs e run hruns hfills =>
          have hruns' := runsOf_append hf hruns
          obtain ⟨s', hwrite, hfills', hgrows⟩ := hfills.write f
          dsimp only [Publisher.writeCurrent, Publisher.writeTo]
          rw [hwrite]
          have hnone : ([] : List GroupEntry).length ≤ 1 := Nat.zero_le 1
          refine .written ?_ hnone hgrows ?_
          · simp [hruns']
          · rw [List.append_nil]
            exact .writing hruns' hfills'

/-- So is every frame whose bytes are counted in a word, if they can be. -/
theorem writeCounted (h : Publishes t fs s entries p) {f : MediaFrame} (hf : f.isCountable = true) :
    Wrote t fs s entries p f (p.writeCounted? s f) := by
  have hsame : p.writeCounted? s f = p.write? s f := by
    rw [Publisher.writeCounted?, hf]
    cases p.write? s f with
    | none => rfl
    | some result => simp
  rw [hsame]
  exact h.write f

/-- **The end of the track is reached**, and every group is complete with its run. -/
theorem close (h : Publishes t fs s entries p) : ∃ s', p.close s = (.ok (), ⟨t, none⟩, s') ∧ s.Grows s' ∧
    (s'.track t.track).ending = some .complete ∧ (s'.track t.track).retained = Track.latest entries ∧
    List.Forall₂ (fun e run => s'.Complete e.group (run.map MediaFrame.encoded)) entries (runsOf fs) ∧
    ∀ e ∈ entries, s'.Sized e.group := by
  obtain ⟨s₁, hend, hrests, hgrows⟩ := h.endGroup
  obtain ⟨s₂, hclose, hgrows₂, hcomplete⟩ := hrests.closeTrack
  refine ⟨s₂, ?_, hgrows.trans hgrows₂, hcomplete⟩
  rw [Publisher.close, hend]
  dsimp only
  rw [hclose]

end Publishes

end Publisher

end LiveMedia.Playback
