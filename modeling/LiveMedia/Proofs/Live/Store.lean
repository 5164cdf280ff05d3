import LiveMedia.Live.Store

/-!
# What store operations change

The store is looked at through `frame`, `group` and `track`. Setting one object changes what is seen
under its identity and nothing else, and a new object is not seen at all before it is written, because
an identity that is not in use shows a fresh object already.

An operation that succeeds is told by the changes that it consists of (`createFrame_eq_ok` and its like).
What has ended refuses its writers with the error that belongs to its ending, and whoever still has a
writer of it can only abort it. An open track refuses nothing but a group of a number that it retains.

`Confined` says that a change stays within one group: other groups, the tracks and the broadcasts are as
they were, and so are the frames below a bound. Whoever fills a group with frames of its own is confined
in this way, and being confined is closed under steps.
-/

namespace LiveMedia.Live

open LiveMedia.Wire

/-- A mapped result that is a value comes from a value. -/
theorem exists_of_map_eq_ok {ε α β : Type} {x : Except ε α} {f : α → β} {b : β}
    (h : x.map f = .ok b) : ∃ a, x = .ok a ∧ b = f a := by
  cases x with
  | error e => cases h
  | ok a =>
      cases h
      exact ⟨a, rfl, rfl⟩

/-- A track that was closed is complete and otherwise as it was. -/
theorem Track.close_eq_ok {t t' : Track} (h : t.close = .ok t') :
    t' = { t with ending := some .complete } := by
  rw [close] at h
  cases hopen : t.checkOpen with
  | error e =>
      rw [hopen] at h
      cases h
  | ok _ =>
      rw [hopen] at h
      exact (Except.ok.inj h).symm

namespace Store

variable (s : Store)

-- ── setting ─────────────────────────────────────────────────────────

/-- A frame of the store that is set is seen as it was set. -/
theorem frame_setFrame_self {id : FrameId} (h : id < s.frames.size) (f : Frame) :
    (s.setFrame id f).frame id = f := by
  simp [frame, setFrame, h]

/-- Other frames are seen as before. -/
theorem frame_setFrame_of_ne {i id : FrameId} (h : i ≠ id) (f : Frame) :
    (s.setFrame id f).frame i = s.frame i := by
  simp [frame, setFrame, Array.getElem?_setIfInBounds_ne h.symm]

theorem group_setGroup_self {id : GroupId} (h : id < s.groups.size) (g : Group) :
    (s.setGroup id g).group id = g := by
  simp [group, setGroup, h]

theorem group_setGroup_of_ne {i id : GroupId} (h : i ≠ id) (g : Group) :
    (s.setGroup id g).group i = s.group i := by
  simp [group, setGroup, Array.getElem?_setIfInBounds_ne h.symm]

theorem track_setTrack_self {id : TrackId} (h : id < s.tracks.size) (t : Track) :
    (s.setTrack id t).track id = t := by
  simp [track, setTrack, h]

theorem track_setTrack_of_ne {i id : TrackId} (h : i ≠ id) (t : Track) :
    (s.setTrack id t).track i = s.track i := by
  simp [track, setTrack, Array.getElem?_setIfInBounds_ne h.symm]

/-- A track that is set is what it is set to, unless there is no such track. -/
theorem track_setTrack_or (id : TrackId) (t : Track) (i : TrackId) :
    (s.setTrack id t).track i = t ∨ (s.setTrack id t).track i = s.track i := by
  by_cases hi : i = id
  · subst hi
    by_cases hlt : i < s.tracks.size
    · exact .inl (s.track_setTrack_self hlt t)
    · right
      have hsize : (s.setTrack i t).tracks = s.tracks :=
        Array.setIfInBounds_eq_of_size_le (Nat.le_of_not_lt hlt)
      rw [track, hsize]
      rfl
  · exact .inr (s.track_setTrack_of_ne hi t)

@[simp] theorem size_setFrame (id : FrameId) (f : Frame) :
    (s.setFrame id f).frames.size = s.frames.size := Array.size_setIfInBounds

@[simp] theorem size_setGroup (id : GroupId) (g : Group) :
    (s.setGroup id g).groups.size = s.groups.size := Array.size_setIfInBounds

/-- Setting a group leaves every frame as it is. -/
@[simp] theorem frame_setGroup (id : GroupId) (g : Group) (i : FrameId) :
    (s.setGroup id g).frame i = s.frame i := rfl

-- ── making ──────────────────────────────────────────────────────────

/-- An identity that is not in use shows a fresh frame. -/
theorem frame_of_size_le {i : FrameId} (h : s.frames.size ≤ i) : s.frame i = .fresh := by
  simp [frame, h]

/-- An identity that is not in use shows a fresh group. -/
theorem group_of_size_le {i : GroupId} (h : s.groups.size ≤ i) : s.group i = .fresh := by
  simp [group, h]

/-- A group that has frames is one of the store. -/
theorem lt_size_of_mem_frames {i : GroupId} {w : FrameWriter} (h : w ∈ (s.group i).frames) :
    i < s.groups.size := by
  rcases Nat.lt_or_ge i s.groups.size with hlt | hge
  · exact hlt
  · rw [s.group_of_size_le hge] at h
    exact absurd h List.not_mem_nil

/-- A new frame is not told from the fresh one that its identity showed before. -/
@[simp] theorem frame_newFrame (size : Nat) (i : FrameId) :
    (s.newFrame size).2.frame i = s.frame i := by
  show ((s.frames.push .fresh)[i]?).getD .fresh = (s.frames[i]?).getD .fresh
  rw [Array.getElem?_push]
  split
  · next h => simp [h]
  · rfl

@[simp] theorem size_newFrame (size : Nat) :
    (s.newFrame size).2.frames.size = s.frames.size + 1 := Array.size_push _

/-- A new group is not told from the fresh one that its identity showed before. -/
@[simp] theorem group_newGroup (sequence : Nat) (i : GroupId) :
    (s.newGroup sequence).2.group i = s.group i := by
  show ((s.groups.push .fresh)[i]?).getD .fresh = (s.groups[i]?).getD .fresh
  rw [Array.getElem?_push]
  split
  · next h => simp [h]
  · rfl

@[simp] theorem size_newGroup (sequence : Nat) :
    (s.newGroup sequence).2.groups.size = s.groups.size + 1 := Array.size_push _

-- ── operations that succeed ─────────────────────────────────────────

/-- A new frame is put at the end of the group. -/
theorem createFrame_eq_ok {s s' : Store} {g : GroupWriter} {size : Nat} {w : FrameWriter}
    (h : s.createFrame g size = .ok (w, s')) : w = ⟨s.frames.size, size⟩ ∧
      ∃ group, (s.group g.group).append w = .ok group ∧
        s' = (s.newFrame size).2.setGroup g.group group := by
  unfold Store.createFrame at h
  dsimp only at h
  cases happend : (s.newFrame size).2.appendFrame g (s.newFrame size).1 with
  | error e =>
      rw [happend] at h
      cases h
  | ok next =>
      rw [happend] at h
      obtain ⟨rfl, rfl⟩ := Prod.mk.inj (Except.ok.inj h)
      obtain ⟨group, hgroup, rfl⟩ := exists_of_map_eq_ok happend
      exact ⟨rfl, group, hgroup, rfl⟩

/-- Writing several chunks is writing the first and then the others. -/
theorem writeChunks_cons_eq_ok {s s' : Store} {w : FrameWriter} {chunk : Bytes} {chunks : List Bytes}
    (h : s.writeChunks w (chunk :: chunks) = .ok s') :
    ∃ next, s.writeChunk w chunk = .ok next ∧ next.writeChunks w chunks = .ok s' := by
  rw [Store.writeChunks] at h
  cases hwrite : s.writeChunk w chunk with
  | error e =>
      rw [hwrite] at h
      cases h
  | ok next =>
      rw [hwrite] at h
      exact ⟨next, rfl, h⟩

/-- What holds between the stores before and after a chunk holds between those before and after many. -/
theorem writeChunks_induction {R : Store → Store → Prop} {w : FrameWriter} (hrefl : ∀ s, R s s)
    (htrans : ∀ s s' s'', R s s' → R s' s'' → R s s'')
    (hchunk : ∀ s s' chunk, s.writeChunk w chunk = .ok s' → R s s')
    {s s' : Store} {chunks : List Bytes} (h : s.writeChunks w chunks = .ok s') : R s s' := by
  induction chunks generalizing s with
  | nil =>
      obtain rfl := Except.ok.inj h
      exact hrefl s
  | cons chunk chunks ih =>
      obtain ⟨next, hwrite, hrest⟩ := writeChunks_cons_eq_ok h
      exact htrans s next s' (hchunk s next chunk hwrite) (ih hrest)

/-- A whole frame is begun, written and closed. -/
theorem writeFrame_eq_ok {s s' : Store} {g : GroupWriter} {chunks : List Bytes}
    (h : s.writeFrame g chunks = .ok s') : ∃ w begun written,
      s.createFrame g chunks.flatten.length = .ok (w, begun) ∧
        begun.writeChunks w chunks = .ok written ∧ written.closeFrame w = .ok s' := by
  unfold Store.writeFrame at h
  cases hcreate : s.createFrame g chunks.flatten.length with
  | error e =>
      rw [hcreate] at h
      cases h
  | ok made =>
      obtain ⟨w, begun⟩ := made
      rw [hcreate] at h
      cases hwrite : begun.writeChunks w chunks with
      | error e =>
          simp only [bind, Except.bind, hwrite] at h
          cases h
      | ok written =>
          simp only [bind, Except.bind, hwrite] at h
          exact ⟨w, begun, written, rfl, hwrite, h⟩

/-- A group that is made on a track is a new group, and the track knows one group more. -/
theorem createGroup_eq_ok {s s' : Store} {t : TrackWriter} {sequence : Nat} {g : GroupWriter}
    (h : s.createGroup t sequence = .ok (g, s')) :
    g = ⟨s.groups.size, sequence⟩ ∧ s' = (s.newGroup sequence).2.setTrack t.track
      { s.track t.track with
        retained := Track.latest ((s.track t.track).retained ++ [⟨s.groups.size, sequence⟩])
        largest := some (max sequence ((s.track t.track).largest.getD sequence)) } := by
  unfold createGroup newGroup Track.insert at h
  dsimp only at h
  cases hopen : (s.track t.track).checkOpen with
  | error e =>
      rw [hopen] at h
      exact nomatch h
  | ok _ =>
      rw [hopen] at h
      by_cases hdup : (s.track t.track).retains sequence = true
      · rw [if_pos hdup] at h
        exact nomatch h
      · rw [if_neg hdup] at h
        obtain ⟨rfl, rfl⟩ := Prod.mk.inj (Except.ok.inj h)
        exact ⟨rfl, rfl⟩

-- ── operations on what has ended ────────────────────────────────────

section Ended

variable {s} {ending : Ending}

/-- A frame that has ended takes no chunk. -/
theorem writeChunk_of_ended {w : FrameWriter} (h : (s.frame w.frame).ending = some ending)
    (chunk : Bytes) : s.writeChunk w chunk = .error ending.refusal := by
  simp only [writeChunk, Frame.write, h]
  rfl

theorem closeFrame_of_ended {w : FrameWriter} (h : (s.frame w.frame).ending = some ending) :
    s.closeFrame w = .error ending.refusal := by
  simp only [closeFrame, Frame.close, h]
  rfl

theorem appendFrame_of_ended {g : GroupWriter} (h : (s.group g.group).ending = some ending)
    (w : FrameWriter) : s.appendFrame g w = .error ending.refusal := by
  simp only [appendFrame, Group.append, h]
  rfl

/-- A group that has ended takes no frame, even though the frame itself is made without trouble. -/
theorem createFrame_of_ended {g : GroupWriter} (h : (s.group g.group).ending = some ending)
    (size : Nat) : s.createFrame g size = .error ending.refusal := by
  have happend : (s.newFrame size).2.appendFrame g (s.newFrame size).1 = .error ending.refusal :=
    appendFrame_of_ended (s := (s.newFrame size).2) h _
  simp only [createFrame, happend]
  rfl

theorem writeFrame_of_ended {g : GroupWriter} (h : (s.group g.group).ending = some ending)
    (chunks : List Bytes) : s.writeFrame g chunks = .error ending.refusal := by
  rw [writeFrame, createFrame_of_ended h]
  rfl

theorem closeGroup_of_ended {g : GroupWriter} (h : (s.group g.group).ending = some ending) :
    s.closeGroup g = .error ending.refusal := by
  simp only [closeGroup, Group.close, h]
  rfl

/-- A track that has ended takes no group, not even of a number that it retains. -/
theorem createGroup_of_ended {t : TrackWriter} (h : (s.track t.track).ending = some ending)
    (sequence : Nat) : s.createGroup t sequence = .error ending.refusal := by
  simp only [createGroup, Track.insert, Track.checkOpen, h]
  rfl

theorem closeTrack_of_ended {t : TrackWriter} (h : (s.track t.track).ending = some ending) :
    s.closeTrack t = .error ending.refusal := by
  simp only [closeTrack, Track.close, Track.checkOpen, h]
  rfl

end Ended

-- ── operations on an open track ─────────────────────────────────────

section Open

variable {s} {t : TrackWriter} {sequence : Nat}

/-- An open track takes a group of a number that it does not retain. -/
theorem createGroup_of_open (hopen : (s.track t.track).ending = none)
    (hnew : (s.track t.track).retains sequence = false) :
    ∃ made, s.createGroup t sequence = .ok made := by
  simp only [createGroup, Track.insert, Track.checkOpen, hopen, hnew]
  exact ⟨_, rfl⟩

/-- An open track refuses a second group of a number that it retains. -/
theorem createGroup_of_retained (hopen : (s.track t.track).ending = none)
    (hretains : (s.track t.track).retains sequence = true) :
    s.createGroup t sequence = .error .duplicate := by
  simp only [createGroup, Track.insert, Track.checkOpen, hopen, hretains]
  rfl

/-- An open track can be closed. -/
theorem closeTrack_of_open (hopen : (s.track t.track).ending = none) :
    s.closeTrack t = .ok (s.setTrack t.track { s.track t.track with ending := some .complete }) := by
  simp only [closeTrack, Track.close, Track.checkOpen, hopen]
  rfl

end Open

-- ── staying within one group ────────────────────────────────────────

/-- The stores differ in one group and in frames from `base` on, and in nothing else. -/
structure Confined (base : FrameId) (g : GroupId) (s s' : Store) : Prop where
  frames : ∀ i < base, s'.frame i = s.frame i
  groups : ∀ i ≠ g, s'.group i = s.group i
  groups_size : s'.groups.size = s.groups.size
  tracks : s'.tracks = s.tracks
  broadcasts : s'.broadcasts = s.broadcasts

namespace Confined

variable {base : FrameId} {g : GroupId} {s s' s'' : Store}

/-- A change of nothing is confined to any group. -/
theorem refl (s : Store) : Confined base g s s :=
  ⟨fun _ _ => rfl, fun _ _ => rfl, rfl, rfl, rfl⟩

/-- Steps within a group add up to a change within it. -/
theorem trans (h : Confined base g s s') (h' : Confined base g s' s'') : Confined base g s s'' where
  frames i hi := (h'.frames i hi).trans (h.frames i hi)
  groups i hi := (h'.groups i hi).trans (h.groups i hi)
  groups_size := h'.groups_size.trans h.groups_size
  tracks := h'.tracks.trans h.tracks
  broadcasts := h'.broadcasts.trans h.broadcasts

theorem setFrame {id : FrameId} (hid : base ≤ id) (f : Frame) :
    Confined base g s (s.setFrame id f) where
  frames _ hi := s.frame_setFrame_of_ne (Nat.ne_of_lt (Nat.lt_of_lt_of_le hi hid)) f
  groups _ _ := rfl
  groups_size := rfl
  tracks := rfl
  broadcasts := rfl

theorem setGroup (x : Group) : Confined base g s (s.setGroup g x) where
  frames _ _ := rfl
  groups _ hi := s.group_setGroup_of_ne hi x
  groups_size := s.size_setGroup g x
  tracks := rfl
  broadcasts := rfl

theorem newFrame (size : Nat) : Confined base g s (s.newFrame size).2 where
  frames i _ := s.frame_newFrame size i
  groups _ _ := rfl
  groups_size := rfl
  tracks := rfl
  broadcasts := rfl

end Confined

-- ── aborting ────────────────────────────────────────────────────────

/-- Aborting frames does not touch the groups. -/
theorem group_abortFrames (e : TransportError) (ws : List FrameWriter) (i : GroupId) :
    (ws.foldl (fun s w => s.abortFrame e w) s).group i = s.group i := by
  induction ws generalizing s with
  | nil => rfl
  | cons w ws ih => exact ih (s.abortFrame e w)

/-- Aborting frames of one group, all of them from the bound on, stays within the group. -/
theorem confined_abortFrames (e : TransportError) {ws : List FrameWriter} {base : FrameId}
    (g : GroupId) (hws : ∀ w ∈ ws, base ≤ w.frame) :
    Confined base g s (ws.foldl (fun s w => s.abortFrame e w) s) := by
  induction ws generalizing s with
  | nil => exact .refl s
  | cons w ws ih =>
      have hfirst : Confined base g s (s.abortFrame e w) := .setFrame (hws w List.mem_cons_self) _
      exact hfirst.trans (ih (s.abortFrame e w) fun w' hw' => hws w' (List.mem_cons_of_mem w hw'))

/-- A frame that is aborted stays so, whether it was aborted among the others or before them. -/
theorem ending_abortFrames (e : TransportError) {ws : List FrameWriter} {i : FrameId}
    (hi : i < s.frames.size)
    (h : (∃ w ∈ ws, w.frame = i) ∨ (s.frame i).ending = some (.aborted e)) :
    ((ws.foldl (fun s w => s.abortFrame e w) s).frame i).ending = some (.aborted e) := by
  induction ws generalizing s with
  | nil =>
      rcases h with ⟨w, hw, -⟩ | h
      · exact absurd hw List.not_mem_nil
      · exact h
  | cons w ws ih =>
      have hsize : (s.abortFrame e w).frames.size = s.frames.size := s.size_setFrame _ _
      refine ih (s.abortFrame e w) (hsize ▸ hi) ?_
      by_cases hw : w.frame = i
      · right
        subst hw
        rw [abortFrame, s.frame_setFrame_self hi]
        rfl
      · have hsame : (s.abortFrame e w).frame i = s.frame i := s.frame_setFrame_of_ne (Ne.symm hw) _
        rcases h with ⟨w', hw', rfl⟩ | h
        · rcases List.mem_cons.mp hw' with rfl | hmem
          · exact absurd rfl hw
          · exact .inl ⟨w', hmem, rfl⟩
        · right
          rw [hsame]
          exact h

end Store

end LiveMedia.Live
