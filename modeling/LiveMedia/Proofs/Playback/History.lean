import LiveMedia.Playback.Player

/-!
# What the tasks of a player report

A history is the list of events that the tasks of a player reported, oldest first. This module gives the
views of a history that playback is compared with: the groups announced, the frames of a group, the
groups that are done, how the track ended.

`Reported` is what the tasks promise about a history, and all that is assumed of it. The task of a
group announces it, then reports the frames that one reader of that group gives, then that the group is
done; the events of different groups may interleave in any way. `readGroup_events` says that the tasks
keep the promise. Which frame is a keyframe is not part of it: it follows from how a reader counts
(`GroupReader.Gives.keyframe`).
-/

namespace LiveMedia.Playback

open LiveMedia.Wire LiveMedia.Time LiveMedia.Live

-- ── views of a history ──────────────────────────────────────────────

namespace Event

def announces? : Event → Option Nat
  | .group sequence _ => some sequence
  | _ => none

def frame? : Event → Option OrderedFrame
  | .frame sequence f => some ⟨sequence, f⟩
  | _ => none

def finishes? : Event → Option Nat
  | .groupDone sequence => some sequence
  | _ => none

def trackResult? : Event → Option (Except MediaError Unit)
  | .trackDone result => some result
  | _ => none

/-- The event tells of this group. -/
def isAbout (sequence : Nat) : Event → Bool
  | .group other _ => other == sequence
  | .frame other _ => other == sequence
  | .groupDone other => other == sequence
  | .trackDone _ => false

/-- The group that the event is about. -/
def subject? : Event → Option Nat
  | .group sequence _ | .frame sequence _ | .groupDone sequence => some sequence
  | .trackDone _ => none

theorem isAbout_iff {g : Nat} {e : Event} : e.isAbout g ↔ g ∈ e.subject? := by
  cases e <;> simp [isAbout, subject?]

end Event

/-- The groups that were announced, in the order of their announcements. -/
def announced (events : List Event) : List Nat := events.filterMap Event.announces?

/-- All frames that were reported, in the order of their reports. -/
def allFrames (events : List Event) : List OrderedFrame := events.filterMap Event.frame?

/-- The frames of one group among ordered frames. -/
def framesIn (sequence : Nat) (frames : List OrderedFrame) : List MediaFrame :=
  (frames.filter (·.group == sequence)).map (·.frame)

/-- The frames that were reported for a group. -/
def framesOf (sequence : Nat) (events : List Event) : List MediaFrame :=
  framesIn sequence (allFrames events)

/-- The groups that were reported as done. -/
def finished (events : List Event) : List Nat := events.filterMap Event.finishes?

/-- How the track ended, as often as that was reported. -/
def trackResults (events : List Event) : List (Except MediaError Unit) :=
  events.filterMap Event.trackResult?

/-- The events of one group. -/
def about (sequence : Nat) (events : List Event) : List Event :=
  events.filter (Event.isAbout sequence)

-- ── what a reader gives ─────────────────────────────────────────────

theorem MediaFrame.decode_eq_ok {bs : Bytes} {keyframe : Bool} {f : MediaFrame}
    (h : decode bs keyframe = .ok f) : ∃ timestamp rest, Varint.decode.run bs = (.ok timestamp, rest) ∧
      f = ofChunks ⟨timestamp⟩ keyframe [rest] := by
  rw [decode] at h
  split at h
  · next timestamp rest hrun => exact ⟨timestamp, rest, hrun, (Except.ok.inj h).symm⟩
  · cases h

namespace GroupReader

variable {s : Store} {held : Holdings} {r r' : GroupReader}

/-- A frame that is given was decoded from what the cursor was given. -/
theorem readFrame_eq_some {f : MediaFrame} (h : r.readFrame s held = (.ok (some f), r')) :
    ∃ bs cursor, s.readFrame held r.cursor = (.ok (some bs), cursor) ∧
      MediaFrame.decode bs (r.count == 0) = .ok f ∧ r' = ⟨cursor, r.count + 1⟩ := by
  rw [readFrame] at h
  split at h
  · next bs cursor hread =>
    split at h
    · next f' hdecode =>
      obtain ⟨hf, rfl⟩ := Prod.mk.inj h
      obtain rfl := Option.some.inj (Except.ok.inj hf)
      exact ⟨bs, cursor, hread, hdecode, rfl⟩
    · cases h
  · cases h
  · cases h
  · cases h

theorem readFrame_eq_pending (h : r.readFrame s held = (.pending, r')) :
    ∃ cursor, s.readFrame held r.cursor = (.error .pending, cursor) ∧ r' = { r with cursor } := by
  rw [readFrame] at h
  split at h
  · split at h <;> cases h
  · cases h
  · next cursor hread => exact ⟨cursor, hread, (Prod.mk.inj h).2.symm⟩
  · cases h

theorem readFrame_of_some {bs : Bytes} {cursor : GroupCursor} {f : MediaFrame}
    (hread : s.readFrame held r.cursor = (.ok (some bs), cursor))
    (hdecode : MediaFrame.decode bs (r.count == 0) = .ok f) :
    r.readFrame s held = (.ok (some f), ⟨cursor, r.count + 1⟩) := by
  rw [readFrame, hread]
  dsimp only
  rw [hdecode]

theorem readFrame_of_none {cursor : GroupCursor} (hread : s.readFrame held r.cursor = (.ok none, cursor)) :
    r.readFrame s held = (.ok none, { r with cursor }) := by
  rw [readFrame, hread]

theorem readFrame_of_pending {cursor : GroupCursor}
    (hread : s.readFrame held r.cursor = (.error .pending, cursor)) :
    r.readFrame s held = (.pending, { r with cursor }) := by
  rw [readFrame, hread]

end GroupReader

/-- Frames that a reader of a group gives one after the other. Between two tries the store may change in
    any way. -/
inductive GroupReader.Gives : GroupReader → List MediaFrame → Prop where
  | stop (r : GroupReader) : Gives r []
  | wait {r r' : GroupReader} {frames : List MediaFrame} (store : Store) (held : Holdings)
      (h : r.readFrame store held = (.pending, r')) (rest : Gives r' frames) : Gives r frames
  | frame {r r' : GroupReader} {f : MediaFrame} {frames : List MediaFrame} (store : Store)
      (held : Holdings) (h : r.readFrame store held = (.ok (some f), r')) (rest : Gives r' frames) :
      Gives r (f :: frames)

/-- What tasks promise about a history. -/
structure Reported (events : List Event) : Prop where
  /-- Sequence numbers are words of 64 bits. -/
  word : ∀ g ∈ announced events, g < Track.sequenceLimit
  /-- A group has one task. It announces the group, reports what its reader gives, and reports the end.
      A history may break off anywhere. -/
  inOrder : ∀ g, ∃ reader cursor frames, (GroupReader.start cursor).Gives frames ∧
    about g events <+: .group g reader :: (frames.map (.frame g) ++ [.groupDone g])

-- ── how the views grow ──────────────────────────────────────────────

@[simp] theorem announced_append (a b : List Event) :
    announced (a ++ b) = announced a ++ announced b := List.filterMap_append

@[simp] theorem allFrames_append (a b : List Event) :
    allFrames (a ++ b) = allFrames a ++ allFrames b := List.filterMap_append

@[simp] theorem finished_append (a b : List Event) :
    finished (a ++ b) = finished a ++ finished b := List.filterMap_append

@[simp] theorem trackResults_append (a b : List Event) :
    trackResults (a ++ b) = trackResults a ++ trackResults b := List.filterMap_append

theorem about_append (g : Nat) (a b : List Event) : about g (a ++ b) = about g a ++ about g b :=
  List.filter_append a b

@[simp] theorem framesIn_append (g : Nat) (a b : List OrderedFrame) :
    framesIn g (a ++ b) = framesIn g a ++ framesIn g b := by
  simp [framesIn]

@[simp] theorem framesIn_self (g : Nat) (f : MediaFrame) : framesIn g [⟨g, f⟩] = [f] := by
  simp [framesIn]

theorem framesIn_of_ne {g other : Nat} (h : other ≠ g) (f : MediaFrame) :
    framesIn g [⟨other, f⟩] = [] := by
  simp [framesIn, h]

@[simp] theorem framesOf_append (g : Nat) (a b : List Event) :
    framesOf g (a ++ b) = framesOf g a ++ framesOf g b := by
  simp [framesOf]

theorem mem_allFrames {events : List Event} {f : OrderedFrame} :
    f ∈ allFrames events ↔ .frame f.group f.frame ∈ events := by
  constructor
  · intro hf
    obtain ⟨e, he, hframe⟩ := List.mem_filterMap.mp hf
    cases e with
    | group | groupDone | trackDone => cases hframe
    | frame g f' =>
        obtain rfl := Option.some.inj hframe
        exact he
  · exact fun h => List.mem_filterMap.mpr ⟨_, h, rfl⟩

theorem mem_framesIn {g : Nat} {f : MediaFrame} {frames : List OrderedFrame} :
    f ∈ framesIn g frames ↔ ⟨g, f⟩ ∈ frames := by
  simp only [framesIn, List.mem_map, List.mem_filter, beq_iff_eq]
  constructor
  · rintro ⟨⟨g', f'⟩, ⟨hmem, rfl⟩, rfl⟩
    exact hmem
  · intro h
    exact ⟨_, ⟨h, rfl⟩, rfl⟩

theorem mem_announced {g : Nat} {events : List Event} :
    g ∈ announced events ↔ ∃ reader, .group g reader ∈ events := by
  simp only [announced, List.mem_filterMap]
  constructor
  · rintro ⟨e, he, hg⟩
    cases e with
    | group sequence reader => exact ⟨reader, Option.some.inj hg ▸ he⟩
    | frame => exact nomatch hg
    | groupDone => exact nomatch hg
    | trackDone => exact nomatch hg
  · rintro ⟨reader, he⟩
    exact ⟨_, he, rfl⟩

theorem mem_finished {g : Nat} {events : List Event} :
    g ∈ finished events ↔ .groupDone g ∈ events := by
  simp only [finished, List.mem_filterMap]
  constructor
  · rintro ⟨e, he, hg⟩
    cases e with
    | group => exact nomatch hg
    | frame => exact nomatch hg
    | groupDone sequence => exact Option.some.inj hg ▸ he
    | trackDone => exact nomatch hg
  · intro he
    exact ⟨_, he, rfl⟩

theorem mem_about {g : Nat} {e : Event} {events : List Event} :
    e ∈ about g events ↔ e ∈ events ∧ e.isAbout g = true := List.mem_filter

/-- The frames of a group are told by its own events. -/
theorem framesOf_about (g : Nat) (events : List Event) :
    framesOf g (about g events) = framesOf g events := by
  induction events with
  | nil => rfl
  | cons e rest ih =>
      have hsplit : framesOf g (e :: rest) = framesOf g [e] ++ framesOf g rest :=
        framesOf_append g [e] rest
      rw [hsplit, ← ih]
      by_cases he : e.isAbout g = true
      · rw [about, List.filter_cons_of_pos he]
        exact framesOf_append g [e] _
      · rw [about, List.filter_cons_of_neg he]
        cases e with
        | group => rfl
        | frame other f =>
            have hne : other ≠ g := by simpa [Event.isAbout] using he
            exact (congrArg (· ++ _) (framesIn_of_ne hne f)).symm
        | groupDone => rfl
        | trackDone => rfl

@[simp] theorem framesOf_map_frame (g : Nat) (frames : List MediaFrame) :
    framesOf g (frames.map (.frame g)) = frames := by
  induction frames with
  | nil => rfl
  | cons f rest ih =>
      have hsplit : framesOf g (Event.frame g f :: rest.map (.frame g)) =
          framesOf g [Event.frame g f] ++ framesOf g (rest.map (.frame g)) :=
        framesOf_append g [_] _
      rw [List.map_cons, hsplit, ih]
      exact congrArg (· ++ rest) (framesIn_self g f)

-- ── what the promise gives ──────────────────────────────────────────

/-- Only the groups that were announced have to be accounted for, when nothing is said of others. -/
theorem Reported.of_announced {events : List Event}
    (hword : ∀ g ∈ announced events, g < Track.sequenceLimit)
    (hsaid : ∀ e ∈ events, ∀ g ∈ e.subject?, g ∈ announced events)
    (htask : ∀ g ∈ announced events, ∃ reader cursor frames, (GroupReader.start cursor).Gives frames ∧
      about g events <+: .group g reader :: (frames.map (.frame g) ++ [.groupDone g])) :
    Reported events where
  word := hword
  inOrder g := by
    by_cases hg : g ∈ announced events
    · exact htask g hg
    · have hnone : about g events = [] :=
        List.filter_eq_nil_iff.mpr fun e he habout => hg (hsaid e he g (Event.isAbout_iff.mp habout))
      exact ⟨0, ⟨0, 0, 0, none⟩, [], .stop _, hnone ▸ List.nil_prefix⟩

/-- A history that breaks off earlier keeps the promise too. -/
theorem Reported.of_append {a b : List Event} (h : Reported (a ++ b)) : Reported a where
  word g hg := h.word g (by simp [hg])
  inOrder g := by
    obtain ⟨reader, cursor, frames, hgives, hbegins⟩ := h.inOrder g
    rw [about_append] at hbegins
    exact ⟨reader, cursor, frames, hgives, (List.prefix_append _ _).trans hbegins⟩

/-- The frames reported for a group are the first ones of a single reader. -/
theorem Reported.framesOf_begins {events : List Event} (h : Reported events) (g : Nat) :
    ∃ cursor frames, (GroupReader.start cursor).Gives frames ∧ framesOf g events <+: frames := by
  obtain ⟨reader, cursor, frames, hgives, hbegins⟩ := h.inOrder g
  refine ⟨cursor, frames, hgives, ?_⟩
  have hframes : framesOf g (.group g reader :: (frames.map (.frame g) ++ [.groupDone g])) =
      frames := by
    have hsplit : framesOf g (.group g reader :: (frames.map (.frame g) ++ [.groupDone g])) =
        framesOf g (frames.map (.frame g) ++ [.groupDone g]) := rfl
    rw [hsplit, framesOf_append, framesOf_map_frame]
    exact List.append_nil frames
  obtain ⟨later, hlater⟩ := hbegins
  rw [← framesOf_about, ← hframes, ← hlater, framesOf_append]
  exact List.prefix_append _ _

/-- A group is announced before anything else is said of it. -/
theorem Reported.about_eq_nil {events : List Event} {g reader : Nat}
    (h : Reported (events ++ [.group g reader])) : about g events = [] := by
  obtain ⟨reader', cursor, frames, -, hbegins⟩ := h.inOrder g
  have hself : about g [.group g reader] = [.group g reader] := by simp [about, Event.isAbout]
  rw [about_append, hself] at hbegins
  cases hev : about g events with
  | nil => rfl
  | cons e rest =>
      -- a second announcement would stand among the frames or at the end
      rw [hev, List.cons_append, List.cons_prefix_cons] at hbegins
      have hmem := hbegins.2.subset (List.mem_append_right rest (List.mem_singleton_self _))
      simp at hmem

theorem framesOf_eq_nil {events : List Event} {g : Nat} (h : about g events = []) :
    framesOf g events = [] := by
  rw [← framesOf_about, h]
  rfl

theorem not_mem_finished {events : List Event} {g : Nat} (h : about g events = []) :
    g ∉ finished events := by
  intro hg
  have : Event.groupDone g ∈ about g events :=
    mem_about.mpr ⟨mem_finished.mp hg, by simp [Event.isAbout]⟩
  rw [h] at this
  exact List.not_mem_nil this

/-- A frame comes after the announcement of its group and before its end. -/
theorem Reported.live_of_frame {events : List Event} {g : Nat} {f : MediaFrame}
    (h : Reported (events ++ [.frame g f])) : g ∈ announced events ∧ g ∉ finished events := by
  obtain ⟨reader, cursor, frames, -, hbegins⟩ := h.inOrder g
  have hself : about g [.frame g f] = [.frame g f] := by simp [about, Event.isAbout]
  rw [about_append, hself] at hbegins
  cases hev : about g events with
  | nil =>
      rw [hev, List.nil_append, List.cons_prefix_cons] at hbegins
      exact nomatch hbegins.1
  | cons e rest =>
      rw [hev, List.cons_append, List.cons_prefix_cons] at hbegins
      obtain ⟨rfl, hrest⟩ := hbegins
      constructor
      · have he : Event.group g reader ∈ about g events := hev ▸ List.mem_cons_self
        exact mem_announced.mpr ⟨reader, (mem_about.mp he).1⟩
      · intro hg
        have he : Event.groupDone g ∈ about g events :=
          mem_about.mpr ⟨mem_finished.mp hg, by simp [Event.isAbout]⟩
        rw [hev] at he
        -- the events so far are a prefix of the frames: the end can only be the last of them
        have hlen : (rest ++ [Event.frame g f]).length ≤ (frames.map (Event.frame g)).length + 1 := by
          simpa using hrest.length_le
        have hshort : rest <+: frames.map (Event.frame g) := by
          refine List.prefix_of_prefix_length_le ((List.prefix_append rest _).trans hrest)
            (List.prefix_append _ _) ?_
          simp only [List.length_append, List.length_singleton] at hlen
          omega
        have hmem : Event.groupDone g ∈ frames.map (Event.frame g) :=
          hshort.subset (by simpa using he)
        simp at hmem

/-- Frames are reported of announced groups only. -/
theorem Reported.announced_of_frame {events : List Event} (h : Reported events) {f : OrderedFrame}
    (hf : f ∈ allFrames events) : f.group ∈ announced events := by
  obtain ⟨before, later, rfl⟩ := List.append_of_mem (mem_allFrames.mp hf)
  rw [List.append_cons] at h
  rw [announced_append]
  exact List.mem_append_left _ h.of_append.live_of_frame.1

/-- A group that is done gets no more frames. -/
theorem Reported.framesOf_finished {a b : List Event} (h : Reported (a ++ b)) {g : Nat}
    (hg : g ∈ finished a) : framesOf g (a ++ b) = framesOf g a := by
  have hnone : framesOf g b = [] := by
    refine List.eq_nil_iff_forall_not_mem.mpr fun f hf => ?_
    obtain ⟨before, later, rfl⟩ := List.append_of_mem (mem_allFrames.mp (mem_framesIn.mp hf))
    rw [List.append_cons, ← List.append_assoc, ← List.append_assoc] at h
    refine h.of_append.live_of_frame.2 ?_
    rw [finished_append]
    exact List.mem_append_left _ hg
  rw [framesOf_append, hnone, List.append_nil]

/-- **Keyframes.** A reader marks the first frame that it gives as the keyframe, and no other. -/
theorem GroupReader.Gives.keyframe {r : GroupReader} {frames : List MediaFrame}
    (h : r.Gives frames) : ∀ i f, frames[i]? = some f → (f.keyframe = true ↔ r.count + i = 0) := by
  induction h with
  | stop r => intro i f hf; simp at hf
  | @wait r r' frames store held hread _ ih =>
      obtain ⟨cursor, -, rfl⟩ := GroupReader.readFrame_eq_pending hread
      exact ih
  | @frame r r' f frames store held hread _ ih =>
      obtain ⟨bs, cursor, -, hdecode, rfl⟩ := GroupReader.readFrame_eq_some hread
      obtain ⟨timestamp, rest, -, rfl⟩ := MediaFrame.decode_eq_ok hdecode
      intro i f' hf'
      cases i with
      | zero =>
          obtain rfl := Option.some.inj hf'
          exact beq_iff_eq
      | succ i =>
          rw [ih i f' hf']
          dsimp only
          omega

/-- **The tasks keep the promise.** What the task of a group reports in one go are frames that its reader
    gives and, when it ends, that the group is done; a reader that is kept goes on from there. -/
theorem readGroup_events (store : Store) (held : Holdings) (g : Nat) (fuel : Nat) (r : GroupReader) :
    ∃ frames, (Player.readGroup store held g fuel r).1 = frames.map (.frame g) ++
        (if (Player.readGroup store held g fuel r).2 = none then [.groupDone g] else []) ∧
      ∀ more, (∀ r', (Player.readGroup store held g fuel r).2 = some r' → r'.Gives more) →
        ((Player.readGroup store held g fuel r).2 = none → more = []) → r.Gives (frames ++ more) := by
  induction fuel generalizing r with
  | zero => exact ⟨[], by simp [Player.readGroup], fun more h _ => h r rfl⟩
  | succ fuel ih =>
      have hdone : r.Gives ([] ++ []) := GroupReader.Gives.stop r
      rw [Player.readGroup]
      split
      · next f r' hread =>
        obtain ⟨frames, hevents, hgives⟩ := ih r'
        refine ⟨f :: frames, ?_, ?_⟩
        · show Event.frame g f :: (Player.readGroup store held g fuel r').1 = _
          rw [hevents]
          rfl
        · intro more hsome hnone
          exact GroupReader.Gives.frame store held hread (hgives more hsome hnone)
      · exact ⟨[], by simp, fun more _ hnone => hnone rfl ▸ hdone⟩
      · exact ⟨[], by simp, fun more _ hnone => hnone rfl ▸ hdone⟩
      · next r' hread =>
        exact ⟨[], by simp, fun more hsome _ => GroupReader.Gives.wait store held hread (hsome r' rfl)⟩

end LiveMedia.Playback
