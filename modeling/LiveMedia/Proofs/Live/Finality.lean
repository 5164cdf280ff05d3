import LiveMedia.Proofs.Live.Footprint
import LiveMedia.Session.Perform

/-!
# How an end can change

Once a frame, a group or a track has ended, its writers are refused, so what it holds is fixed. Its end is
not: an abort takes the place of whatever end there was. An aborted group takes all frames with it that it
has at that moment, also those that were completed.

These are the only changes. After any list of operations an object that had ended holds what it held, and
its end is the last abort that reached it, or the old one if none did (`lastAbort`). One operation is
`frame_perform`, `group_perform` and `track_perform`; the induction over a list is the same for all three
(`performAll_ended`). So closing is final for what no later abort reaches, and for nothing else: that is
what readers are told.
-/

namespace LiveMedia.Live

open LiveMedia.Wire

variable {s : Store}

-- ── ends ────────────────────────────────────────────────────────────

/-- The end after an abort, if there was one. -/
def Ending.after (ending : Ending) : Option TransportError → Ending
  | some e => .aborted e
  | none => ending

theorem Ending.after_after (ending : Ending) (a b : Option TransportError) :
    (ending.after a).after b = ending.after (b.or a) := by
  cases b <;> rfl

/-- What a reader is told who would be given the attempt if there were no abort. -/
def unlessAborted {α : Type} (attempt : Attempt TransportError α) :
    Option TransportError → Attempt TransportError α
  | some e => .failure e
  | none => attempt

namespace Operation

/-- The store after a list of operations. -/
def performAll (s : Store) (ops : List Operation) : Store := ops.foldl perform s

/-- The error of the last operation that reaches an object. -/
def lastAbort (reaches : Store → Operation → Option TransportError) :
    Store → List Operation → Option TransportError
  | _, [] => none
  | s, op :: ops => (lastAbort reaches (op.perform s) ops).or (reaches s op)

/-- The last abort of a frame, by itself or with a group that has it. -/
def lastFrameAbort (id : FrameId) : Store → List Operation → Option TransportError :=
  lastAbort fun s op => op.abortsFrame? s id

/-- The last abort of a group. -/
def lastGroupAbort (id : GroupId) : Store → List Operation → Option TransportError :=
  lastAbort fun _ op => op.abortsGroup? id

/-- The last abort of a track. -/
def lastTrackAbort (id : TrackId) : Store → List Operation → Option TransportError :=
  lastAbort fun _ op => op.abortsTrack? id

/-- If every operation only aborts what had ended, so does a list of them. -/
theorem performAll_ended {α : Type} (view : Store → α) (ended : Ending → α)
    (reaches : Store → Operation → Option TransportError)
    (hstep : ∀ s op ending, view s = ended ending →
      view (op.perform s) = ended (ending.after (reaches s op)))
    {ending : Ending} (h : view s = ended ending) (ops : List Operation) :
    view (performAll s ops) = ended (ending.after (lastAbort reaches s ops)) := by
  induction ops generalizing s ending with
  | nil => exact h
  | cons op ops ih =>
      show view (performAll (op.perform s) ops) = _
      rw [ih (hstep s op ending h), Ending.after_after]
      rfl

-- ── one operation ───────────────────────────────────────────────────

/-- **An ended frame** can only be aborted. -/
theorem frame_perform (f : Frame) (id : FrameId) (s : Store) (op : Operation) (ending : Ending)
    (h : s.frame id = { f with ending := some ending }) :
    (op.perform s).frame id =
      { f with ending := some (ending.after (op.abortsFrame? s id)) } := by
  have hid : id < s.frames.size := by
    refine Nat.lt_of_not_le fun hle => ?_
    rw [s.frame_of_size_le hle] at h
    cases congrArg Frame.ending h
  have hended : (s.frame id).ending = some ending := congrArg Frame.ending h
  by_cases hname : op.frame? = some id
  · cases op with
    | writeChunk w chunk =>
        obtain rfl := Option.some.inj hname
        rw [perform, Store.writeChunk_of_ended hended]
        exact h
    | closeFrame w =>
        obtain rfl := Option.some.inj hname
        rw [perform, Store.closeFrame_of_ended hended]
        exact h
    | abortFrame e w =>
        obtain rfl := Option.some.inj hname
        rw [abortsFrame?, if_pos rfl, perform, Store.abortFrame, s.frame_setFrame_self hid, h]
        rfl
    | _ => cases hname
  · cases habort : op.abortsFrame? s id with
    | none =>
        rw [(op.leaves s).frame id hid hname habort]
        exact h
    | some e =>
        -- the frame is aborted with a group that has it
        cases op with
        | abortFrame e' w =>
            rw [abortsFrame?, if_neg fun heq => hname (congrArg some heq)] at habort
            cases habort
        | abortGroup e' g =>
            rw [abortsFrame?] at habort
            split at habort
            · next hhas =>
                cases habort
                rw [perform, Store.abortGroup, Store.frame_setGroup, Store.frame_abortFrames _ _ hid,
                  if_pos hhas, h]
                rfl
            · cases habort
        | _ => cases habort

/-- **An ended group** can only be aborted. -/
theorem group_perform (g : Group) (id : GroupId) (s : Store) (op : Operation) (ending : Ending)
    (h : s.group id = { g with ending := some ending }) :
    (op.perform s).group id =
      { g with ending := some (ending.after (op.abortsGroup? id)) } := by
  have hid : id < s.groups.size := by
    refine Nat.lt_of_not_le fun hle => ?_
    rw [s.group_of_size_le hle] at h
    cases congrArg Group.ending h
  have hended : (s.group id).ending = some ending := congrArg Group.ending h
  by_cases hname : op.group? = some id
  · cases op with
    | appendFrame w f =>
        obtain rfl := Option.some.inj hname
        rw [perform, Store.appendFrame_of_ended hended]
        exact h
    | createFrame w size =>
        obtain rfl := Option.some.inj hname
        rw [perform, Store.createFrame_of_ended hended]
        exact h
    | writeFrame w chunks =>
        obtain rfl := Option.some.inj hname
        rw [perform, Store.writeFrame_of_ended hended]
        exact h
    | closeGroup w =>
        obtain rfl := Option.some.inj hname
        rw [perform, Store.closeGroup_of_ended hended]
        exact h
    | abortGroup e w =>
        obtain rfl := Option.some.inj hname
        have hconfined : Store.Confined 0 w.group s
            ((s.group w.group).frames.foldl (fun s w => s.abortFrame e w) s) :=
          s.confined_abortFrames e w.group fun f _ => Nat.zero_le f.frame
        rw [abortsGroup?, if_pos rfl, perform, Store.abortGroup,
          Store.group_setGroup_self _ (hconfined.groups_size ▸ hid), Store.group_abortFrames, h]
        rfl
    | _ => cases hname
  · have hnone : op.abortsGroup? id = none := by
      cases op with
      | abortGroup e w => exact if_neg fun heq => hname (congrArg some heq)
      | _ => rfl
    rw [(op.leaves s).group id hname, hnone]
    exact h

/-- **An ended track** can only be aborted. -/
theorem track_perform (t : Track) (id : TrackId) (s : Store) (op : Operation) (ending : Ending)
    (h : s.track id = { t with ending := some ending }) :
    (op.perform s).track id =
      { t with ending := some (ending.after (op.abortsTrack? id)) } := by
  have hid : id < s.tracks.size := by
    refine Nat.lt_of_not_le fun hle => ?_
    have hfresh : s.track id = .fresh := by simp [Store.track, hle]
    rw [hfresh] at h
    cases congrArg Track.ending h
  have hended : (s.track id).ending = some ending := congrArg Track.ending h
  by_cases hname : op.track? = some id
  · cases op with
    | createGroup w sequence =>
        obtain rfl := Option.some.inj hname
        rw [perform, Store.createGroup_of_ended hended]
        exact h
    | closeTrack w =>
        obtain rfl := Option.some.inj hname
        rw [perform, Store.closeTrack_of_ended hended]
        exact h
    | abortTrack e w =>
        obtain rfl := Option.some.inj hname
        rw [abortsTrack?, if_pos rfl, perform, Store.abortTrack, s.track_setTrack_self hid, h]
        rfl
    | _ => cases hname
  · have hnone : op.abortsTrack? id = none := by
      cases op with
      | abortTrack e w => exact if_neg fun heq => hname (congrArg some heq)
      | _ => rfl
    rw [(op.leaves s).track id hname, hnone]
    exact h

-- ── any operations ──────────────────────────────────────────────────

theorem frame_performAll {id : FrameId} {ending : Ending} (h : (s.frame id).ending = some ending)
    (ops : List Operation) : (performAll s ops).frame id =
      { s.frame id with ending := some (ending.after (lastFrameAbort id s ops)) } :=
  performAll_ended (fun s => s.frame id) (fun e => { s.frame id with ending := some e }) _
    (frame_perform (s.frame id) id) (by rw [← h]) ops

theorem group_performAll {id : GroupId} {ending : Ending} (h : (s.group id).ending = some ending)
    (ops : List Operation) : (performAll s ops).group id =
      { s.group id with ending := some (ending.after (lastGroupAbort id s ops)) } :=
  performAll_ended (fun s => s.group id) (fun e => { s.group id with ending := some e }) _
    (group_perform (s.group id) id) (by rw [← h]) ops

theorem track_performAll {id : TrackId} {ending : Ending} (h : (s.track id).ending = some ending)
    (ops : List Operation) : (performAll s ops).track id =
      { s.track id with ending := some (ending.after (lastTrackAbort id s ops)) } :=
  performAll_ended (fun s => s.track id) (fun e => { s.track id with ending := some e }) _
    (track_perform (s.track id) id) (by rw [← h]) ops

end Operation

-- ── what is aborted and what is not ─────────────────────────────────

/-- What was aborted stays so. -/
theorem Store.Grows.aborted {s' : Store} (h : s.Grows s') {g : GroupId}
    (ha : ∃ e, (s.group g).ending = some (.aborted e)) :
    ∃ e, (s'.group g).ending = some (.aborted e) := by
  obtain ⟨e, he⟩ := ha
  have hended : (s.group g).ending ≠ none := by
    rw [he]
    exact Option.some_ne_none _
  cases hending : (s'.group g).ending with
  | none => exact absurd hending ((h.group g).ended hended)
  | some ending =>
      cases ending with
      | aborted e' => exact ⟨e', rfl⟩
      | complete =>
          have hcomplete := (h.group g).complete hending hended
          rw [he] at hcomplete
          cases hcomplete

/-- A track that is set to one that was not aborted is not aborted by that. -/
theorem Store.setTrack_unaborted {id : TrackId} {t : Track}
    (h : ∀ e, (s.track id).ending ≠ some (.aborted e)) (ht : ∀ e, t.ending ≠ some (.aborted e)) :
    ∀ e, ((s.setTrack id t).track id).ending ≠ some (.aborted e) := by
  intro e
  rcases s.track_setTrack_or id t id with heq | heq
  · rw [heq]
    exact ht e
  · rw [heq]
    exact h e

/-- A track is aborted by those only who say so. -/
theorem Operation.track_unaborted {id : TrackId} {op : Operation}
    (h : ∀ e, (s.track id).ending ≠ some (.aborted e)) (hop : op.abortsTrack? id = none) :
    ∀ e, ((op.perform s).track id).ending ≠ some (.aborted e) := by
  by_cases hname : op.track? = some id
  · cases op with
    | createGroup t sequence =>
        obtain rfl := Option.some.inj hname
        cases hcreate : s.createGroup t sequence with
        | error e =>
            rw [perform, hcreate]
            exact h
        | ok made =>
            obtain ⟨-, hmade⟩ := Store.createGroup_eq_ok (g := made.1) hcreate
            rw [perform_createGroup hcreate, hmade]
            exact Store.setTrack_unaborted (s := (s.newGroup sequence).2) h h
    | closeTrack t =>
        obtain rfl := Option.some.inj hname
        cases hending : (s.track t.track).ending with
        | some ending =>
            rw [perform, Store.closeTrack_of_ended hending]
            exact h
        | none =>
            rw [perform_closeTrack (Store.closeTrack_of_open hending)]
            exact Store.setTrack_unaborted h fun e heq => by cases heq
    | abortTrack e t =>
        rw [abortsTrack?, if_pos (Option.some.inj hname)] at hop
        cases hop
    | _ => cases hname
  · rw [(op.leaves s).track id hname]
    exact h

-- ── readers ─────────────────────────────────────────────────────────

/-- A wait that is over is not changed by who is there. -/
theorem orDropped_unlessAborted {α : Type} (a : α) (e : Option TransportError) (isWritten : Bool) :
    orDropped (unlessAborted (.ok a) e) isWritten = unlessAborted (.ok a) e := by
  cases e <;> rfl

theorem Frame.nextChunk_ended (f : Frame) (position : Nat) (e : Option TransportError) :
    { f with ending := some (Ending.complete.after e) }.nextChunk position =
      unlessAborted (.ok f.chunks[position]?) e := by
  cases e <;> rfl

theorem Frame.remainder_ended (f : Frame) (position : Nat) (e : Option TransportError) :
    { f with ending := some (Ending.complete.after e) }.remainder position =
      unlessAborted (.ok (f.chunks.drop position).flatten) e := by
  cases e <;> rfl

theorem Group.nextFrame_ended (g : Group) (position : Nat) (e : Option TransportError) :
    { g with ending := some (Ending.complete.after e) }.nextFrame position =
      unlessAborted (.ok g.frames[position]?) e := by
  cases e <;> rfl

open Operation

/-- A reader of a frame that was completed. -/
theorem frame_reader {c : FrameCursor} (h : (s.frame c.frame).ending = some .complete)
    (ops : List Operation) (held : Holdings) :
    ((performAll s ops).readChunk held c).1 =
        unlessAborted (.ok (s.frame c.frame).chunks[c.position]?) (lastFrameAbort c.frame s ops) ∧
      ((performAll s ops).readAll held c).1 =
        unlessAborted (.ok ((s.frame c.frame).chunks.drop c.position).flatten)
          (lastFrameAbort c.frame s ops) := by
  have hframe := frame_performAll h ops
  constructor
  · rw [Store.readChunk, hframe, Frame.nextChunk_ended, orDropped_unlessAborted]
    cases lastFrameAbort c.frame s ops with
    | some e => rfl
    | none => cases (s.frame c.frame).chunks[c.position]? <;> rfl
  · rw [Store.readAll, hframe, Frame.remainder_ended, orDropped_unlessAborted]
    cases lastFrameAbort c.frame s ops <;> rfl

/-- A reader of a group that was closed. -/
theorem group_reader {c : GroupCursor} (hactive : c.active = none)
    (h : (s.group c.group).ending = some .complete) (ops : List Operation) (held : Holdings) :
    ((performAll s ops).nextFrame held c).1 =
      unlessAborted (.ok ((s.group c.group).frames[c.position]?.map FrameWriter.cursor))
        (lastGroupAbort c.group s ops) := by
  rw [Store.nextFrame, hactive, group_performAll h ops, Group.nextFrame_ended,
    orDropped_unlessAborted]
  cases lastGroupAbort c.group s ops with
  | some e => rfl
  | none => cases (s.group c.group).frames[c.position]? <;> rfl

/-- A reader of a track that was closed. -/
theorem track_reader {c : TrackCursor} (h : (s.track c.track).ending = some .complete)
    (ops : List Operation) (held : Holdings) :
    ((performAll s ops).nextGroup held c).1 =
      unlessAborted (s.nextGroup held c).1 (lastTrackAbort c.track s ops) := by
  have htrack := track_performAll h ops
  cases hlast : lastTrackAbort c.track s ops with
  | some e =>
      rw [Store.nextGroup, htrack, hlast]
      rfl
  | none =>
      have hsame : (performAll s ops).track c.track = s.track c.track := by
        rw [htrack, hlast]
        show { s.track c.track with ending := some .complete } = s.track c.track
        rw [← h]
      rw [Store.nextGroup, hsame]
      rfl

/-- **Ends change by aborts alone.** What had ended holds for good what it held, and after any operations
    of any writers its end is the last abort that reached it, or the old end if none did. So a reader of
    something that was closed, whenever it was made, is given everything and then the end, exactly as long
    as no abort reaches it; from the first one on it is given the error of the last. -/
theorem ends_change_by_aborts_alone (s : Store) (ops : List Operation) :
    (∀ id ending, (s.frame id).ending = some ending → (performAll s ops).frame id =
      { s.frame id with ending := some (ending.after (lastFrameAbort id s ops)) }) ∧
    (∀ id ending, (s.group id).ending = some ending → (performAll s ops).group id =
      { s.group id with ending := some (ending.after (lastGroupAbort id s ops)) }) ∧
    (∀ id ending, (s.track id).ending = some ending → (performAll s ops).track id =
      { s.track id with ending := some (ending.after (lastTrackAbort id s ops)) }) ∧
    ∀ held,
      (∀ c : FrameCursor, (s.frame c.frame).ending = some .complete →
        ((performAll s ops).readChunk held c).1 =
            unlessAborted (.ok (s.frame c.frame).chunks[c.position]?) (lastFrameAbort c.frame s ops) ∧
          ((performAll s ops).readAll held c).1 =
            unlessAborted (.ok ((s.frame c.frame).chunks.drop c.position).flatten)
              (lastFrameAbort c.frame s ops)) ∧
      (∀ c : GroupCursor, c.active = none → (s.group c.group).ending = some .complete →
        ((performAll s ops).nextFrame held c).1 =
          unlessAborted (.ok ((s.group c.group).frames[c.position]?.map FrameWriter.cursor))
            (lastGroupAbort c.group s ops)) ∧
      ∀ c : TrackCursor, (s.track c.track).ending = some .complete →
        ((performAll s ops).nextGroup held c).1 =
          unlessAborted (s.nextGroup held c).1 (lastTrackAbort c.track s ops) :=
  ⟨fun _ _ h => frame_performAll h ops, fun _ _ h => group_performAll h ops,
    fun _ _ h => track_performAll h ops, fun held => ⟨fun _ h => frame_reader h ops held,
      fun _ hactive h => group_reader hactive h ops held, fun _ h => track_reader h ops held⟩⟩

-- ── a frame that is lost with its group ─────────────────────────────

/-- A group with one frame that was completed and one that is being written. -/
def halfDone : Store :=
  ⟨#[⟨[[97, 98]], 2, some .complete⟩, .fresh], #[⟨[⟨0, 2⟩, ⟨1, 2⟩], none⟩], #[], #[]⟩

/-- Refused writes leave the completed frame to its readers; with the group it is lost to them. -/
theorem ends_change_by_aborts_alone_halfDone :
    (halfDone.frame 0).ending = some .complete ∧
      ((performAll halfDone [.writeChunk ⟨0, 2⟩ [99], .closeFrame ⟨0, 2⟩]).readAll [] ⟨0, 2, 0⟩).1 =
        .ok [97, 98] ∧
      ((performAll halfDone [.abortGroup .cancel ⟨0, 1⟩]).readAll [] ⟨0, 2, 0⟩).1 =
        .failure .cancel := by
  have hcomplete : (halfDone.frame 0).ending = some .complete := rfl
  obtain ⟨-, -, -, hrefused⟩ :=
    ends_change_by_aborts_alone halfDone [.writeChunk ⟨0, 2⟩ [99], .closeFrame ⟨0, 2⟩]
  obtain ⟨-, -, -, haborted⟩ := ends_change_by_aborts_alone halfDone [.abortGroup .cancel ⟨0, 1⟩]
  exact ⟨hcomplete, ((hrefused []).1 ⟨0, 2, 0⟩ hcomplete).2, ((haborted []).1 ⟨0, 2, 0⟩ hcomplete).2⟩

/-- A group with a whole frame and one that is begun is aborted; both frames have a reader by then. -/
def abortedScript : List Session.Step :=
  [.newGroup 1 (some "g") (some "c"), .writeFrame "g" [97, 98], .createFrame "g" 2 (some "f"),
    .nextFrame "c" (some "r"), .nextFrame "c" (some "q"), .abort "g" .cancel, .readAll "r",
    .readAll "q"]

/-- **A completed frame is lost with its group**: its reader is given the error, like the reader of the
    frame that was still being written. -/
theorem completed_frame_is_lost :
    ((Session.start.run (abortedScript.take 5)).2.store.frame 0).ending = some .complete ∧
      (Session.start.run abortedScript).1 = [.done, .done, .size (some 2), .size (some 2),
        .size (some 2), .done, .failed .cancel, .failed .cancel] := ⟨rfl, rfl⟩

end LiveMedia.Live
