import LiveMedia.Proofs.Live.FrameFollowing

/-!
# Readers follow a group

Readers of one group are made at any time and are cloned, and take frames while publishers go on. A frame
is taken whole or as a reader of its own; a call that asks for a whole frame may be given up while the
frame is being written, and another kind of call may follow. Beside its cursor a follower keeps what it
was given, and a clone starts with what the other had been given.

What was given is indexed like the frames of the group. `GroupFollows` says that the entry at each index
is the frame at that index, and that the cursor stands behind the last of them, or one further while it
holds on to a frame that was begun. The list of frames only grows and a frame that has ended is fixed, so
this is kept when publishers write (`GroupFollows.later`), and every read takes the frame whose turn it is
or changes nothing that counts (`GroupFollows.readFrame`, `GroupFollows.nextFrame`).
-/

namespace LiveMedia.Live

open LiveMedia.Wire

-- ── followers ───────────────────────────────────────────────────────

/-- What a reader of a group is given. -/
inductive FrameGift where
  | whole (payload : Bytes)
  | reader (c : FrameCursor)
deriving DecidableEq, Repr

/-- The gift is the frame of this writer: all that it holds, now that it has ended, or a reader at its
    start. -/
def FrameGift.Of (s : Store) (w : FrameWriter) : FrameGift → Prop
  | whole payload => (s.frame w.frame).ending ≠ none ∧ payload = (s.frame w.frame).payload
  | reader c => c = w.cursor

/-- A cursor of a group, and what it was given; a clone was given what the other had been given before. -/
structure GroupFollower where
  cursor : GroupCursor
  given : List FrameGift
deriving DecidableEq, Repr

namespace GroupFollower

/-- The follower asks for a whole frame, and gives up if it has to wait. -/
def readFrame (r : GroupFollower) (s : Store) (held : Holdings) : GroupFollower :=
  match s.readFrame held r.cursor with
  | (.ok (some payload), cursor) => ⟨cursor, r.given ++ [.whole payload]⟩
  | (_, cursor) => ⟨cursor, r.given⟩

/-- The follower asks for a reader of the next frame. -/
def nextFrame (r : GroupFollower) (s : Store) (held : Holdings) : GroupFollower :=
  match s.nextFrame held r.cursor with
  | (.ok (some c), cursor) => ⟨cursor, r.given ++ [.reader c]⟩
  | (_, cursor) => ⟨cursor, r.given⟩

end GroupFollower

/-- A group with its followers, in a store where publishers write. -/
structure GroupFollowing where
  store : Store
  followers : List GroupFollower

namespace GroupFollowing

/-- One thing that happens to a group with its followers. -/
inductive Move where
  | write (op : Operation)
  /-- A writer makes a new follower. -/
  | subscribe
  | clone (follower : Nat)
  | readFrame (follower : Nat) (held : Holdings)
  | nextFrame (follower : Nat) (held : Holdings)

/-- The follower whose turn it is to read. -/
def Move.reader? : Move → Option Nat
  | .readFrame i _ | .nextFrame i _ => some i
  | _ => none

/-- A group with no follower yet. -/
def start (s : Store) : GroupFollowing := ⟨s, []⟩

def after (f : GroupFollowing) (g : GroupWriter) : Move → GroupFollowing
  | .write op => { f with store := op.perform f.store }
  | .subscribe => { f with followers := f.followers ++ [⟨g.cursor, []⟩] }
  | .clone i => { f with followers := f.followers ++ f.followers[i]?.toList }
  | .readFrame i held => { f with followers := f.followers.modify i (·.readFrame f.store held) }
  | .nextFrame i held => { f with followers := f.followers.modify i (·.nextFrame f.store held) }

def run (f : GroupFollowing) (g : GroupWriter) : List Move → GroupFollowing
  | [] => f
  | m :: ms => (f.after g m).run g ms

end GroupFollowing

-- ── the invariant ───────────────────────────────────────────────────

/-- What a follower was given are the first frames of the group, and its cursor stands behind them. -/
structure GroupFollows (g : GroupId) (s : Store) (r : GroupFollower) : Prop where
  group_eq : r.cursor.group = g
  given : ∀ (k : Nat) (gift : FrameGift), r.given[k]? = some gift →
    ∃ w, (s.group g).frames[k]? = some w ∧ gift.Of s w
  position_eq : r.cursor.position = r.given.length + r.cursor.active.toList.length
  /-- The frame that was begun is the next one, and nothing of it was taken. -/
  active : ∀ c, r.cursor.active = some c →
    ∃ w, (s.group g).frames[r.given.length]? = some w ∧ c = w.cursor

/-- What a follower is offered that asks for the next frame. -/
inductive Offers (s : Store) (r : GroupFollower) :
    Attempt TransportError (Option FrameCursor) × GroupCursor → Prop where
  | frame {w : FrameWriter} : (s.group r.cursor.group).frames[r.given.length]? = some w →
      Offers s r (.ok (some w.cursor),
        { r.cursor with position := r.given.length + 1, active := none })
  | ended : (s.group r.cursor.group).ending = some .complete →
      (s.group r.cursor.group).frames.length ≤ r.given.length →
      Offers s r (.ok none, r.cursor)
  | halted {h : Halt TransportError} : Offers s r (.error h, r.cursor)

/-- What a follower is told that asks for the next frame as a whole. -/
inductive Reads (s : Store) (r : GroupFollower) :
    Attempt TransportError (Option Bytes) × GroupCursor → Prop where
  | frame {w : FrameWriter} : (s.group r.cursor.group).frames[r.given.length]? = some w →
      (s.frame w.frame).ending = some .complete →
      Reads s r (.ok (some (s.frame w.frame).payload),
        { r.cursor with position := r.given.length + 1, active := none })
  | begun {w : FrameWriter} {h : Halt TransportError} :
      (s.group r.cursor.group).frames[r.given.length]? = some w →
      Reads s r (.error h,
        { r.cursor with position := r.given.length + 1, active := some w.cursor })
  | ended : (s.group r.cursor.group).ending = some .complete →
      (s.group r.cursor.group).frames.length ≤ r.given.length →
      Reads s r (.ok none, r.cursor)
  | halted {h : Halt TransportError} : Reads s r (.error h, r.cursor)

/-- What a reader at the start of a frame reads is the payload of a frame that was closed. -/
theorem Store.readAll_cursor {s : Store} {held : Holdings} {w : FrameWriter} {payload : Bytes}
    {c : FrameCursor} (h : s.readAll held w.cursor = (.ok payload, c)) :
    (s.frame w.frame).ending = some .complete ∧ payload = (s.frame w.frame).payload := by
  obtain ⟨hcomplete, hpayload, -⟩ := Store.readAll_eq_ok h
  exact ⟨hcomplete, hpayload⟩

namespace GroupFollows

variable {g : GroupId} {s : Store} {r : GroupFollower}

theorem fresh (g : GroupWriter) (s : Store) : GroupFollows g.group s ⟨g.cursor, []⟩ where
  group_eq := rfl
  given _ _ h := nomatch h
  position_eq := rfl
  active _ h := nomatch h

/-- **What was given is given for good**: the frames stay where they are, and a frame that has ended
    stays as it is. -/
theorem later (hr : GroupFollows g s r) {s' : Store} (hgrows : s.Grows s') :
    GroupFollows g s' r := by
  refine ⟨hr.group_eq, ?_, hr.position_eq, ?_⟩
  · intro k gift hk
    obtain ⟨w, hw, hgift⟩ := hr.given k gift hk
    refine ⟨w, (hgrows.group g).getElem? hw, ?_⟩
    cases gift with
    | reader c => exact hgift
    | whole payload =>
        obtain ⟨hended, hpayload⟩ := hgift
        have hfrozen := (hgrows.frame w.frame).frozen hended
        refine ⟨(hgrows.frame w.frame).ended hended, ?_⟩
        rw [hpayload]
        exact (congrArg List.flatten hfrozen).symm
  · intro c hc
    obtain ⟨w, hw, hcursor⟩ := hr.active c hc
    exact ⟨w, (hgrows.group g).getElem? hw, hcursor⟩

theorem offers_nextFrame (hr : GroupFollows g s r) (held : Holdings) :
    Offers s r (s.nextFrame held r.cursor) := by
  obtain ⟨⟨group, sequence, position, active⟩, given⟩ := r
  obtain rfl : group = g := hr.group_eq
  cases active with
  | some c =>
      obtain rfl : position = given.length + 1 := hr.position_eq
      obtain ⟨w, hw, rfl⟩ := hr.active c rfl
      exact .frame hw
  | none =>
      obtain rfl : position = given.length := hr.position_eq
      have hlooks := (s.group group).looks given.length (held.writesGroup group)
      rw [Store.nextFrame]
      dsimp only
      generalize orDropped ((s.group group).nextFrame given.length) (held.writesGroup group) = x
        at hlooks
      cases hlooks with
      | item hw => exact .frame hw
      | ended hending hlength => exact .ended hending hlength
      | pending _ => exact .halted
      | failed _ _ => exact .halted

theorem reads_readFrame (hr : GroupFollows g s r) (held : Holdings) :
    Reads s r (s.readFrame held r.cursor) := by
  have hoffers := hr.offers_nextFrame held
  rw [Store.readFrame]
  generalize s.nextFrame held r.cursor = x at hoffers
  cases hoffers with
  | ended hending hlength => exact .ended hending hlength
  | halted => exact .halted
  | @frame w hw =>
      dsimp only
      cases hread : s.readAll held w.cursor with
      | mk attempt c =>
          cases attempt with
          | ok payload =>
              obtain ⟨hcomplete, rfl⟩ := Store.readAll_cursor hread
              exact .frame hw hcomplete
          | error h =>
              obtain rfl := Store.readAll_error hread
              exact .begun hw

-- ── taking frames ───────────────────────────────────────────────────

/-- The frame whose turn it is was given. -/
theorem take (hr : GroupFollows g s r) {w : FrameWriter}
    (hw : (s.group r.cursor.group).frames[r.given.length]? = some w) {gift : FrameGift}
    (hgift : gift.Of s w) : GroupFollows g s
      ⟨{ r.cursor with position := r.given.length + 1, active := none }, r.given ++ [gift]⟩ := by
  refine ⟨hr.group_eq, ?_, ?_, fun c hc => nomatch hc⟩
  · intro k gift' hk
    rcases Nat.lt_or_ge k r.given.length with hlt | hge
    · rw [List.getElem?_append_left hlt] at hk
      exact hr.given k gift' hk
    · rw [List.getElem?_append_right hge, List.getElem?_singleton] at hk
      split at hk
      · next hzero =>
        obtain rfl := Option.some.inj hk
        obtain rfl : k = r.given.length := Nat.le_antisymm (Nat.le_of_sub_eq_zero hzero) hge
        exact ⟨w, hr.group_eq ▸ hw, hgift⟩
      · exact nomatch hk
  · show r.given.length + 1 = (r.given ++ [gift]).length + 0
    rw [List.length_append, List.length_singleton]

/-- The frame whose turn it is was begun. -/
theorem begin (hr : GroupFollows g s r) {w : FrameWriter}
    (hw : (s.group r.cursor.group).frames[r.given.length]? = some w) : GroupFollows g s
      ⟨{ r.cursor with position := r.given.length + 1, active := some w.cursor }, r.given⟩ := by
  refine ⟨hr.group_eq, hr.given, rfl, ?_⟩
  intro c hc
  obtain rfl := Option.some.inj hc
  exact ⟨w, hr.group_eq ▸ hw, rfl⟩

/-- **Who asks for a reader of a frame goes on following.** -/
theorem nextFrame (hr : GroupFollows g s r) (held : Holdings) :
    GroupFollows g s (r.nextFrame s held) := by
  have hoffers := hr.offers_nextFrame held
  rw [GroupFollower.nextFrame]
  generalize s.nextFrame held r.cursor = x at hoffers
  cases hoffers with
  | frame hw => exact hr.take hw rfl
  | ended _ _ => exact hr
  | halted => exact hr

/-- **Who asks for a whole frame goes on following**, whether or not it is given one. -/
theorem readFrame (hr : GroupFollows g s r) (held : Holdings) :
    GroupFollows g s (r.readFrame s held) := by
  have hreads := hr.reads_readFrame held
  rw [GroupFollower.readFrame]
  generalize s.readFrame held r.cursor = x at hreads
  cases hreads with
  | @frame w hw hcomplete =>
      have hgift : FrameGift.Of s w (.whole (s.frame w.frame).payload) :=
        ⟨(fun hnone => nomatch hcomplete.symm.trans hnone), rfl⟩
      exact hr.take hw hgift
  | begun hw => exact hr.begin hw
  | ended _ _ => exact hr
  | halted => exact hr

-- ── what a follower is given when there is something ────────────────

/-- The next frame, if there is one, is given to whoever asks for a reader of it. -/
theorem nextFrame_eq_some (hr : GroupFollows g s r) (held : Holdings)
    (halive : ∀ e, (s.group g).ending ≠ some (.aborted e)) {w : FrameWriter}
    (hw : (s.group g).frames[r.given.length]? = some w) : s.nextFrame held r.cursor =
      (.ok (some w.cursor), { r.cursor with position := r.given.length + 1, active := none }) := by
  obtain ⟨⟨group, sequence, position, active⟩, given⟩ := r
  obtain rfl : group = g := hr.group_eq
  cases active with
  | some c =>
      obtain rfl : position = given.length + 1 := hr.position_eq
      obtain ⟨w', hw', rfl⟩ := hr.active c rfl
      obtain rfl := Option.some.inj (hw.symm.trans hw')
      rfl
  | none =>
      obtain rfl : position = given.length := hr.position_eq
      have hnext : (s.group group).nextFrame given.length = .ok (some w) := by
        rw [Group.nextFrame]
        split
        · next e hending => exact absurd hending (halive e)
        · exact congrArg Except.ok hw
        · rw [hw]
      rw [Store.nextFrame]
      dsimp only
      rw [hnext]
      rfl

/-- Who was given all frames holds on to none, and stands at the end. -/
theorem at_end (hr : GroupFollows g s r) (hall : r.given.length = (s.group g).frames.length) :
    r.cursor.active = none ∧ (s.group g).frames[r.cursor.position]? = none := by
  have hend : (s.group g).frames[r.given.length]? = none :=
    List.getElem?_eq_none_iff.mpr (Nat.le_of_eq hall.symm)
  have hactive : r.cursor.active = none := by
    cases hactive : r.cursor.active with
    | none => rfl
    | some c =>
        obtain ⟨w, hw, -⟩ := hr.active c hactive
        cases hw.symm.trans hend
  refine ⟨hactive, ?_⟩
  rw [hr.position_eq, hactive]
  exact hend

/-- A closed group of which all was given says so. -/
theorem nextFrame_eq_none (hr : GroupFollows g s r) (held : Holdings)
    (hclosed : (s.group g).ending = some .complete)
    (hall : r.given.length = (s.group g).frames.length) :
    s.nextFrame held r.cursor = (.ok none, r.cursor) := by
  obtain ⟨hactive, hend⟩ := hr.at_end hall
  have hnext : (s.group g).nextFrame r.cursor.position = .ok none := by
    rw [Group.nextFrame, hclosed, hend]
  rw [Store.nextFrame, hactive]
  dsimp only
  rw [hr.group_eq, hnext]
  rfl

/-- The next frame, once it was closed, is given to whoever asks for all of it. -/
theorem readFrame_eq_some (hr : GroupFollows g s r) (held : Holdings)
    (halive : ∀ e, (s.group g).ending ≠ some (.aborted e)) {w : FrameWriter}
    (hw : (s.group g).frames[r.given.length]? = some w)
    (hcomplete : (s.frame w.frame).ending = some .complete) :
    (s.readFrame held r.cursor).1 = .ok (some (s.frame w.frame).payload) := by
  have hread : s.readAll held w.cursor =
      (.ok (s.frame w.frame).payload, ⟨w.frame, w.size, (s.frame w.frame).chunks.length⟩) := by
    have hrest : (s.frame w.frame).remainder 0 = .ok (s.frame w.frame).payload := by
      rw [Frame.remainder, hcomplete]
      rfl
    rw [Store.readAll]
    dsimp only [FrameWriter.cursor]
    rw [hrest]
    rfl
  rw [Store.readFrame, hr.nextFrame_eq_some held halive hw]
  dsimp only
  rw [hread]

theorem readFrame_eq_none (hr : GroupFollows g s r) (held : Holdings)
    (hclosed : (s.group g).ending = some .complete)
    (hall : r.given.length = (s.group g).frames.length) :
    (s.readFrame held r.cursor).1 = .ok none := by
  rw [Store.readFrame, hr.nextFrame_eq_none held hclosed hall]

-- ── what a follower is told ─────────────────────────────────────────

/-- A whole frame is the next one, and it was closed. -/
theorem whole_is_next (hr : GroupFollows g s r) {held : Holdings} {payload : Bytes}
    (h : (s.readFrame held r.cursor).1 = .ok (some payload)) :
    ∃ w, (s.group g).frames[r.given.length]? = some w ∧
      (s.frame w.frame).ending = some .complete ∧ payload = (s.frame w.frame).payload := by
  have hreads := hr.reads_readFrame held
  generalize s.readFrame held r.cursor = x at h hreads
  cases hreads with
  | frame hw hcomplete =>
      obtain rfl := Option.some.inj (Except.ok.inj h)
      exact ⟨_, hr.group_eq ▸ hw, hcomplete, rfl⟩
  | begun _ => exact nomatch h
  | ended _ _ => exact nomatch h
  | halted => exact nomatch h

/-- A reader is one at the start of the next frame. -/
theorem reader_is_next (hr : GroupFollows g s r) {held : Holdings} {c : FrameCursor}
    (h : (s.nextFrame held r.cursor).1 = .ok (some c)) :
    ∃ w, (s.group g).frames[r.given.length]? = some w ∧ c = w.cursor := by
  have hoffers := hr.offers_nextFrame held
  generalize s.nextFrame held r.cursor = x at h hoffers
  cases hoffers with
  | frame hw =>
      obtain rfl := Option.some.inj (Except.ok.inj h)
      exact ⟨_, hr.group_eq ▸ hw, rfl⟩
  | ended _ _ => exact nomatch h
  | halted => exact nomatch h

/-- Not more was given than the group has. -/
theorem length_given (hr : GroupFollows g s r) : r.given.length ≤ (s.group g).frames.length := by
  rcases Nat.eq_zero_or_pos r.given.length with hzero | hpos
  · exact hzero ▸ Nat.zero_le _
  · have hlast : r.given.length - 1 < r.given.length := Nat.sub_one_lt_of_lt hpos
    obtain ⟨w, hw, -⟩ := hr.given _ _ (List.getElem?_eq_getElem hlast)
    obtain ⟨hlt, -⟩ := List.getElem?_eq_some_iff.mp hw
    omega

/-- Who is told that there are no more frames was given all of a group that was closed. -/
theorem none_is_end (hr : GroupFollows g s r) {held : Holdings}
    (h : (s.readFrame held r.cursor).1 = .ok none ∨ (s.nextFrame held r.cursor).1 = .ok none) :
    (s.group g).ending = some .complete ∧ r.given.length = (s.group g).frames.length := by
  suffices hend : (s.group r.cursor.group).ending = some .complete ∧
      (s.group r.cursor.group).frames.length ≤ r.given.length by
    rw [hr.group_eq] at hend
    exact ⟨hend.1, Nat.le_antisymm hr.length_given hend.2⟩
  rcases h with h | h
  · have hreads := hr.reads_readFrame held
    generalize s.readFrame held r.cursor = x at h hreads
    cases hreads with
    | ended hending hlength => exact ⟨hending, hlength⟩
    | frame _ _ => exact nomatch h
    | begun _ => exact nomatch h
    | halted => exact nomatch h
  · have hoffers := hr.offers_nextFrame held
    generalize s.nextFrame held r.cursor = x at h hoffers
    cases hoffers with
    | ended hending hlength => exact ⟨hending, hlength⟩
    | frame _ => exact nomatch h
    | halted => exact nomatch h

/-- Who asks for all of the next frame of a group need not wait when the group and its frames are closed. -/
theorem readFrame_ne_error (hr : GroupFollows g s r) (held : Holdings)
    (hclosed : (s.group g).ending = some .complete)
    (hframes : ∀ w ∈ (s.group g).frames, (s.frame w.frame).ending = some .complete)
    (h : Halt TransportError) : (s.readFrame held r.cursor).1 ≠ .error h := by
  intro herror
  have halive : ∀ e, (s.group g).ending ≠ some (.aborted e) :=
    fun e haborted => nomatch hclosed.symm.trans haborted
  cases hnext : (s.group g).frames[r.given.length]? with
  | some w =>
      have hw := hframes w (List.mem_of_getElem? hnext)
      rw [hr.readFrame_eq_some held halive hnext hw] at herror
      cases herror
  | none =>
      have hall := Nat.le_antisymm hr.length_given (List.getElem?_eq_none_iff.mp hnext)
      rw [hr.readFrame_eq_none held hclosed hall] at herror
      cases herror

end GroupFollows

-- ── runs ────────────────────────────────────────────────────────────

namespace GroupFollowing

variable {f : GroupFollowing} {g : GroupWriter}

/-- Every follower follows the group. -/
def Sound (g : GroupWriter) (f : GroupFollowing) : Prop :=
  ∀ r ∈ f.followers, GroupFollows g.group f.store r

theorem sound_start (g : GroupWriter) (s : Store) : Sound g (start s) :=
  fun _ hr => absurd hr List.not_mem_nil

theorem Sound.after (hf : Sound g f) (m : Move) : Sound g (f.after g m) := by
  cases m with
  | write op => exact fun r hr => (hf r hr).later (op.grows f.store)
  | subscribe => exact forall_mem_subscribe hf (.fresh g f.store)
  | clone i => exact forall_mem_copy hf i
  | readFrame i held => exact forall_mem_modify hf i fun _ hr => hr.readFrame held
  | nextFrame i held => exact forall_mem_modify hf i fun _ hr => hr.nextFrame held

theorem Sound.run (hf : Sound g f) (ms : List Move) : Sound g (f.run g ms) := by
  induction ms generalizing f with
  | nil => exact hf
  | cons m ms ih => exact ih (hf.after m)

-- ── clones ──────────────────────────────────────────────────────────

/-- A follower is where it was unless it is its own turn to read. -/
theorem follower_after {i : Nat} {r : GroupFollower} (h : f.followers[i]? = some r) {m : Move}
    (hm : m.reader? ≠ some i) : (f.after g m).followers[i]? = some r := by
  obtain ⟨hlt, -⟩ := List.getElem?_eq_some_iff.mp h
  have happend (more : List GroupFollower) : (f.followers ++ more)[i]? = some r := by
    rw [List.getElem?_append_left hlt]
    exact h
  have hmodify (j : Nat) (hj : j ≠ i) (read : GroupFollower → GroupFollower) :
      (f.followers.modify j read)[i]? = some r := by
    rw [List.getElem?_modify, h]
    exact congrArg some (if_neg hj)
  cases m with
  | write op => exact h
  | subscribe => exact happend _
  | clone j => exact happend _
  | readFrame j held => exact hmodify j (fun hj => hm (congrArg some hj)) _
  | nextFrame j held => exact hmodify j (fun hj => hm (congrArg some hj)) _

theorem follower_run {i : Nat} {r : GroupFollower} (h : f.followers[i]? = some r) {ms : List Move}
    (hms : ∀ m ∈ ms, m.reader? ≠ some i) : (f.run g ms).followers[i]? = some r := by
  induction ms generalizing f with
  | nil => exact h
  | cons m ms ih =>
      obtain ⟨hm, hms⟩ := List.forall_mem_cons.mp hms
      exact ih (follower_after h hm) hms

/-- A clone starts where the other stands. -/
theorem follower_clone {i : Nat} {r : GroupFollower} (h : f.followers[i]? = some r) :
    (f.after g (.clone i)).followers[f.followers.length]? = some r := by
  show (f.followers ++ f.followers[i]?.toList)[f.followers.length]? = some r
  rw [List.getElem?_append_right (Nat.le_refl _), Nat.sub_self, h]
  rfl

-- ── nothing is lost ─────────────────────────────────────────────────

/-- **Readers of a group lose nothing and repeat nothing.** After any moves, whatever is held then: what a
    reader was given are the first frames of the group, one by one, and it has passed over no other, but
    for the one that it holds on to; the whole frame or the reader that it is given next is the one
    behind; it is told that there are no more frames only if the group was closed and all were given; and a
    clone starts where the reader stands, which stays where it is whatever the others read. Unless the group
    was aborted, the reader is given the next frame when it asks for a reader of it, and as a whole once the
    frame was closed, and at the end of a closed group it is told so. -/
theorem cursors_lose_nothing (s : Store) (g : GroupWriter) (ms : List Move) :
    let f := (start s).run g ms
    let frames := (f.store.group g.group).frames
    ∀ (i : Nat) (r : GroupFollower), f.followers[i]? = some r →
      (∀ (k : Nat) (gift : FrameGift), r.given[k]? = some gift →
        ∃ w, frames[k]? = some w ∧ gift.Of f.store w) ∧
      r.cursor.position = r.given.length + r.cursor.active.toList.length ∧
      (∀ c, r.cursor.active = some c → ∃ w, frames[r.given.length]? = some w ∧ c = w.cursor) ∧
      (∀ held : Holdings,
        let whole := (f.store.readFrame held r.cursor).1
        let reader := (f.store.nextFrame held r.cursor).1
        (∀ payload, whole = .ok (some payload) → ∃ w, frames[r.given.length]? = some w ∧
          (f.store.frame w.frame).ending = some .complete ∧
          payload = (f.store.frame w.frame).payload) ∧
        (∀ c, reader = .ok (some c) → ∃ w, frames[r.given.length]? = some w ∧ c = w.cursor) ∧
        (whole = .ok none ∨ reader = .ok none →
          (f.store.group g.group).ending = some .complete ∧ r.given.length = frames.length) ∧
        ((∀ e, (f.store.group g.group).ending ≠ some (.aborted e)) → ∀ w,
          frames[r.given.length]? = some w → reader = .ok (some w.cursor) ∧
            ((f.store.frame w.frame).ending = some .complete →
              whole = .ok (some (f.store.frame w.frame).payload))) ∧
        ((f.store.group g.group).ending = some .complete → r.given.length = frames.length →
          whole = .ok none ∧ reader = .ok none)) ∧
      (f.after g (.clone i)).followers[f.followers.length]? = some r ∧
      ∀ ms', (∀ m ∈ ms', m.reader? ≠ some i) → (f.run g ms').followers[i]? = some r := by
  intro f frames i r hr
  have hfollows : GroupFollows g.group f.store r :=
    (sound_start g s).run ms r (List.mem_of_getElem? hr)
  refine ⟨hfollows.given, hfollows.position_eq, hfollows.active, ?_, follower_clone hr,
    fun ms' hms' => follower_run hr hms'⟩
  intro held whole reader
  refine ⟨fun _ h => hfollows.whole_is_next h, fun _ h => hfollows.reader_is_next h,
    hfollows.none_is_end, ?_, ?_⟩
  · intro halive w hw
    exact ⟨congrArg Prod.fst (hfollows.nextFrame_eq_some held halive hw),
      hfollows.readFrame_eq_some held halive hw⟩
  · intro hclosed hall
    exact ⟨hfollows.readFrame_eq_none held hclosed hall,
      congrArg Prod.fst (hfollows.nextFrame_eq_none held hclosed hall)⟩

/-- A reader asks for a frame of which half is written, gives up and is cloned. When the frame is there,
    it asks again, and the clone asks for a reader. -/
def givenUp : List Move :=
  [.subscribe, .write (.createFrame ⟨0, 1⟩ 4), .write (.writeChunk ⟨0, 4⟩ [97, 98]),
    .readFrame 0 [.groupWriter 0, .frameWriter 0], .clone 0, .write (.writeChunk ⟨0, 4⟩ [99, 100]),
    .write (.closeFrame ⟨0, 4⟩), .write (.closeGroup ⟨0, 1⟩), .readFrame 0 [], .nextFrame 1 []]

theorem cursors_lose_nothing_given_up :
    let f := (start (Store.empty.newGroup 1).2).run ⟨0, 1⟩ givenUp
    f.followers[0]? = some ⟨⟨0, 1, 1, none⟩, [.whole [97, 98, 99, 100]]⟩ ∧
      f.followers[1]? = some ⟨⟨0, 1, 1, none⟩, [.reader ⟨0, 4, 0⟩]⟩ ∧
      (f.store.nextFrame [] ⟨0, 1, 1, none⟩).1 = .ok none ∧
      (f.store.group 0).ending = some .complete ∧ 1 = (f.store.group 0).frames.length := by
  intro f
  have hwhole : f.followers[0]? = some ⟨⟨0, 1, 1, none⟩, [.whole [97, 98, 99, 100]]⟩ := by
    decide +kernel
  have hreader : f.followers[1]? = some ⟨⟨0, 1, 1, none⟩, [.reader ⟨0, 4, 0⟩]⟩ := by
    decide +kernel
  have hnone : (f.store.nextFrame [] ⟨0, 1, 1, none⟩).1 = .ok none := by rfl
  obtain ⟨-, -, -, hanswers, -⟩ :=
    cursors_lose_nothing (Store.empty.newGroup 1).2 ⟨0, 1⟩ givenUp 1 _ hreader
  obtain ⟨-, -, hend, -⟩ := hanswers []
  exact ⟨hwhole, hreader, hnone, hend (.inr hnone)⟩

end GroupFollowing

end LiveMedia.Live
