import LiveMedia.Playback.GroupReader
import LiveMedia.Proofs.Live.GroupFollowing

/-!
# Which frame is the keyframe

A reader of the media in a group takes the frames of the group one after the other, whether they hold media
or not, and counts those that do. It marks a frame as the keyframe if it has counted none before. So the
position of its cursor and its count are about different things: the position says how many frames were
taken (`Watches.follows`), the count how many of them could be decoded (`Watches.count_eq`).

The keyframe is therefore the first frame that holds media, wherever that stands in the group. It is the
first frame of the group as long as that frame holds media.
-/

namespace LiveMedia.Playback

open LiveMedia.Wire LiveMedia.Live

-- ── media in frames ─────────────────────────────────────────────────

/-- The bytes hold media: a timestamp can be read from them. -/
def HoldsMedia (bs : Bytes) : Prop := ∃ timestamp, (Varint.decode.run bs).1 = .ok timestamp

instance (bs : Bytes) : Decidable (HoldsMedia bs) :=
  match h : (Varint.decode.run bs).1 with
  | .ok timestamp => isTrue ⟨timestamp, h⟩
  | .error e => isFalse fun ⟨timestamp, hok⟩ => by cases h.symm.trans hok

namespace MediaFrame

variable {bs : Bytes} {keyframe : Bool}

theorem decode_of_holdsMedia (h : HoldsMedia bs) (keyframe : Bool) :
    ∃ f, decode bs keyframe = .ok f ∧ f.keyframe = keyframe := by
  obtain ⟨timestamp, hrun⟩ := h
  have hsplit : Varint.decode.run bs = (.ok timestamp, (Varint.decode.run bs).2) := Prod.ext hrun rfl
  rw [decode, hsplit]
  exact ⟨_, rfl, rfl⟩

theorem holdsMedia_of_decode {f : MediaFrame} (h : decode bs keyframe = .ok f) : HoldsMedia bs := by
  unfold decode at h
  split at h
  · next timestamp rest hrun => exact ⟨timestamp, congrArg Prod.fst hrun⟩
  · cases h

/-- A frame is marked as its reader says. -/
theorem keyframe_of_decode {f : MediaFrame} (h : decode bs keyframe = .ok f) : f.keyframe = keyframe := by
  obtain ⟨f', hdecode, hkeyframe⟩ := decode_of_holdsMedia (holdsMedia_of_decode h) keyframe
  obtain rfl := Except.ok.inj (h.symm.trans hdecode)
  exact hkeyframe

theorem not_holdsMedia_of_decode {e : DecodeError} (h : decode bs keyframe = .error e) :
    ¬ HoldsMedia bs := by
  intro hmedia
  obtain ⟨f, hdecode, -⟩ := decode_of_holdsMedia hmedia keyframe
  cases h.symm.trans hdecode

end MediaFrame

-- ── a reader and its group ──────────────────────────────────────────

/-- A reader of a group, from which these payloads were taken so far. -/
structure Watches (g : GroupId) (s : Store) (r : GroupReader) (taken : List Bytes) : Prop where
  /-- They are the first payloads of the group, and the cursor stands behind them. -/
  follows : GroupFollows g s ⟨r.cursor, taken.map .whole⟩
  count_eq : r.count = taken.countP (HoldsMedia ·)

namespace Watches

variable {g : GroupId} {s : Store} {r : GroupReader} {taken : List Bytes}

theorem fresh (g : GroupWriter) (s : Store) : Watches g.group s (.start g.cursor) [] :=
  ⟨.fresh g s, rfl⟩

theorem later (h : Watches g s r taken) {s' : Store} (hgrows : s.Grows s') : Watches g s' r taken :=
  ⟨h.follows.later hgrows, h.count_eq⟩

/-- One payload more was taken, and is counted if it holds media. -/
theorem take {cursor : GroupCursor} {payload : Bytes} {count : Nat} (h : Watches g s r taken)
    (hfollows : GroupFollows g s ⟨cursor, taken.map .whole ++ [.whole payload]⟩)
    (hcount : count = r.count + if HoldsMedia payload then 1 else 0) :
    Watches g s ⟨cursor, count⟩ (taken ++ [payload]) := by
  constructor
  · rw [List.map_append]
    exact hfollows
  · rw [List.countP_append, List.countP_singleton, ← h.count_eq]
    simpa using hcount

/-- What a reader is told, and which payloads were taken then. -/
inductive Tells (g : GroupId) (s : Store) (r : GroupReader) (taken : List Bytes) :
    Attempt MediaError (Option MediaFrame) × GroupReader → Prop where
  | frame {w : FrameWriter} {f : MediaFrame} {r' : GroupReader} :
      (s.group g).frames[taken.length]? = some w → (s.frame w.frame).ending = some .complete →
      MediaFrame.decode (s.frame w.frame).payload (r.count == 0) = .ok f →
      r'.cursor.position = taken.length + 1 →
      Watches g s r' (taken ++ [(s.frame w.frame).payload]) → Tells g s r taken (.ok (some f), r')
  | undecodable {payload : Bytes} {e : DecodeError} {r' : GroupReader} :
      Watches g s r' (taken ++ [payload]) → Tells g s r taken (.error (.failed (.decode e)), r')
  | ended {r' : GroupReader} : Watches g s r' taken → Tells g s r taken (.ok none, r')
  | halted {h : Halt MediaError} {r' : GroupReader} : Watches g s r' taken →
      Tells g s r taken (.error h, r')

/-- **What a read comes to.** -/
theorem tells (h : Watches g s r taken) (held : Holdings) :
    Tells g s r taken (r.readFrame s held) := by
  have hreads := h.follows.reads_readFrame held
  have hfollows := h.follows.readFrame held
  rw [GroupFollower.readFrame] at hfollows
  rw [GroupReader.readFrame]
  dsimp only at hreads hfollows
  generalize s.readFrame held r.cursor = x at hreads hfollows
  cases hreads with
  | @frame w hw hcomplete =>
      have hgroup : r.cursor.group = g := h.follows.group_eq
      rw [hgroup, List.length_map] at hw
      dsimp only at hfollows ⊢
      cases hdecode : MediaFrame.decode (s.frame w.frame).payload (r.count == 0) with
      | ok f =>
          have hmedia := MediaFrame.holdsMedia_of_decode hdecode
          refine .frame hw hcomplete hdecode ?_ (h.take hfollows ?_)
          · exact congrArg (· + 1) (List.length_map _)
          · rw [if_pos hmedia]
      | error e =>
          have hmedia := MediaFrame.not_holdsMedia_of_decode hdecode
          refine .undecodable (h.take hfollows ?_)
          rw [if_neg hmedia, Nat.add_zero]
  | @begun w halt hw =>
      cases halt with
      | pending => exact .halted ⟨hfollows, h.count_eq⟩
      | failed e => exact .halted ⟨hfollows, h.count_eq⟩
  | ended hending hlength => exact .ended ⟨hfollows, h.count_eq⟩
  | @halted halt =>
      cases halt with
      | pending => exact .halted ⟨hfollows, h.count_eq⟩
      | failed e => exact .halted ⟨hfollows, h.count_eq⟩

/-- A payload that was taken is the one of the frame at its place in the group. -/
theorem frame_at (h : Watches g s r taken) {i : Nat} {bs : Bytes} (hi : taken[i]? = some bs) :
    ∃ w, (s.group g).frames[i]? = some w ∧ (s.frame w.frame).payload = bs := by
  have hgift : (taken.map FrameGift.whole)[i]? = some (.whole bs) := by
    rw [List.getElem?_map, hi]
    rfl
  obtain ⟨w, hw, -, hbs⟩ := h.follows.given i _ hgift
  exact ⟨w, hw, hbs.symm⟩

/-- Every place before the cursor was taken. -/
theorem payload_at (h : Watches g s r taken) {i : Nat} {w : FrameWriter}
    (hw : (s.group g).frames[i]? = some w) (hi : i < taken.length) :
    taken[i]? = some (s.frame w.frame).payload := by
  have hpayload : taken[i]? = some taken[i] := List.getElem?_eq_getElem hi
  obtain ⟨w', hw', heq⟩ := h.frame_at hpayload
  obtain rfl := Option.some.inj (hw.symm.trans hw')
  rw [hpayload, heq]

/-- A reader has counted nothing if no frame that it took holds media. -/
theorem count_eq_zero_iff (h : Watches g s r taken) : r.count = 0 ↔
    ∀ i w, i < taken.length → (s.group g).frames[i]? = some w →
      ¬ HoldsMedia (s.frame w.frame).payload := by
  rw [h.count_eq, List.countP_eq_zero]
  constructor
  · intro hnone i w hi hw hmedia
    have hmem := List.mem_of_getElem? (h.payload_at hw hi)
    exact hnone _ hmem (decide_eq_true hmedia)
  · intro hnone bs hbs hmedia
    obtain ⟨i, hi⟩ := List.mem_iff_getElem?.mp hbs
    obtain ⟨w, hw, rfl⟩ := h.frame_at hi
    obtain ⟨hlt, -⟩ := List.getElem?_eq_some_iff.mp hi
    exact hnone i w hlt hw (of_decide_eq_true hmedia)

end Watches

-- ── runs ────────────────────────────────────────────────────────────

/-- A group that is read for its media while publishers write. -/
structure Watching where
  store : Store
  reader : GroupReader

namespace Watching

/-- One thing that happens to the group. -/
inductive Move where
  | write (op : Operation)
  /-- The reader asks for the next frame, while others hold what they hold. -/
  | read (held : Holdings)

/-- A reader at the start of a group. -/
def start (s : Store) (g : GroupWriter) : Watching := ⟨s, .start g.cursor⟩

def after (p : Watching) : Move → Watching
  | .write op => { p with store := op.perform p.store }
  | .read held => { p with reader := (p.reader.readFrame p.store held).2 }

def run (p : Watching) : List Move → Watching
  | [] => p
  | m :: ms => (p.after m).run ms

variable {p : Watching} {g : GroupId} {taken : List Bytes}

theorem after_watches (h : Watches g p.store p.reader taken) (m : Move) :
    ∃ taken', Watches g (p.after m).store (p.after m).reader taken' := by
  cases m with
  | write op => exact ⟨taken, h.later (op.grows p.store)⟩
  | read held =>
      have htells := h.tells held
      show ∃ taken', Watches g p.store (p.reader.readFrame p.store held).2 taken'
      generalize p.reader.readFrame p.store held = x at htells
      cases htells with
      | frame _ _ _ _ h' => exact ⟨_, h'⟩
      | undecodable h' => exact ⟨_, h'⟩
      | ended h' => exact ⟨_, h'⟩
      | halted h' => exact ⟨_, h'⟩

theorem run_watches (h : Watches g p.store p.reader taken) (ms : List Move) :
    ∃ taken', Watches g (p.run ms).store (p.run ms).reader taken' := by
  induction ms generalizing p taken with
  | nil => exact ⟨taken, h⟩
  | cons m ms ih =>
      obtain ⟨taken', h'⟩ := after_watches h m
      exact ih h'

/-- **The keyframe is the first frame that can be decoded.** A group is read from its start in the course of
    any moves, errors and waits included. A frame that is returned then is the one at some place of the
    group, which was closed. It is marked as the keyframe if and only if no frame before it holds media. So
    the mark says that it is the first frame of the group exactly if it is the first or one before it holds
    media. -/
theorem keyframe_iff_first_media (s : Store) (g : GroupWriter) (ms : List Move) (held : Holdings) :
    let p := (start s g).run ms
    let frames := (p.store.group g.group).frames
    ∀ f r', p.reader.readFrame p.store held = (.ok (some f), r') →
      ∃ k w, r'.cursor.position = k + 1 ∧ frames[k]? = some w ∧
        (p.store.frame w.frame).ending = some .complete ∧
        MediaFrame.decode (p.store.frame w.frame).payload f.keyframe = .ok f ∧
        (f.keyframe = true ↔ ∀ i v, i < k → frames[i]? = some v →
          ¬ HoldsMedia (p.store.frame v.frame).payload) ∧
        ((f.keyframe = true ↔ k = 0) ↔
          k = 0 ∨ ∃ i v, i < k ∧ frames[i]? = some v ∧ HoldsMedia (p.store.frame v.frame).payload) := by
  intro p frames f r' hread
  have hfresh : Watches g.group (start s g).store (start s g).reader [] := .fresh g s
  obtain ⟨taken, hwatches⟩ := run_watches hfresh ms
  have htells := hwatches.tells held
  rw [hread] at htells
  cases htells with
  | @frame w _ _ hw hcomplete hdecode hposition _ =>
      have hmark : f.keyframe = (p.reader.count == 0) := MediaFrame.keyframe_of_decode hdecode
      have hfirst : f.keyframe = true ↔ ∀ i v, i < taken.length → frames[i]? = some v →
          ¬ HoldsMedia (p.store.frame v.frame).payload := by
        rw [hmark, beq_iff_eq]
        exact hwatches.count_eq_zero_iff
      refine ⟨taken.length, w, hposition, hw, hcomplete, ?_, hfirst, ?_⟩
      · rw [hmark]
        exact hdecode
      · rw [hfirst]
        by_cases hzero : taken.length = 0
        · have hnone : ∀ i v, i < taken.length → frames[i]? = some v →
              ¬ HoldsMedia (p.store.frame v.frame).payload :=
            fun i v hi => absurd (hzero ▸ hi) (Nat.not_lt_zero i)
          exact iff_of_true (iff_of_true hnone hzero) (.inl hzero)
        · constructor
          · intro h
            refine .inr (Classical.byContradiction fun hnever => hzero (h.mp fun i v hi hv hmedia => ?_))
            exact hnever ⟨i, v, hi, hv, hmedia⟩
          · rintro (h | ⟨i, v, hi, hv, hmedia⟩)
            · exact absurd h hzero
            · exact iff_of_false (fun hnone => hnone i v hi hv hmedia) hzero

/-- Two frames are written. The first is cut inside its timestamp. -/
def undecodableFirst : List Move :=
  [.write (.writeFrame ⟨0, 1⟩ [[67]]), .write (.writeFrame ⟨0, 1⟩ [[5]])]

theorem keyframe_iff_first_media_third :
    let p := (start (Store.empty.newGroup 1).2 ⟨0, 1⟩).run
      (undecodableFirst ++ [.read [], .read [], .write (.writeFrame ⟨0, 1⟩ [[6]])])
    p.reader.readFrame p.store [] = (.ok (some ⟨⟨⟨6⟩⟩, false, []⟩), ⟨⟨0, 1, 3, none⟩, 2⟩) ∧
      ∃ w, (p.store.group 0).frames[2]? = some w ∧
        MediaFrame.decode (p.store.frame w.frame).payload false = .ok ⟨⟨⟨6⟩⟩, false, []⟩ ∧
        ¬ ∀ i v, i < 2 → (p.store.group 0).frames[i]? = some v →
          ¬ HoldsMedia (p.store.frame v.frame).payload := by
  intro p
  have hread : p.reader.readFrame p.store [] =
      (.ok (some ⟨⟨⟨6⟩⟩, false, []⟩), ⟨⟨0, 1, 3, none⟩, 2⟩) := rfl
  obtain ⟨k, w, hposition, hw, -, hdecode, hfirst, -⟩ :=
    keyframe_iff_first_media (Store.empty.newGroup 1).2 ⟨0, 1⟩
      (undecodableFirst ++ [.read [], .read [], .write (.writeFrame ⟨0, 1⟩ [[6]])]) [] _ _ hread
  obtain rfl : 2 = k := Nat.succ.inj hposition
  exact ⟨hread, w, hw, hdecode, fun hnone => Bool.false_ne_true (hfirst.mpr hnone)⟩

/-- **A second frame is marked as the keyframe.** The first frame of the group is an error, and the frame that
    is returned next is the second. -/
theorem second_frame_is_keyframe :
    let p := (start (Store.empty.newGroup 1).2 ⟨0, 1⟩).run undecodableFirst
    let p' := p.after (.read [])
    (p.store.group 0).frames = [⟨0, 1⟩, ⟨1, 1⟩] ∧
      (p.reader.readFrame p.store []).1 = .error (.failed (.decode .short)) ∧
      p'.reader.readFrame p'.store [] = (.ok (some ⟨⟨⟨5⟩⟩, true, []⟩), ⟨⟨0, 1, 2, none⟩, 1⟩) :=
  ⟨rfl, rfl, rfl⟩

end Watching

end LiveMedia.Playback
