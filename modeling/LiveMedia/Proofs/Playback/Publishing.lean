import LiveMedia.Playback.GroupReader
import LiveMedia.Proofs.Live.Counting
import LiveMedia.Proofs.Live.GroupFollowing
import LiveMedia.Proofs.Live.TrackFollowing
import LiveMedia.Proofs.Playback.Grouping
import Mathlib.Data.List.Forall2
import Mathlib.Data.List.TakeWhile

/-!
# What was published is read back

A publisher writes frames to a new track, and readers of its groups take them while it goes on and after it
has closed the track. `Publishing` keeps, beside the store, the answers that the publisher got, every group
that the track got, and with every reader what it was given.

The two ends never speak of keyframes. The publisher begins a group at each, and a reader takes the first
frame of its group for one; they agree because a group holds a run (`readable_of_mem_runsOf`). So a reader
that was given some frames was given the first of a run (`MediaFollower.Follows`), and the next that it is
given is the next of that run (`MediaFollower.Follows.told`). Writing makes runs longer and lets readers
stand where they are (`Publishing.Sound.write`), and whatever readers do, all of them stand in runs
(`Publishing.Shown.observe`).
-/

namespace LiveMedia.Playback

open LiveMedia.Wire LiveMedia.Live

-- ── reading a run ───────────────────────────────────────────────────

/-- Every frame of a run is read back from its place in it. -/
def Readable (run : List MediaFrame) : Prop :=
  ∀ (k : Nat) (f : MediaFrame), run[k]? = some f → MediaFrame.decode f.encoded (k == 0) = .ok f.joined

/-- **A run needs no marks**: the place of a frame says whether it is the keyframe. -/
theorem readable_of_mem_runsOf {fs run : List MediaFrame}
    (hstamps : ∀ f ∈ fs, f.timestamp.value ≤ Varint.maximum) (h : run ∈ runsOf fs) : Readable run := by
  intro k f hk
  have hstamp := hstamps f (mem_of_mem_runsOf h (List.mem_of_getElem? hk))
  rw [← keyframe_of_mem_runsOf h hk]
  exact MediaFrame.decode_encoded hstamp f.keyframe

/-- A reader of a group, and what it was given. -/
structure MediaFollower where
  reader : GroupReader
  given : List MediaFrame
deriving DecidableEq, Repr

namespace MediaFollower

/-- A new reader at the start of a group. -/
def start (c : GroupCursor) : MediaFollower := ⟨.start c, []⟩

/-- The follower asks for the next frame. -/
def read (r : MediaFollower) (s : Store) (held : Holdings) : MediaFollower :=
  match r.reader.readFrame s held with
  | (.ok (some f), reader) => ⟨reader, r.given ++ [f]⟩
  | (_, reader) => ⟨reader, r.given⟩

/-- The follower asks once for each of these. -/
def reads (r : MediaFollower) (s : Store) (helds : List Holdings) : MediaFollower :=
  helds.foldl (fun r held => r.read s held) r

/-- The follower stands in its group behind these frames, and was given them. -/
structure Follows (s : Store) (e : GroupEntry) (before : List MediaFrame) (r : MediaFollower) : Prop where
  given_eq : r.given = before.map MediaFrame.joined
  count_eq : r.reader.count = before.length
  sequence_eq : r.reader.cursor.sequence = e.sequence
  group : GroupFollows e.group s ⟨r.reader.cursor, before.map fun f => .whole f.encoded⟩

/-- What a follower is told of a group that has the frames of a run. -/
inductive Told (s : Store) (e : GroupEntry) (run before : List MediaFrame) (r : MediaFollower) :
    Attempt MediaError (Option MediaFrame) × GroupReader → Prop where
  | frame {f : MediaFrame} {reader : GroupReader} : run[before.length]? = some f →
      Follows s e (before ++ [f]) ⟨reader, r.given ++ [f.joined]⟩ →
      Told s e run before r (.ok (some f.joined), reader)
  | ended {reader : GroupReader} : run.length ≤ before.length → Follows s e before ⟨reader, r.given⟩ →
      Told s e run before r (.ok none, reader)
  /-- This is not so of a group that is complete. -/
  | halted {h : Halt MediaError} {reader : GroupReader} :
      (∀ payloads, ¬s.Complete e.group payloads) → Follows s e before ⟨reader, r.given⟩ →
      Told s e run before r (.error h, reader)

namespace Follows

variable {s : Store} {e : GroupEntry} {run before : List MediaFrame} {r : MediaFollower}

theorem fresh (s : Store) (e : GroupEntry) : Follows s e [] (.start e.cursor) where
  given_eq := rfl
  count_eq := rfl
  sequence_eq := rfl
  group := .fresh (writerOf e) s

theorem later (h : Follows s e before r) {s' : Store} (hgrows : s.Grows s') : Follows s' e before r where
  given_eq := h.given_eq
  count_eq := h.count_eq
  sequence_eq := h.sequence_eq
  group := h.group.later hgrows

/-- **The next frame of the run is the next that is given.** -/
theorem told (h : Follows s e before r) (hholds : Holds s e run) (hrun : Readable run) (held : Holdings) :
    Told s e run before r (r.reader.readFrame s held) := by
  obtain ⟨⟨cursor, count⟩, given⟩ := r
  obtain rfl : count = before.length := h.count_eq
  let gifts := before.map fun f => FrameGift.whole f.encoded
  have hlength : gifts.length = before.length := List.length_map _
  have hgroup : GroupFollows e.group s ⟨cursor, gifts⟩ := h.group
  have hreads : LiveMedia.Live.Reads s ⟨cursor, gifts⟩ (s.readFrame held cursor) :=
    hgroup.reads_readFrame held
  have hhalted : ∀ halt, (s.readFrame held cursor).1 = .error halt →
      ∀ payloads, ¬s.Complete e.group payloads := fun halt herror _ hcomplete =>
    hgroup.readFrame_ne_error held hcomplete.group hcomplete.frames halt herror
  rw [GroupReader.readFrame]
  dsimp only
  generalize s.readFrame held cursor = x at hreads hhalted
  cases hreads with
  | @frame w hw hcomplete =>
      have hnext : (s.group e.group).frames[before.length]? = some w := by
        rw [← hlength, ← hgroup.group_eq]
        exact hw
      obtain ⟨f, hf, hpayload⟩ := hholds.payload_eq hnext
      have hgift : FrameGift.Of s w (.whole f.encoded) :=
        ⟨(fun hnone => nomatch hcomplete.symm.trans hnone), hpayload⟩
      dsimp only
      rw [← hpayload, hrun _ f hf]
      refine .frame hf ⟨?_, ?_, h.sequence_eq, ?_⟩
      · rw [List.map_append, ← h.given_eq]
        rfl
      · rw [List.length_append]
        rfl
      · rw [List.map_append]
        exact hgroup.take hw hgift
  | @begun w halt hw =>
      let begun : GroupCursor := { cursor with position := gifts.length + 1, active := some w.cursor }
      have hkept : Follows s e before ⟨⟨begun, before.length⟩, given⟩ :=
        ⟨h.given_eq, h.count_eq, h.sequence_eq, hgroup.begin hw⟩
      cases halt with
      | pending => exact .halted (hhalted _ rfl) hkept
      | failed err => exact .halted (hhalted _ rfl) hkept
  | ended hending hall =>
      rw [hgroup.group_eq, hlength, hholds.length_eq] at hall
      exact .ended hall h
  | @halted halt =>
      cases halt with
      | pending => exact .halted (hhalted _ rfl) h
      | failed err => exact .halted (hhalted _ rfl) h

/-- **Who reads goes on following.** -/
theorem read (h : Follows s e before r) (hholds : Holds s e run) (hrun : Readable run)
    (hbefore : before <+: run) (held : Holdings) :
    ∃ before', before' <+: run ∧ Follows s e before' (r.read s held) := by
  have htold := h.told hholds hrun held
  rw [MediaFollower.read]
  generalize r.reader.readFrame s held = x at htold
  cases htold with
  | @frame f _ hf hnext =>
      refine ⟨before ++ [f], ?_, hnext⟩
      rw [List.prefix_iff_eq_take, List.length_append, List.length_singleton, List.take_add_one, hf,
        ← List.prefix_iff_eq_take.mp hbefore]
      rfl
  | ended _ hkept => exact ⟨before, hbefore, hkept⟩
  | halted _ hkept => exact ⟨before, hbefore, hkept⟩

variable {k : Nat}

/-- Every call at a complete group gives the next frame, as long as there is one. -/
theorem read_complete (h : Follows s e (run.take k) r)
    (hcomplete : s.Complete e.group (run.map MediaFrame.encoded)) (hrun : Readable run)
    (held : Holdings) : Follows s e (run.take (k + 1)) (r.read s held) := by
  have htold := h.told hcomplete.payloads_eq hrun held
  rw [MediaFollower.read]
  generalize r.reader.readFrame s held = x at htold
  cases htold with
  | @frame f _ hf hnext =>
      obtain ⟨hlt, -⟩ := List.getElem?_eq_some_iff.mp hf
      rw [List.length_take] at hf hlt
      rw [Nat.min_eq_left (by omega)] at hf
      rw [List.take_add_one, hf]
      exact hnext
  | ended hall hkept =>
      rw [List.length_take] at hall
      rw [List.take_of_length_le (by omega)] at hkept ⊢
      exact hkept
  | halted hnever _ => exact absurd hcomplete (hnever _)

theorem reads_complete (h : Follows s e (run.take k) r)
    (hcomplete : s.Complete e.group (run.map MediaFrame.encoded)) (hrun : Readable run)
    (helds : List Holdings) : Follows s e (run.take (k + helds.length)) (r.reads s helds) := by
  induction helds generalizing k r with
  | nil => exact h
  | cons held helds ih =>
      have hrest := ih (h.read_complete hcomplete hrun held)
      rw [Nat.add_assoc, Nat.add_comm 1] at hrest
      exact hrest

/-- The end of the run is the end of the group. -/
theorem ended_complete (h : Follows s e (run.take k) r)
    (hcomplete : s.Complete e.group (run.map MediaFrame.encoded)) (hrun : Readable run)
    (hall : run.length ≤ k) (held : Holdings) : (r.reader.readFrame s held).1 = .ok none := by
  have htold := h.told hcomplete.payloads_eq hrun held
  rw [List.take_of_length_le hall] at htold
  generalize r.reader.readFrame s held = x at htold
  cases htold with
  | frame hf _ =>
      rw [List.getElem?_eq_none (Nat.le_refl _)] at hf
      cases hf
  | ended _ _ => rfl
  | halted hnever _ => exact absurd hcomplete (hnever _)

end Follows

end MediaFollower

-- ── publishing and reading ──────────────────────────────────────────

/-- A publisher of a new track, and who reads it. -/
structure Publishing where
  store : Store
  publisher : Publisher
  /-- What the publisher was answered to each frame. -/
  answers : List (Except MediaError Unit)
  /-- The groups that the track got. -/
  created : List GroupEntry
  readers : List MediaFollower

namespace Publishing

/-- What a reader of the track does. -/
inductive Reading where
  /-- A cursor of the track with this memory takes its next group, and a new reader is put to it. -/
  | take (seen : List Nat) (held : Holdings)
  | read (reader : Nat) (held : Holdings)

/-- One thing that happens to the track. -/
inductive Move where
  | write (f : MediaFrame)
  | reading (r : Reading)

/-- A new track, where nothing was written. -/
def start (s : Store) (info : TrackInfo) : Publishing :=
  ⟨(s.newTrack info).2, .start (s.newTrack info).1, [], [], []⟩

def track (p : Publishing) : Track := p.store.track p.publisher.track.track

/-- The publisher has come further. The track got the groups that it keeps and did not keep before. -/
def advance (p : Publishing) (publisher : Publisher) (store : Store) : Publishing :=
  { p with
    publisher, store
    created := p.created ++
      (store.track publisher.track.track).retained.filter fun e => e ∉ p.track.retained }

theorem created_advance_of_eq {p : Publishing} {publisher : Publisher} {store : Store}
    (h : (store.track publisher.track.track).retained = p.track.retained) :
    (p.advance publisher store).created = p.created := by
  rw [advance]
  dsimp only
  rw [h, List.filter_eq_nil_iff.mpr, List.append_nil]
  intro e he
  simpa using he

/-- The publisher writes a frame; `none` when there is no number for its group. -/
def write? (p : Publishing) (f : MediaFrame) : Option Publishing :=
  (p.publisher.write? p.store f).map fun (answer, publisher, store) =>
    { p.advance publisher store with answers := p.answers ++ [answer] }

def close (p : Publishing) : Except MediaError Unit × Publishing :=
  let (answer, publisher, store) := p.publisher.close p.store
  (answer, p.advance publisher store)

def observe (p : Publishing) : Reading → Publishing
  | .take seen held =>
    match (p.store.nextGroup held { p.publisher.track.cursor with seen }).1 with
    | .ok (some c) => { p with readers := p.readers ++ [.start c] }
    | _ => p
  | .read i held => { p with readers := p.readers.modify i (·.read p.store held) }

/-- Reading changes nothing that is published. -/
theorem observe_eq (p : Publishing) (reading : Reading) :
    ∃ readers, p.observe reading = { p with readers } := by
  cases reading with
  | take seen held =>
      rw [observe]
      split
      · exact ⟨_, rfl⟩
      · exact ⟨p.readers, rfl⟩
  | read i held => exact ⟨_, rfl⟩

theorem foldl_observe_eq (p : Publishing) (readings : List Reading) :
    ∃ readers, readings.foldl observe p = { p with readers } := by
  induction readings generalizing p with
  | nil => exact ⟨p.readers, rfl⟩
  | cons reading readings ih =>
      obtain ⟨readers, heq⟩ := p.observe_eq reading
      obtain ⟨readers', heq'⟩ := ih { p with readers }
      refine ⟨readers', ?_⟩
      rw [List.foldl_cons, heq]
      exact heq'

def after? (p : Publishing) : Move → Option Publishing
  | .write f => p.write? f
  | .reading r => some (p.observe r)

def run? (p : Publishing) : List Move → Option Publishing
  | [] => some p
  | m :: ms => (p.after? m).bind (·.run? ms)

/-- The frames that are to be written. -/
def written : List Move → List MediaFrame
  | [] => []
  | .write f :: ms => f :: written ms
  | .reading _ :: ms => written ms

-- ── what readers rely on ────────────────────────────────────────────

/-- The reader stands in a run of its group. -/
def Stands (s : Store) (entries : List GroupEntry) (runs : List (List MediaFrame)) (r : MediaFollower) :
    Prop :=
  ∃ (i : Nat) (e : GroupEntry) (run before : List MediaFrame), entries[i]? = some e ∧
    runs[i]? = some run ∧ before <+: run ∧ r.Follows s e before

/-- The track keeps the latest of its groups, these have runs of frames, and every reader stands in one. -/
structure Shown (p : Publishing) (runs : List (List MediaFrame)) : Prop where
  sequences : p.created.map GroupEntry.sequence = List.range p.created.length
  retained : p.track.retained = Track.latest p.created
  alive : ∀ e, p.track.ending ≠ some (.aborted e)
  holds : List.Forall₂ (Holds p.store) p.created runs
  readable : ∀ run ∈ runs, Readable run
  readers : ∀ r ∈ p.readers, Stands p.store p.created runs r

theorem rel_of_getElem? {α β : Type} {R : α → β → Prop} {xs : List α} {ys : List β}
    (h : List.Forall₂ R xs ys) {i : Nat} {x : α} {y : β} (hx : xs[i]? = some x) (hy : ys[i]? = some y) :
    R x y := by
  obtain ⟨hxlt, rfl⟩ := List.getElem?_eq_some_iff.mp hx
  obtain ⟨hylt, rfl⟩ := List.getElem?_eq_some_iff.mp hy
  exact h.get hxlt hylt

namespace Shown

variable {p : Publishing} {runs : List (List MediaFrame)}

theorem mem_created (h : Shown p runs) {e : GroupEntry} (he : e ∈ p.track.retained) : e ∈ p.created :=
  (Track.latest_suffix p.created).mem (h.retained ▸ he)

/-- **Readers go on standing in runs**, whatever they do. -/
theorem observe (h : Shown p runs) (reading : Reading) : Shown (p.observe reading) runs := by
  cases reading with
  | take seen held =>
      let c : TrackCursor := { p.publisher.track.cursor with seen }
      have halive : ∀ e, (p.store.track c.track).ending ≠ some (.aborted e) := h.alive
      have htells := Store.tells_nextGroup halive held
      rw [Publishing.observe]
      generalize p.store.nextGroup held c = x at htells
      cases htells with
      | pending _ => exact h
      | dropped _ => exact h
      | ended _ => exact h
      | @group front back e hsplit _ _ =>
          have he : e ∈ p.track.retained := by
            rw [Publishing.track, show (p.store.track p.publisher.track.track).retained = _ from hsplit]
            exact List.mem_append_right _ List.mem_cons_self
          obtain ⟨i, hi⟩ := List.mem_iff_getElem?.mp (h.mem_created he)
          obtain ⟨hlt, -⟩ := List.getElem?_eq_some_iff.mp hi
          rw [h.holds.length_eq] at hlt
          have hnew : Stands p.store p.created runs (.start e.cursor) :=
            ⟨i, e, runs[i], [], hi, List.getElem?_eq_getElem hlt, List.nil_prefix, .fresh _ e⟩
          exact { h with readers := forall_mem_subscribe h.readers hnew }
  | read i held =>
      refine { h with readers := forall_mem_modify h.readers i fun r hr => ?_ }
      obtain ⟨j, e, run, before, he, hrun, hbefore, hfollows⟩ := hr
      have hreadable := h.readable run (List.mem_of_getElem? hrun)
      obtain ⟨before', hbefore', hfollows'⟩ :=
        hfollows.read (rel_of_getElem? h.holds he hrun) hreadable hbefore held
      exact ⟨j, e, run, before', he, hrun, hbefore', hfollows'⟩

theorem foldl_observe (h : Shown p runs) (readings : List Reading) :
    Shown (readings.foldl Publishing.observe p) runs := by
  induction readings generalizing p with
  | nil => exact h
  | cons reading readings ih => exact ih (h.observe reading)

theorem counts (h : Shown p runs) : p.track.Counts p.created := ⟨h.sequences, h.retained⟩

/-- A group that the track keeps is taken by a cursor that was given those before it. -/
theorem take (h : Shown p runs) {e : GroupEntry} (he : e ∈ p.track.retained) (held : Holdings) :
    p.observe (.take (List.range e.sequence) held) =
      { p with readers := p.readers ++ [.start e.cursor] } := by
  let c : TrackCursor := { p.publisher.track.cursor with seen := List.range e.sequence }
  have hknows : c.Knows p.store e.sequence :=
    ⟨fun _ hn => List.mem_range.mp hn, fun _ _ hlt => List.mem_range.mpr hlt⟩
  have hcounts : (p.store.track c.track).Counts p.created := h.counts
  obtain ⟨hcreated, hwindow⟩ := hcounts.mem_retained_iff.mp he
  obtain ⟨_, hnext, -⟩ :=
    hknows.nextGroup_next hcounts h.alive (hcounts.getElem?_sequence hcreated) hwindow held
  rw [Publishing.observe, hnext]

/-- **Who reads a complete group is given the rest of its run**, and then told that this was the end. -/
theorem reads (h : Shown p runs)
    (hcomplete : List.Forall₂ (fun e run => p.store.Complete e.group (run.map MediaFrame.encoded))
      p.created runs) {r : MediaFollower} (hr : r ∈ p.readers) :
    ∃ i e run, p.created[i]? = some e ∧ runs[i]? = some run ∧ r.reader.cursor.group = e.group ∧
      r.reader.cursor.sequence = i ∧ ∀ helds : List Holdings,
        (r.reads p.store helds).given =
          (run.take (r.given.length + helds.length)).map MediaFrame.joined ∧
        (run.length ≤ r.given.length + helds.length → ∀ held,
          ((r.reads p.store helds).reader.readFrame p.store held).1 = .ok none) := by
  obtain ⟨i, e, run, before, he, hrun, hbefore, hfollows⟩ := h.readers r hr
  have hsequence : e.sequence = i := h.counts.sequence_eq he
  have hlength : r.given.length = before.length := by
    rw [hfollows.given_eq, List.length_map]
  rw [List.prefix_iff_eq_take, ← hlength] at hbefore
  rw [hbefore] at hfollows
  have hgroup := rel_of_getElem? hcomplete he hrun
  have hreadable := h.readable run (List.mem_of_getElem? hrun)
  refine ⟨i, e, run, he, hrun, hfollows.group.group_eq, hfollows.sequence_eq.trans hsequence, ?_⟩
  intro helds
  have hlater := hfollows.reads_complete hgroup hreadable helds
  exact ⟨hlater.given_eq, fun hall held => hlater.ended_complete hgroup hreadable hall held⟩

end Shown

-- ── publishing ──────────────────────────────────────────────────────

/-- A reader stands where it stood when groups and runs have become more and longer. -/
theorem Stands.later {s s' : Store} {entries entries' : List GroupEntry} {runs runs' : List (List MediaFrame)}
    {r : MediaFollower} (h : Stands s entries runs r) (hgrows : s.Grows s') (hentries : entries <+: entries')
    (hruns : ∀ (i : Nat) (run : List MediaFrame), runs[i]? = some run →
      ∃ run', runs'[i]? = some run' ∧ run <+: run') : Stands s' entries' runs' r := by
  obtain ⟨i, e, run, before, he, hrun, hbefore, hfollows⟩ := h
  obtain ⟨run', hrun', hlonger⟩ := hruns i run hrun
  obtain ⟨more, rfl⟩ := hentries
  obtain ⟨hlt, -⟩ := List.getElem?_eq_some_iff.mp he
  exact ⟨i, e, run', before, List.getElem?_append_left hlt ▸ he, hrun', hbefore.trans hlonger,
    hfollows.later hgrows⟩

/-- What the publisher is answered to each of these frames. -/
def answersTo (fs : List MediaFrame) : List (Except MediaError Unit) :=
  (fs.takeWhile fun f => !f.keyframe).map (fun _ => .error .missingKeyframe) ++
    (fs.dropWhile fun f => !f.keyframe).map fun _ => .ok ()

theorem answersTo_append_of_nil {fs : List MediaFrame} {f : MediaFrame} (h : runsOf (fs ++ [f]) = []) :
    answersTo (fs ++ [f]) = answersTo fs ++ [.error .missingKeyframe] := by
  have hnone : ∀ g ∈ fs ++ [f], (!g.keyframe) = true := by
    intro g hg
    rw [runsOf_eq_nil_iff.mp h g hg]
    rfl
  have hbefore : ∀ g ∈ fs, (!g.keyframe) = true := fun g hg => hnone g (List.mem_append_left _ hg)
  rw [answersTo, answersTo, List.takeWhile_eq_self_iff.mpr hnone, List.dropWhile_eq_nil_iff.mpr hnone,
    List.takeWhile_eq_self_iff.mpr hbefore, List.dropWhile_eq_nil_iff.mpr hbefore, List.map_append]
  simp

theorem answersTo_append {fs : List MediaFrame} {f : MediaFrame} (h : runsOf (fs ++ [f]) ≠ []) :
    answersTo (fs ++ [f]) = answersTo fs ++ [.ok ()] := by
  by_cases hnil : runsOf fs = []
  · -- `f` is the first keyframe
    have hf : f.keyframe = true := by
      by_contra hf
      exact h (runsOf_append_of_nil (Bool.eq_false_iff.mpr hf) hnil)
    have hbefore : ∀ g ∈ fs, (!g.keyframe) = true := by
      intro g hg
      rw [runsOf_eq_nil_iff.mp hnil g hg]
      rfl
    rw [answersTo, answersTo, List.takeWhile_append_of_pos hbefore, List.dropWhile_append_of_pos hbefore,
      List.takeWhile_eq_self_iff.mpr hbefore, List.dropWhile_eq_nil_iff.mpr hbefore]
    simp [hf]
  · have hsome : ¬∀ g ∈ fs, (!g.keyframe) = true := by
      intro hall
      refine hnil (runsOf_eq_nil_iff.mpr fun g hg => ?_)
      exact (Bool.not_eq_true' _).mp (hall g hg)
    have hshort : (fs.takeWhile fun f => !f.keyframe).length ≠ fs.length := fun hlength =>
      hsome (List.takeWhile_eq_self_iff.mp ((List.takeWhile_prefix _).eq_of_length hlength))
    have hrest : (fs.dropWhile fun f => !f.keyframe).isEmpty = false := by
      rw [List.isEmpty_eq_false_iff, ne_eq, List.dropWhile_eq_nil_iff]
      exact hsome
    rw [answersTo, answersTo, List.takeWhile_append, if_neg hshort, List.dropWhile_append, hrest,
      if_neg Bool.false_ne_true, List.map_append, List.append_assoc]
    rfl

/-- A publisher of the track that was given frames, and its readers. -/
structure Sound (t : TrackWriter) (fs : List MediaFrame) (p : Publishing) : Prop where
  publishes : p.publisher.Publishes t fs p.store p.created
  answers : p.answers = answersTo fs
  shown : Shown p (runsOf fs)

namespace Sound

variable {t : TrackWriter} {fs : List MediaFrame} {p : Publishing}

theorem start (s : Store) (info : TrackInfo) : Sound (s.newTrack info).1 [] (.start s info) := by
  have hpublishes := Publisher.Publishes.start s info
  refine ⟨hpublishes, rfl, ⟨rfl, hpublishes.numbered.retained, ?_, .nil, ?_, ?_⟩⟩
  · intro e hending
    exact nomatch hpublishes.numbered.ending.symm.trans hending
  · intro run hrun
    exact absurd hrun List.not_mem_nil
  · intro r hr
    exact absurd hr List.not_mem_nil

theorem observe (h : Sound t fs p) (reading : Reading) : Sound t fs (p.observe reading) := by
  have hshown := h.shown.observe reading
  obtain ⟨readers, heq⟩ := p.observe_eq reading
  rw [heq] at hshown ⊢
  exact ⟨h.publishes, h.answers, hshown⟩

/-- A frame was written, or refused. -/
theorem advance (h : Sound t fs p) {f : MediaFrame}
    (hstamps : ∀ g ∈ fs ++ [f], g.timestamp.value ≤ Varint.maximum) {s : Store} {more : List GroupEntry}
    {publisher : Publisher} (hfew : more.length ≤ 1) (hgrows : p.store.Grows s)
    (hpublishes : publisher.Publishes t (fs ++ [f]) s (p.created ++ more)) {answer : Except MediaError Unit}
    (hanswer : answersTo (fs ++ [f]) = answersTo fs ++ [answer]) :
    Sound t (fs ++ [f]) { p.advance publisher s with answers := p.answers ++ [answer] } := by
  have hnumbered := hpublishes.numbered
  have hcreated : (p.advance publisher s).created = p.created ++ more := by
    show p.created ++ List.filter (fun e => e ∉ p.track.retained) _ = _
    have hfew' : more.length ≤ Track.window := Nat.le_trans hfew (by decide)
    rw [h.shown.retained, hpublishes.track_eq, hnumbered.retained,
      Track.filter_latest_append hnumbered.nodup hfew']
  let q : Publishing := { p.advance publisher s with answers := p.answers ++ [answer] }
  have htrack : q.track = s.track t.track := by
    rw [← hpublishes.track_eq]
    rfl
  rw [← hcreated] at hnumbered hpublishes
  refine ⟨hpublishes, ?_, ?_, ?_, ?_, hpublishes.holds, ?_, ?_⟩
  · rw [hanswer, ← h.answers]
  · exact hnumbered.sequences
  · exact htrack ▸ hnumbered.retained
  · intro e
    change q.track.ending ≠ _
    rw [htrack, hnumbered.ending]
    exact nofun
  · exact fun run hrun => readable_of_mem_runsOf hstamps hrun
  · intro r hr
    exact (h.shown.readers r hr).later hgrows (hcreated ▸ List.prefix_append _ _) fun i run hrun =>
      runsOf_prefix f hrun

/-- **A write is refused before the first keyframe, and succeeds after it.** -/
theorem write (h : Sound t fs p) (f : MediaFrame)
    (hstamps : ∀ g ∈ fs ++ [f], g.timestamp.value ≤ Varint.maximum) :
    match p.write? f with
    | none => Track.sequenceLimit < (runsOf (fs ++ [f])).length
    | some p' => Sound t (fs ++ [f]) p' := by
  have hwrote := h.publishes.write f
  rw [write?]
  generalize p.publisher.write? p.store f = x at hwrote
  cases hwrote with
  | full hlimit => exact hlimit
  | refused hnil hpublishes =>
      have hnone : ([] : List GroupEntry).length ≤ 1 := Nat.zero_le 1
      rw [← List.append_nil p.created] at hpublishes
      exact h.advance hstamps hnone (.refl _) hpublishes (answersTo_append_of_nil hnil)
  | written hsome hfew hgrows hpublishes =>
      exact h.advance hstamps hfew hgrows hpublishes (answersTo_append hsome)

/-- What is refused before the first keyframe changes nothing. -/
theorem refused (h : Sound t fs p) {f : MediaFrame} (hnone : ∀ g ∈ fs ++ [f], g.keyframe = false) :
    p.write? f = some { p with answers := p.answers ++ [.error .missingKeyframe] } := by
  have hnil := runsOf_eq_nil_iff.mpr hnone
  have hwrote := h.publishes.write f
  rw [write?]
  generalize p.publisher.write? p.store f = x at hwrote
  cases hwrote with
  | full hlimit =>
      rw [hnil] at hlimit
      exact absurd hlimit (Nat.not_lt_zero _)
  | written hsome _ _ _ => exact absurd hnil hsome
  | refused _ _ =>
      show some { p with answers := _, created := (p.advance p.publisher p.store).created } = _
      rw [created_advance_of_eq rfl]

/-- **Moves keep the publisher and its readers together**, until there is no number left. -/
theorem run (h : Sound t fs p) (ms : List Move)
    (hstamps : ∀ f ∈ fs ++ written ms, f.timestamp.value ≤ Varint.maximum) :
    match p.run? ms with
    | none => Track.sequenceLimit < (runsOf (fs ++ written ms)).length
    | some p' => Sound t (fs ++ written ms) p' := by
  induction ms generalizing fs p with
  | nil =>
      rw [written, List.append_nil]
      exact h
  | cons m ms ih =>
      cases m with
      | reading r => exact ih (h.observe r) hstamps
      | write f =>
          have hsplit : fs ++ written (.write f :: ms) = fs ++ [f] ++ written ms := by
            rw [List.append_assoc]
            rfl
          rw [hsplit] at hstamps ⊢
          have hwrite := h.write f fun g hg => hstamps g (List.mem_append_left _ hg)
          rw [run?, after?]
          generalize p.write? f = x at hwrite
          cases x with
          | none => exact Nat.lt_of_lt_of_le hwrite (length_runsOf_le_append _ _)
          | some p' => exact ih hwrite hstamps

/-- **The track is closed**, and all of its groups are complete. Readers stand where they stood. -/
theorem close (h : Sound t fs p) : ∃ q, p.close = (.ok (), q) ∧ q.track.ending = some .complete ∧
    q.created = p.created ∧ Shown q (runsOf fs) ∧
    List.Forall₂ (fun e run => q.store.Complete e.group (run.map MediaFrame.encoded))
      q.created (runsOf fs) := by
  obtain ⟨s, hclose, hgrows, hending, hretained, hcomplete, -⟩ := h.publishes.close
  let q : Publishing := p.advance ⟨t, none⟩ s
  have hcreated : q.created = p.created :=
    created_advance_of_eq (hretained.trans h.shown.retained.symm)
  refine ⟨q, ?_, hending, hcreated, ⟨?_, ?_, ?_, ?_, h.shown.readable, ?_⟩, ?_⟩
  · rw [Publishing.close, hclose]
  · rw [hcreated]
    exact h.shown.sequences
  · rw [hcreated]
    exact hretained
  · intro e haborted
    exact nomatch hending.symm.trans haborted
  · rw [hcreated]
    exact hcomplete.imp fun _ _ hc => hc.payloads_eq
  · rw [hcreated]
    exact fun r hr => (h.shown.readers r hr).later hgrows (List.prefix_refl _) fun i run hrun =>
      ⟨run, hrun, List.prefix_refl _⟩
  · rw [hcreated]
    exact hcomplete

end Sound

-- ── the round trip ──────────────────────────────────────────────────

/-- **What is published is read back.** Whoever writes frames to a new track is refused until the first
    keyframe, and each such answer is all that comes of it; every other frame is written. Then the track is
    closed. It got a group for each keyframe, numbered from zero on, and the group is complete with the run
    of frames that begins there. A group can be taken as long as the track keeps it, and whoever reads it,
    during the writing or after, is given the frames of its run one after the other, with their timestamps,
    marks and payloads, and then told that this was the end. The timestamps may be any that have a form on
    the wire. Only when all numbers are in use, the next keyframe has none. -/
theorem publishing_round_trips (s : Store) (info : TrackInfo) (ms : List Move)
    (hstamps : ∀ f ∈ written ms, f.timestamp.value ≤ Varint.maximum) :
    let fs := written ms
    ((start s info).run? ms = none ↔ Track.sequenceLimit < fs.countP (·.keyframe)) ∧
    ∀ p, (start s info).run? ms = some p →
      p.answers = (fs.takeWhile fun f => !f.keyframe).map (fun _ => .error .missingKeyframe) ++
        ((fs.dropWhile fun f => !f.keyframe).map fun _ => .ok ()) ∧
      (∀ f, (∀ g ∈ fs ++ [f], g.keyframe = false) →
        p.write? f = some { p with answers := p.answers ++ [.error .missingKeyframe] }) ∧
      (∀ e ∈ p.track.retained, ∀ held, p.observe (.take (List.range e.sequence) held) =
        { p with readers := p.readers ++ [.start e.cursor] }) ∧
      ∃ q, p.close = (.ok (), q) ∧
        q.track.ending = some .complete ∧
        q.track.retained = Track.latest q.created ∧
        q.created.map GroupEntry.sequence = List.range (fs.countP (·.keyframe)) ∧
        List.Forall₂ (fun e run => q.store.Complete e.group (run.map MediaFrame.encoded))
          q.created (runsOf fs) ∧
        ∀ readings : List Reading,
          let q' := readings.foldl observe q
          (∀ e ∈ q.track.retained, ∀ held, q'.observe (.take (List.range e.sequence) held) =
            { q' with readers := q'.readers ++ [.start e.cursor] }) ∧
          ∀ r ∈ q'.readers, ∃ i e run, q.created[i]? = some e ∧ (runsOf fs)[i]? = some run ∧
            r.reader.cursor.group = e.group ∧ r.reader.cursor.sequence = i ∧
            ∀ helds : List Holdings,
              let r' := r.reads q.store helds
              let count := r.given.length + helds.length
              r'.given = (run.take count).map MediaFrame.joined ∧
              (run.length ≤ count → ∀ held, (r'.reader.readFrame q.store held).1 = .ok none) := by
  intro fs
  have hrun := (Sound.start s info).run ms hstamps
  rw [List.nil_append] at hrun
  rw [← length_runsOf]
  refine ⟨?_, ?_⟩
  · generalize (start s info).run? ms = x at hrun
    cases x with
    | none => exact iff_of_true rfl hrun
    | some p =>
        have hlength := hrun.publishes.numbered.length_le
        rw [hrun.shown.holds.length_eq] at hlength
        exact iff_of_false nofun (Nat.not_lt_of_le hlength)
  · intro p hp
    rw [hp] at hrun
    obtain ⟨q, hclose, hending, hcreated, hshown, hcomplete⟩ := hrun.close
    refine ⟨hrun.answers, fun f hnone => hrun.refused hnone, fun e he held => hrun.shown.take he held,
      q, hclose, hending, hshown.retained, ?_, hcomplete, ?_⟩
    · rw [hshown.sequences, hshown.holds.length_eq]
    · intro readings
      have hlater := hshown.foldl_observe readings
      obtain ⟨readers, heq⟩ := q.foldl_observe_eq readings
      dsimp only
      rw [heq] at hlater ⊢
      exact ⟨fun e he held => hlater.take he held, fun r hr => hlater.reads hcomplete hr⟩

/-- A frame comes too early. The first group is taken and read while it is being written, and another
    follows it. -/
def earlyFrame : List Move :=
  [.write ⟨⟨⟨0⟩⟩, false, [[1]]⟩, .write ⟨⟨⟨0⟩⟩, true, [[1, 2], [3]]⟩,
    .reading (.take [] [.trackWriter 0, .groupWriter 0]), .reading (.read 0 [.groupWriter 0]),
    .write ⟨⟨⟨33000⟩⟩, false, []⟩, .write ⟨⟨⟨66000⟩⟩, true, [[4]]⟩]

theorem publishing_round_trips_earlyFrame :
    (∀ f ∈ written earlyFrame, f.timestamp.value ≤ Varint.maximum) ∧
    ∃ p q, (start .empty ⟨"video", 3⟩).run? earlyFrame = some p ∧
      p.answers = [.error .missingKeyframe, .ok (), .ok (), .ok ()] ∧ p.close = (.ok (), q) ∧
      q.created.map GroupEntry.sequence = [0, 1] ∧
      ∃ r ∈ q.readers, r.given = [⟨⟨⟨0⟩⟩, true, [[1, 2, 3]]⟩] ∧
        (r.reads q.store [[]]).given = [⟨⟨⟨0⟩⟩, true, [[1, 2, 3]]⟩, ⟨⟨⟨33000⟩⟩, false, []⟩] ∧
        ((r.reads q.store [[]]).reader.readFrame q.store []).1 = .ok none := by
  have hstamps : ∀ f ∈ written earlyFrame, f.timestamp.value ≤ Varint.maximum := by decide
  have hreaders : ((start .empty ⟨"video", 3⟩).run? earlyFrame).map (·.readers) =
      some [⟨⟨⟨0, 0, 1, none⟩, 1⟩, [⟨⟨⟨0⟩⟩, true, [[1, 2, 3]]⟩]⟩] := by decide +kernel
  obtain ⟨-, htrip⟩ := publishing_round_trips .empty ⟨"video", 3⟩ earlyFrame hstamps
  obtain ⟨p, hrun, hp⟩ := Option.map_eq_some_iff.mp hreaders
  obtain ⟨hanswers, -, -, q, hclose, -, -, hsequences, -, hreads⟩ := htrip p hrun
  have hq : q.readers = p.readers := (congrArg (·.2.readers) hclose).symm
  refine ⟨hstamps, p, q, hrun, hanswers, hclose, hsequences, ?_⟩
  rw [hq, hp]
  refine ⟨_, List.mem_cons_self, rfl, ?_⟩
  obtain ⟨-, hread⟩ := hreads []
  obtain ⟨i, e, run, -, hfound, -, hsequence, hgiven⟩ := hread _ (hq ▸ hp ▸ List.mem_cons_self)
  obtain rfl : 0 = i := hsequence
  obtain rfl := Option.some.inj hfound
  obtain ⟨hrest, hend⟩ := hgiven [[]]
  exact ⟨hrest, hend (by decide) []⟩

end Publishing

end LiveMedia.Playback
