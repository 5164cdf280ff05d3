import LiveMedia.Proofs.Live.BroadcastFollowing
import LiveMedia.Proofs.Live.Repetition

/-!
# The window of a track

Groups come onto a track under numbers that the caller chooses, or under the number behind the largest. The
former come in any order, and again once their groups have left the window; the latter have to be new, though
the group with the largest number may be long gone. So the largest number is not one of the window: the track
keeps it apart, and it has to be the largest of all numbers that were ever created.

`Windowed` says this beside the history of what was created. A group that is created keeps it
(`Windowed.create`), and whatever else a call may do concerns how the track ended, or nothing
(`TrackHistory.call_cases`). What a track answers in such a state follows: a number above all that were created
is not in the window, so an open track that has a number left never refuses to append.

A track that has ended answers with the error that it ended with. So it may answer that a number is in use
without looking at numbers, if this is the error that it was aborted with (`aborted_as_duplicate`).
-/

namespace LiveMedia.Live

-- ── how a track refuses to create a group ───────────────────────────

namespace Store

variable {s : Store} {t : TrackWriter} {n : Nat} {e : TransportError}

/-- **The reasons not to create a group**: the track has ended, or it is open and retains the number. -/
theorem createGroup_eq_error_iff : s.createGroup t n = .error e ↔
    (∃ ending, (s.track t.track).ending = some ending ∧ ending.refusal = e) ∨
      ((s.track t.track).ending = none ∧ (s.track t.track).retains n = true ∧ e = .duplicate) := by
  constructor
  · intro herror
    cases hending : (s.track t.track).ending with
    | some ending =>
        rw [createGroup_of_ended hending] at herror
        exact .inl ⟨ending, rfl, Except.error.inj herror⟩
    | none =>
        cases hretains : (s.track t.track).retains n with
        | true =>
            rw [createGroup_of_retained hending hretains] at herror
            exact .inr ⟨rfl, rfl, (Except.error.inj herror).symm⟩
        | false =>
            obtain ⟨made, hmade⟩ := createGroup_of_open hending hretains
            rw [hmade] at herror
            cases herror
  · rintro (⟨ending, hending, rfl⟩ | ⟨hopen, hretains, rfl⟩)
    · exact createGroup_of_ended hending n
    · exact createGroup_of_retained hopen hretains

/-- A number is in use on an open track that retains it, or on any track that was aborted with this error. -/
theorem createGroup_eq_duplicate_iff : s.createGroup t n = .error .duplicate ↔
    ((s.track t.track).ending = none ∧ (s.track t.track).retains n = true) ∨
      (s.track t.track).ending = some (.aborted .duplicate) := by
  rw [createGroup_eq_error_iff]
  constructor
  · rintro (⟨ending, hending, hrefusal⟩ | ⟨hopen, hretains, -⟩)
    · cases ending with
      | complete => cases hrefusal
      | aborted e =>
          obtain rfl : e = .duplicate := hrefusal
          exact .inr hending
    · exact .inl ⟨hopen, hretains⟩
  · rintro (⟨hopen, hretains⟩ | hended)
    · exact .inr ⟨hopen, hretains, rfl⟩
    · exact .inl ⟨_, hended, rfl⟩

end Store

-- ── calls that are refused ──────────────────────────────────────────

/-- The error of what failed. -/
def failure? {α : Type} : Except TransportError α → Option TransportError
  | .ok _ => none
  | .error e => some e

theorem eq_error_of_failure? {α : Type} {x : Except TransportError α} {e : TransportError}
    (h : failure? x = some e) : x = .error e := by
  cases x with
  | ok a => cases h
  | error e' => rw [Option.some.inj h]

namespace TrackHistory

variable {t : TrackWriter} {h : TrackHistory}

/-- The history after these calls, one after the other. -/
def run (h : TrackHistory) (t : TrackWriter) (calls : List TrackCall) : TrackHistory :=
  calls.foldl (fun h c => h.call t c) h

/-- The numbers of all groups that were created, in order of creation. -/
def numbers (h : TrackHistory) : List Nat := h.created.map GroupEntry.sequence

/-- The error that a call is refused with. Aborting is never refused. -/
def refusal? (h : TrackHistory) (t : TrackWriter) : TrackCall → Option TransportError
  | .create n => failure? (h.store.createGroup t n)
  | .append => (h.store.appendGroup? t).bind failure?
  | .close => failure? (h.store.closeTrack t)
  | .abort _ => none

/-- **A call that is refused leaves everything as it was.** -/
theorem call_of_refused {c : TrackCall} {e : TransportError} (hrefused : h.refusal? t c = some e) :
    h.call t c = h := by
  cases c with
  | create n =>
      have hfail : h.store.createGroup t n = .error e := eq_error_of_failure? hrefused
      rw [call, hfail, record]
  | append =>
      obtain ⟨x, happend, hx⟩ := Option.bind_eq_some_iff.mp hrefused
      rw [eq_error_of_failure? hx] at happend
      rw [call, happend]
      rfl
  | close =>
      have hfail : h.store.closeTrack t = .error e := eq_error_of_failure? hrefused
      rw [call, hfail]
      rfl
  | abort e' => cases hrefused

/-- A call to create a group is refused, or the track has the new group and knows its number. -/
theorem create_cases (htrack : t.track < h.store.tracks.size) (n : Nat) :
    h.call t (.create n) = h ∨
      ∃ new : GroupEntry, new.sequence = n ∧ (h.store.track t.track).retains new.sequence = false ∧
        (h.call t (.create n)).created = h.created ++ [new] ∧
        (h.call t (.create n)).store.track t.track = { h.store.track t.track with
          retained := Track.latest ((h.store.track t.track).retained ++ [new])
          largest := some (max n ((h.store.track t.track).largest.getD n)) } := by
  cases hcreate : h.store.createGroup t n with
  | error e =>
      left
      rw [call, hcreate, record]
  | ok made =>
      right
      have hnew := Store.not_retains_of_createGroup hcreate
      obtain ⟨g, s⟩ := made
      obtain ⟨rfl, rfl⟩ := Store.createGroup_eq_ok hcreate
      refine ⟨⟨h.store.groups.size, n⟩, rfl, hnew, ?_, ?_⟩
      · rw [call, hcreate, record]
      · rw [call, hcreate, record]
        exact (h.store.newGroup n).2.track_setTrack_self htrack _

end TrackHistory

-- ── the window and the largest number ───────────────────────────────

/-- One number more at the end of a list. -/
theorem max?_append_singleton (numbers : List Nat) (n : Nat) :
    (numbers ++ [n]).max? = some (max n (numbers.max?.getD n)) := by
  induction numbers with
  | nil => simp
  | cons first rest ih =>
      rw [List.cons_append, List.max?_cons, ih, List.max?_cons]
      cases rest.max? with
      | none => simp [Nat.max_comm]
      | some largest => simp [Nat.max_left_comm]

/-- What a track knows of the groups that were created on it: those that were created last, all under
    different numbers, and the largest number of all. -/
structure Windowed (t : TrackWriter) (h : TrackHistory) : Prop extends Announced t h where
  distinct : ((h.store.track t.track).retained.map GroupEntry.sequence).Nodup
  largest_eq : (h.store.track t.track).largest = h.numbers.max?

namespace Windowed

variable {t : TrackWriter} {h : TrackHistory}

theorem start (s : Store) (info : TrackInfo) : Windowed (s.newTrack info).1 (.start s info) := by
  have hfresh : (TrackHistory.start s info).store.track (s.newTrack info).1.track = .fresh := by
    show (s.tracks.push .fresh)[s.tracks.size]?.getD .fresh = .fresh
    rw [Array.getElem?_push_size]
    rfl
  refine ⟨.start s info, ?_, ?_⟩
  · rw [hfresh]
    exact List.nodup_nil
  · rw [hfresh]
    rfl

/-- A group that is created is a group of the window, and its number counts. -/
theorem create (hw : Windowed t h) (n : Nat) : Windowed t (h.call t (.create n)) := by
  refine ⟨hw.toAnnounced.create n, ?_, ?_⟩
  · rcases TrackHistory.create_cases hw.track_lt n with heq | ⟨new, -, hnew, -, htrack⟩
    · rw [heq]
      exact hw.distinct
    · rw [htrack]
      exact Track.nodup_latest_append hw.distinct hnew
  · rcases TrackHistory.create_cases hw.track_lt n with heq | ⟨new, rfl, -, hcreated, htrack⟩
    · rw [heq]
      exact hw.largest_eq
    · rw [htrack, TrackHistory.numbers, hcreated, List.map_append, List.map_singleton,
        max?_append_singleton, hw.largest_eq]
      rfl

/-- **Every call keeps the window and the largest number.** -/
theorem call (hw : Windowed t h) (c : TrackCall) : Windowed t (h.call t c) := by
  rcases h.call_cases t c with ⟨n, heq⟩ | heq | ⟨ending, heq⟩
  · rw [heq]
    exact hw.create n
  · rw [heq]
    exact hw
  · have htrack := h.store.track_setTrack_self hw.track_lt { h.store.track t.track with ending := ending }
    rw [heq]
    refine ⟨hw.toAnnounced.setTrack rfl, ?_, ?_⟩
    · show (((h.store.setTrack t.track _).track t.track).retained.map GroupEntry.sequence).Nodup
      rw [htrack]
      exact hw.distinct
    · show ((h.store.setTrack t.track _).track t.track).largest = _
      rw [htrack]
      exact hw.largest_eq

theorem run (hw : Windowed t h) (calls : List TrackCall) : Windowed t (h.run t calls) := by
  induction calls generalizing h with
  | nil => exact hw
  | cons c calls ih => exact ih (hw.call c)

theorem length_retained_eq (hw : Windowed t h) :
    (h.store.track t.track).retained.length = min Track.window h.created.length := by
  rw [hw.retained_eq]
  show (h.created.drop (h.created.length - Track.window)).length = _
  rw [List.length_drop]
  omega

-- ── the next number ─────────────────────────────────────────────────

/-- The next number is above all numbers so far. -/
theorem lt_next (hw : Windowed t h) {next : Nat}
    (hnext : (h.store.track t.track).nextSequence? = some next) : ∀ n ∈ h.numbers, n < next := by
  intro n hn
  cases hmax : h.numbers.max? with
  | none =>
      rw [List.max?_eq_none_iff.mp hmax] at hn
      exact absurd hn List.not_mem_nil
  | some largest =>
      have hle : n ≤ largest := (List.max?_eq_some_iff.mp hmax).2 n hn
      rw [Track.nextSequence?, hw.largest_eq, hmax] at hnext
      obtain ⟨-, heq⟩ := Option.ite_none_right_eq_some.mp hnext
      exact Option.some.inj heq ▸ Nat.lt_succ_of_le hle

/-- The window has only numbers that were created, so the next one is not among them. -/
theorem not_retains_next (hw : Windowed t h) {next : Nat}
    (hnext : (h.store.track t.track).nextSequence? = some next) :
    (h.store.track t.track).retains next = false := by
  refine Bool.eq_false_iff.mpr fun hretains => ?_
  obtain ⟨e, he, rfl⟩ := (Track.retains_eq_true_iff _ next).mp hretains
  have hmem : e.sequence ∈ h.numbers := List.mem_map_of_mem (hw.mem_created he)
  exact absurd (hw.lt_next hnext e.sequence hmem) (Nat.lt_irrefl _)

theorem exists_next (hw : Windowed t h) (hbelow : ∀ n ∈ h.numbers, n + 1 < Track.sequenceLimit) :
    ∃ next, (h.store.track t.track).nextSequence? = some next ∧ (h.created = [] → next = 0) := by
  cases hmax : h.numbers.max? with
  | none =>
      refine ⟨0, ?_, fun _ => rfl⟩
      rw [Track.nextSequence?, hw.largest_eq, hmax]
  | some largest =>
      have hmem : largest ∈ h.numbers := (List.max?_eq_some_iff.mp hmax).1
      refine ⟨largest + 1, ?_, fun hnone => ?_⟩
      · rw [Track.nextSequence?, hw.largest_eq, hmax]
        exact if_pos (hbelow largest hmem)
      · rw [TrackHistory.numbers, hnone] at hmem
        exact absurd hmem List.not_mem_nil

/-- **An open track that has a number left appends a group**, under a new number above all others. -/
theorem append_of_open (hw : Windowed t h) (hopen : (h.store.track t.track).ending = none)
    (hbelow : ∀ n ∈ h.numbers, n + 1 < Track.sequenceLimit) :
    ∃ g s, h.store.appendGroup? t = some (.ok (g, s)) ∧ (∀ n ∈ h.numbers, n < g.sequence) ∧
      (h.created = [] → g.sequence = 0) ∧
      h.call t .append = ⟨s, h.created ++ [⟨g.group, g.sequence⟩]⟩ := by
  obtain ⟨next, hnext, hfirst⟩ := hw.exists_next hbelow
  obtain ⟨⟨g, s⟩, hcreate⟩ := Store.createGroup_of_open hopen (hw.not_retains_next hnext)
  have happend : h.store.appendGroup? t = some (.ok (g, s)) := by
    rw [Store.appendGroup?, hnext, Option.map_some, hcreate]
  obtain ⟨rfl, -⟩ := Store.createGroup_eq_ok hcreate
  refine ⟨_, s, happend, hw.lt_next hnext, hfirst, ?_⟩
  rw [TrackHistory.call, happend]
  rfl

-- ── refusals ────────────────────────────────────────────────────────

/-- **What a call can be refused for**: the end of the track, or, if it is open, a number to create a group
    under that it retains. -/
theorem refusal?_cases (hw : Windowed t h) {c : TrackCall} {e : TransportError}
    (hrefused : h.refusal? t c = some e) :
    (∃ ending, (h.store.track t.track).ending = some ending ∧ ending.refusal = e) ∨
      ((h.store.track t.track).ending = none ∧ e = .duplicate ∧
        ∃ n, c = .create n ∧ (h.store.track t.track).retains n = true) := by
  cases c with
  | create n =>
      refine (Store.createGroup_eq_error_iff.mp (eq_error_of_failure? hrefused)).imp_right ?_
      rintro ⟨hopen, hretains, hduplicate⟩
      exact ⟨hopen, hduplicate, n, rfl, hretains⟩
  | append =>
      obtain ⟨x, happend, hx⟩ := Option.bind_eq_some_iff.mp hrefused
      obtain ⟨next, hnext, rfl⟩ := Option.map_eq_some_iff.mp happend
      refine (Store.createGroup_eq_error_iff.mp (eq_error_of_failure? hx)).imp_right ?_
      rintro ⟨-, hretains, -⟩
      exact absurd ((hw.not_retains_next hnext).symm.trans hretains) (by decide)
  | close =>
      have hfail : h.store.closeTrack t = .error e := eq_error_of_failure? hrefused
      left
      cases hending : (h.store.track t.track).ending with
      | none => cases (Store.closeTrack_of_open hending).symm.trans hfail
      | some ending =>
          rw [Store.closeTrack_of_ended hending] at hfail
          exact ⟨ending, rfl, Except.error.inj hfail⟩
  | abort e' => cases hrefused

end Windowed

-- ── the result ──────────────────────────────────────────────────────

namespace TrackHistory

/-- **What a track retains and answers is told by its history.** Whatever calls of its writers came before:

    The track retains the last 32 of the groups that were created on it, or all if there are fewer, under
    different numbers, and knows the largest number that was ever created. If it is open and all numbers so
    far are below the last one, it appends a group, under a number above all of them, which is zero for the
    first group. It refuses to create a group because the number is in use exactly if it is open and retains
    the number, or if it was aborted with this very error. And a call that is refused, which is for the end of
    the track or for such a number, changes nothing. -/
theorem window_follows_creation (s : Store) (info : TrackInfo) (calls : List TrackCall) :
    let t := (s.newTrack info).1
    let h := (start s info).run t calls
    let track := h.store.track t.track
    track.retained <:+ h.created ∧ track.retained.length = min 32 h.created.length ∧
    (track.retained.map GroupEntry.sequence).Nodup ∧
    track.largest = h.numbers.max? ∧
    (track.ending = none → (∀ n ∈ h.numbers, n + 1 < Track.sequenceLimit) →
      ∃ g s', h.store.appendGroup? t = some (.ok (g, s')) ∧ (∀ n ∈ h.numbers, n < g.sequence) ∧
        (h.created = [] → g.sequence = 0) ∧
        h.call t .append = ⟨s', h.created ++ [⟨g.group, g.sequence⟩]⟩) ∧
    (∀ n, h.store.createGroup t n = .error .duplicate ↔
      (track.ending = none ∧ track.retains n = true) ∨ track.ending = some (.aborted .duplicate)) ∧
    ∀ c e, h.refusal? t c = some e → h.call t c = h ∧
      ((∃ ending, track.ending = some ending ∧ ending.refusal = e) ∨
        (track.ending = none ∧ e = .duplicate ∧ ∃ n, c = .create n ∧ track.retains n = true)) := by
  intro t h track
  have hw : Windowed t h := (Windowed.start s info).run calls
  refine ⟨?_, hw.length_retained_eq, hw.distinct, hw.largest_eq, hw.append_of_open,
    fun n => Store.createGroup_eq_duplicate_iff, fun c e hrefused =>
      ⟨call_of_refused hrefused, hw.refusal?_cases hrefused⟩⟩
  show (h.store.track t.track).retained <:+ h.created
  rw [hw.retained_eq]
  exact Track.latest_suffix h.created

/-- One group under a large number, and then a window full of others. -/
def overtaken : List TrackCall := .create 40 :: (List.range 32).map .create

/-- The group with the largest number has left the window. Its number still counts, and is free again. -/
theorem window_follows_creation_overtaken :
    let t := (Store.empty.newTrack ⟨"video", 0⟩).1
    let h := (start .empty ⟨"video", 0⟩).run t overtaken
    let track := h.store.track t.track
    track.retained.length = 32 ∧ track.largest = some 40 ∧
      (∃ g s, h.store.appendGroup? t = some (.ok (g, s)) ∧ ∀ n ∈ h.numbers, n < g.sequence) ∧
      h.store.createGroup t 7 = .error .duplicate ∧ h.store.createGroup t 40 ≠ .error .duplicate ∧
      h.call t (.create 7) = h := by
  intro t h track
  have hlength : h.created.length = 33 := by decide +kernel
  have hmax : h.numbers.max? = some 40 := by decide +kernel
  have hbelow : ∀ n ∈ h.numbers, n + 1 < Track.sequenceLimit := by decide +kernel
  have hopen : track.ending = none := by decide +kernel
  have hseven : track.retains 7 = true := by decide +kernel
  have hforty : track.retains 40 = false := by decide +kernel
  obtain ⟨-, hretained, -, hlargest, happend, hcreate, hrefused⟩ :=
    window_follows_creation .empty ⟨"video", 0⟩ overtaken
  obtain ⟨g, s, hsome, habove, -, -⟩ := happend hopen hbelow
  have hduplicate := (hcreate 7).mpr (.inl ⟨hopen, hseven⟩)
  refine ⟨?_, hlargest.trans hmax, ⟨g, s, hsome, habove⟩, hduplicate, fun hagain => ?_, ?_⟩
  · rw [hretained, hlength]
    rfl
  · rcases (hcreate 40).mp hagain with ⟨-, hretains⟩ | hended
    · exact absurd (hforty.symm.trans hretains) (by decide)
    · cases hopen.symm.trans hended
  · refine (hrefused (.create 7) .duplicate ?_).1
    rw [refusal?, hduplicate, failure?]

/-- **A track that was aborted with the error of a number in use** gives it for every number, though it is not
    open and retains none. -/
theorem aborted_as_duplicate :
    let t := (Store.empty.newTrack ⟨"video", 0⟩).1
    let h := (start .empty ⟨"video", 0⟩).run t [.abort .duplicate]
    let track := h.store.track t.track
    h.store.createGroup t 0 = .error .duplicate ∧ ¬ (track.ending = none ∧ track.retains 0 = true) :=
  ⟨rfl, fun h => nomatch h.1⟩

end TrackHistory

end LiveMedia.Live
