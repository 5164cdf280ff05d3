import LiveMedia.Proofs.Playback.Watching
import LiveMedia.Proofs.Simulation.Contents
import LiveMedia.Proofs.Simulation.Ticking
import LiveMedia.Simulation.Video

/-!
# A line without delay

A feed gives finitely many frames, the first of them a keyframe (`Feed.Gives`), and nothing is delayed on the
way. Then the line does at each instant all that is to be done with the frame of that instant: the publisher
writes it (`Supplies.publishNext`), the forwarder takes it over (`Supplies.forward`), and the tasks of the
player report it (`Line.Going.settle`). So between two instants everything that was published is behind the
network and was found by the player (`Line.Going`), and one act keeps this (`Line.Going.goes`).

The last act also closes the track. The forwarder and the player are told at once, the player reads what it has
left, and the line is done (`Line.Going.finishes`). By induction over the acts a run plays all frames, and fails
nowhere (`Line.Going.runFrom`).
-/

namespace LiveMedia.Simulation

open LiveMedia.Wire LiveMedia.Time LiveMedia.Live LiveMedia.Playback LiveMedia.Transfer

/-- A feed that gives these frames. They can be published, and they can be written. -/
structure Feed.Gives (feed : Feed) (frames : List MediaFrame) : Prop where
  goesOn : ∀ tick, feed.goesOn tick = decide (tick < frames.length)
  frame : ∀ tick f, frames[tick]? = some f → feed.frame tick = .ok f
  first : ∀ f, frames[0]? = some f → f.keyframe = true
  few : frames.length ≤ Varint.compactMaximum
  stamp_le : ∀ f ∈ frames, f.timestamp.value ≤ Varint.maximum
  small : ∀ f ∈ frames, f.encoded.length ≤ Varint.compactMaximum

/-- All frames that are played, group after group. -/
def framesOfRuns (runs : List (List MediaFrame)) : List OrderedFrame :=
  (List.range runs.length).flatMap fun n =>
    ((runs[n]?.getD []).map MediaFrame.joined).map (OrderedFrame.mk n)

-- ── runs that become longer ─────────────────────────────────────────

/-- Runs of what was published go on as more is published. -/
theorem runsOf_take_prefix (frames : List MediaFrame) (i : Nat) {n : Nat} {run : List MediaFrame}
    (h : (runsOf (frames.take i))[n]? = some run) :
    ∃ run', (runsOf (frames.take (i + 1)))[n]? = some run' ∧ run <+: run' := by
  rw [List.take_add_one]
  cases frames[i]? with
  | none =>
      rw [Option.toList_none, List.append_nil]
      exact ⟨run, h, List.prefix_rfl⟩
  | some f => exact runsOf_prefix f h

theorem length_runsOf_le (fs : List MediaFrame) : (runsOf fs).length ≤ fs.length :=
  length_runsOf fs ▸ List.countP_le_length

-- ── reading ─────────────────────────────────────────────────────────

namespace Line

variable {l : Line} {s : Store} {made : List GroupEntry} {runs : List (List MediaFrame)} {budget : Span}
  {events : List Playback.Event} {played : List OrderedFrame} {t : TrackId}

/-- The player when its tasks have run. -/
def settled (l : Line) : Player := l.player.settle l.store l.holdings

theorem play_eq (h : l.ended = false) :
    l.play = playFrom (backlog l.settled + 1) { l with player := l.settled } :=
  if_neg (Bool.eq_false_iff.mp h)

/-- While the track goes on, reads play what they can and then have to wait. -/
theorem playFrom_open (fuel : Nat) (h : AttendsOpen t s made runs budget l.player events played)
    (hprog : Programme s made runs)
    (hbudget : ∀ run ∈ runs, ∀ f ∈ run, f.timestamp.value * 1000 ≤ budget.nanos) :
    ∃ frames player, playFrom fuel l = (frames, .ok { l with player }) ∧
      AttendsOpen t s made runs budget player events (played ++ frames) ∧
      player.started = l.player.started := by
  induction fuel generalizing l played with
  | zero => exact ⟨[], l.player, rfl, (List.append_nil played).symm ▸ h, rfl⟩
  | succ fuel ih =>
      have hstarted := (l.player.readFrame_keeps h.attends.intact.1).1
      have hread := h.readFrame hprog hbudget
      rw [playFrom]
      generalize l.player.readFrame = answer at hread hstarted
      obtain ⟨attempt, player⟩ := answer
      dsimp only at hread hstarted
      rcases hread with ⟨f, rfl, hnext⟩ | ⟨rfl, hnext⟩
      · obtain ⟨frames, last, hplay, hlast, hsame⟩ := ih (l := { l with player }) hnext
        refine ⟨f :: frames, last, ?_, List.append_cons played f frames ▸ hlast, hsame.trans hstarted⟩
        dsimp only
        rw [hplay]
      · exact ⟨[], player, rfl, (List.append_nil played).symm ▸ hnext, hstarted⟩

/-- When everything was reported, reads play all that is left, and the player comes to the end. -/
theorem playFrom_ended (fuel : Nat) (h : AttendsEnded s made runs budget l.player events played)
    (hprog : Programme s made runs)
    (hbudget : ∀ run ∈ runs, ∀ f ∈ run, f.timestamp.value * 1000 ≤ budget.nanos)
    (hfuel : backlog l.player < fuel) :
    ∃ frames player, playFrom fuel l = (frames, .ok { l with player, ended := true }) ∧
      played ++ frames = framesOfRuns runs := by
  induction fuel generalizing l played with
  | zero => exact absurd hfuel (Nat.not_lt_zero _)
  | succ fuel ih =>
      have hread := h.readFrame hprog hbudget
      rw [playFrom]
      generalize l.player.readFrame = answer at hread
      obtain ⟨attempt, player⟩ := answer
      dsimp only at hread
      rcases hread with ⟨f, rfl, hnext, hless⟩ | ⟨rfl, hall⟩
      · have hfuel' : backlog player < fuel := Nat.lt_of_lt_of_le hless (Nat.le_of_lt_succ hfuel)
        obtain ⟨frames, last, hplay, hlast⟩ := ih (l := { l with player }) hnext hfuel'
        refine ⟨f :: frames, last, ?_, (List.append_cons played f frames).trans hlast⟩
        dsimp only
        rw [hplay]
      · refine ⟨[], player, rfl, ?_⟩
        rw [List.append_nil, hall]
        exact h.inOrder_eq hprog

end Line

-- ── publishing ──────────────────────────────────────────────────────

theorem Feed.Gives.length_runs_le {feed : Feed} {frames : List MediaFrame} (h : feed.Gives frames)
    (i : Nat) : (runsOf (frames.take i)).length ≤ Varint.compactMaximum :=
  calc (runsOf (frames.take i)).length ≤ (frames.take i).length := length_runsOf_le _
    _ ≤ frames.length := (List.take_sublist i frames).length_le
    _ ≤ Varint.compactMaximum := h.few

/-- The first frame of all is a keyframe, so there is a run as soon as there is a frame. -/
theorem Feed.Gives.runs_ne_nil {feed : Feed} {frames : List MediaFrame} (h : feed.Gives frames) {i : Nat}
    (hi : i < frames.length) : runsOf (frames.take (i + 1)) ≠ [] := by
  intro hnone
  have hfirst : frames[0]? = some frames[0] := List.getElem?_eq_getElem (Nat.zero_lt_of_lt hi)
  have hmem : frames[0] ∈ frames.take (i + 1) := by
    refine List.mem_of_getElem? (i := 0) ?_
    rw [List.getElem?_take_of_lt (Nat.succ_pos i)]
    exact hfirst
  cases (h.first _ hfirst).symm.trans (runsOf_eq_nil_iff.mp hnone _ hmem)

/-- The publisher of a line has written frames, and at most one of its groups is not behind the network. -/
structure Supplies (fs : List MediaFrame) (now : Span) (l : Line) (f : Forwarding) (p : Publisher) : Prop where
  publisher : l.publisher = some p
  store : f.store = l.store
  forwarder : f.forwarder = l.forwarder
  source : f.source = p.track.track
  publishes : p.Publishes p.track fs f.store f.announced
  inStep : f.InStep now
  near : f.announced.length ≤ f.made.length + 1

/-- What the publisher leaves as it is while it goes on. -/
structure Onward (l : Line) (f : Forwarding) (l' : Line) (f' : Forwarding) : Prop where
  player : l'.player = l.player
  ended : l'.ended = l.ended
  forwarder : f'.forwarder = f.forwarder
  made : f'.made = f.made
  grows : f.store.Grows f'.store

namespace Supplies

variable {feed : Feed} {frames fs : List MediaFrame} {now now' : Span} {l : Line} {f : Forwarding}
  {p : Publisher} {delay : Nat → Span}

theorem length_announced (h : Supplies fs now l f p) : f.announced.length = (runsOf fs).length :=
  h.publishes.holds.length_eq

/-- The track that is published is open and counts its groups. -/
theorem track_open (h : Supplies fs now l f p) : (f.store.track f.source).ending = none :=
  h.source ▸ h.publishes.numbered.ending

/-- A frame that there is is written, into the group of the last one or into one more. -/
theorem write (hfeed : feed.Gives frames) (h : Supplies (frames.take l.ticks) now l f p)
    (hall : f.made.length = f.announced.length) {x : MediaFrame} (hx : frames[l.ticks]? = some x) :
    ∃ s' more p', p.write? f.store x = some (.ok (), p', s') ∧ f.store.Grows s' ∧
      Supplies (frames.take (l.ticks + 1)) now
        { l with store := s', publisher := some p', ticks := l.ticks + 1 }
        { f with store := s', announced := f.announced ++ more } p' := by
  have hlt : l.ticks < frames.length := (List.getElem?_eq_some_iff.mp hx).1
  have hnext : frames.take (l.ticks + 1) = frames.take l.ticks ++ [x] := by
    rw [List.take_add_one, hx]
    rfl
  have hcount : (runsOf (frames.take l.ticks ++ [x])).length ≤ Varint.compactMaximum :=
    hnext ▸ hfeed.length_runs_le (l.ticks + 1)
  have hwrote := h.publishes.write x
  generalize hwrite : p.write? f.store x = outcome at hwrote
  cases hwrote with
  | full hfull =>
      have hlimit : Varint.compactMaximum < Track.sequenceLimit := by decide
      omega
  | refused hnone _ => exact absurd hnone (hnext ▸ hfeed.runs_ne_nil hlt)
  | @written s' more p' _ hmore hgrows hpublishes =>
      have htrack : p'.track = p.track := hpublishes.track_eq
      have hbeside := h.publishes.write_beside h.inStep.parted.symm hwrite hpublishes
      rw [← h.source] at hbeside
      have hnumbered := hpublishes.numbered
      rw [← h.source] at hnumbered
      have hcounts : (s'.track f.source).Counts (f.announced ++ more) :=
        ⟨hnumbered.sequences, hnumbered.retained⟩
      have hlength : (f.announced ++ more).length ≤ Varint.compactMaximum :=
        hpublishes.holds.length_eq ▸ hcount
      have hstep := h.inStep.publish hbeside hcounts
        (fun err haborted => nomatch hnumbered.ending.symm.trans haborted)
        (Nat.le_trans hmore (by decide)) fun e he =>
          Nat.le_of_lt (Nat.lt_of_lt_of_le (hcounts.sequence_lt (List.mem_append_right _ he)) hlength)
      refine ⟨s', more, p', rfl, hgrows, rfl, rfl, h.forwarder, htrack ▸ h.source, ?_, hstep, ?_⟩
      · rw [htrack, hnext]
        exact hpublishes
      · show (f.announced ++ more).length ≤ f.made.length + 1
        rw [List.length_append, hall]
        omega

/-- **The next frame is published**, if there is one. -/
theorem publishNext (hfeed : feed.Gives frames) (h : Supplies (frames.take l.ticks) now l f p)
    (hall : f.made.length = f.announced.length) (hticks : l.ticks ≤ frames.length) :
    ∃ l' f' p', l.publishNext feed = .ok l' ∧ Supplies (frames.take (l.ticks + 1)) now l' f' p' ∧
      Onward l f l' f' ∧ l'.ticks = min (l.ticks + 1) frames.length := by
  rcases Nat.eq_or_lt_of_le hticks with hend | hlt
  · have hgoes : feed.goesOn l.ticks = false := by
      rw [hfeed.goesOn, hend]
      exact decide_eq_false (Nat.lt_irrefl _)
    have hsame : frames.take (l.ticks + 1) = frames.take l.ticks := by
      rw [List.take_of_length_le (Nat.le_of_eq hend.symm), List.take_of_length_le (by omega)]
    refine ⟨l, f, p, ?_, hsame ▸ h, ⟨rfl, rfl, rfl, rfl, .refl _⟩, by omega⟩
    rw [Line.publishNext, h.publisher, hgoes]
  · have hgoes : feed.goesOn l.ticks = true := by
      rw [hfeed.goesOn]
      exact decide_eq_true hlt
    have hx : frames[l.ticks]? = some frames[l.ticks] := List.getElem?_eq_getElem hlt
    obtain ⟨s', more, p', hwrite, hgrows, hsupplies⟩ := h.write hfeed hall hx
    refine ⟨_, _, p', ?_, hsupplies, ⟨rfl, rfl, rfl, rfl, hgrows⟩,
      (Nat.min_eq_left hlt).symm⟩
    simp only [Line.publishNext, h.publisher, hgoes, hfeed.frame _ _ hx, ← h.store, hwrite]

/-- **What was published is behind the network at once.** -/
theorem forward (h : Supplies fs now l f p) (hnow : now ≤ now')
    (hdelay : ∀ n < (runsOf fs).length, delay n = .zero) :
    ∃ f', l.forward delay now' = .ok { l with store := f'.store, forwarder := f'.forwarder } ∧
      f.Goes now' f' ∧
      Supplies fs now' { l with store := f'.store, forwarder := f'.forwarder } f' p := by
  have htrack : .trackWriter f.source ∈ l.otherHoldings := by
    refine List.mem_append_left _ ?_
    rw [Line.publisherHoldings, h.publisher, h.source]
    exact List.mem_cons_self
  have hgroup : ∀ e ∈ f.announced, (f.store.group e.group).ending = none →
      .groupWriter e.group ∈ l.otherHoldings := by
    intro e he hopen
    obtain ⟨g, hg, hsame⟩ := h.publishes.current_of_open he hopen
    refine List.mem_append_left _ ?_
    rw [Line.publisherHoldings, h.publisher, ← hsame]
    simp [hg]
  have hdue : ∀ n < f.announced.length, now' + delay n ≤ now' := by
    intro n hn
    rw [hdelay n (h.length_announced ▸ hn)]
    exact Nat.le_refl now'.nanos
  obtain ⟨f', hforward, hgoes⟩ := h.inStep.forward hnow h.near (fun _ => htrack) hgroup hdue
  refine ⟨f', ?_, hgoes, h.publisher, rfl, rfl, hgoes.source.trans h.source, ?_, hgoes.inStep h.track_open, ?_⟩
  · rw [Line.forward_eq, ← h.store, ← h.forwarder, hforward]
    rfl
  · rw [hgoes.announced]
    exact h.publishes.spared hgoes.beside (h.source ▸ h.inStep.steady.apart)
  · rw [hgoes.announced, hgoes.length_made]
    exact Nat.le_succ _

end Supplies

-- ── behind the network ──────────────────────────────────────────────

/-- What was published is what the groups behind the network will hold. -/
theorem Feed.Gives.programme {feed : Feed} {frames : List MediaFrame} (h : feed.Gives frames) (i : Nat)
    {s : Store} {made : List GroupEntry} (hsequences : made.map GroupEntry.sequence = List.range made.length)
    (hpromised : Promised s made (runsOf (frames.take i))) :
    Programme s made (runsOf (frames.take i)) := by
  obtain ⟨fin, hgrows, hcomplete⟩ := hpromised
  refine ⟨hsequences, ?_, hcomplete.imp fun _ _ hc => ⟨fin, hgrows, hc⟩, fun run hrun => ?_⟩
  · rw [hcomplete.length_eq]
    exact Nat.le_trans (h.length_runs_le i) (by decide)
  · exact readable_of_mem_runsOf (fun f hf => h.stamp_le f (List.mem_of_mem_take hf)) hrun

/-- Everything that is behind the network is being written, or complete. -/
theorem Forwarding.Steady.tended {f : Forwarding} (h : f.Steady) {runs : List (List MediaFrame)}
    (hprog : Programme f.store f.made runs) {held : Holdings} (hheld : f.forwarder.holdings ⊆ held) :
    Tended f.store held f.made := by
  intro e he
  rcases h.written he with hwriter | hcomplete | ⟨err, haborted, -⟩
  · exact .inl (hheld hwriter)
  · exact .inr hcomplete
  · obtain ⟨n, hn, rfl⟩ := List.mem_iff_getElem.mp he
    have hforetold := hprog.foretold.get hn (hprog.foretold.length_eq ▸ hn)
    exact absurd haborted (hforetold.alive err)

-- ── between two instants ────────────────────────────────────────────

namespace Line

/-- Everything that was published is behind the network, and the player has found it and reported what it
    could read. -/
structure Going (frames : List MediaFrame) (budget now : Span) (l : Line) (played : List OrderedFrame)
    (f : Forwarding) (p : Publisher) (events : List Playback.Event) : Prop where
  supplies : Supplies (frames.take l.ticks) now l f p
  ticks_le : l.ticks ≤ frames.length
  all : f.made.length = f.announced.length
  ended : l.ended = false
  attends : AttendsOpen f.destination.track f.store f.made (runsOf (frames.take l.ticks)) budget l.player
    events played
  started : l.player.started = f.made.length

/-- The forwarder has gone on, and the player has not been asked yet. -/
structure Awaits (f : Forwarding) (i : Nat) (frames : List MediaFrame) (f' : Forwarding) : Prop where
  steady : f'.Steady
  destination : f'.destination = f.destination
  grows : f.store.Grows f'.store
  prefix_made : f.made <+: f'.made
  near : f'.made.length ≤ f.made.length + 1
  programme : Programme f'.store f'.made (runsOf (frames.take (i + 1)))

theorem Awaits.of_goes {f f₁ f₂ : Forwarding} {now : Span} {i : Nat} {frames : List MediaFrame}
    (hgoes : f₁.Goes now f₂) (hforwarder : f₁.forwarder = f.forwarder) (hmade : f₁.made = f.made)
    (hgrows : f.store.Grows f₁.store) (hnear : f₁.announced.length ≤ f₁.made.length + 1)
    (hprog : Programme f₂.store f₂.made (runsOf (frames.take (i + 1)))) : Awaits f i frames f₂ where
  steady := hgoes.steady
  destination := hgoes.destination.trans (congrArg Forwarder.destination hforwarder)
  grows := hgrows.trans hgoes.beside.grows
  prefix_made := hmade ▸ hgoes.prefix_made
  near := by
    rw [hgoes.length_made, ← hmade]
    exact hnear
  programme := hprog

namespace Going

variable {feed : Feed} {delay : Nat → Span} {frames : List MediaFrame} {budget now now' : Span}
  {l : Line} {played : List OrderedFrame} {f f' : Forwarding} {p : Publisher}
  {events : List Playback.Event}

/-- **The tasks of the player report what has come.** -/
theorem settle (h : Going frames budget now l played f p events) (hawaits : Awaits f l.ticks frames f')
    (l' : Line) (hplayer : l'.player = l.player) (hstore : f'.store = l'.store)
    (hforwarder : f'.forwarder = l'.forwarder) : ∃ events', l'.settled.started = f'.made.length ∧
      (f'.forwarder.closed = false → AttendsOpen f'.destination.track f'.store f'.made
        (runsOf (frames.take (l.ticks + 1))) budget l'.settled events' played) ∧
      (f'.forwarder.closed = true → (∀ e ∈ f'.made, ∃ payloads, f'.store.Complete e.group payloads) →
        AttendsEnded f'.store f'.made (runsOf (frames.take (l.ticks + 1))) budget l'.settled events'
          played) := by
  have hheld : f'.forwarder.holdings ⊆ l'.holdings := hforwarder ▸ List.subset_append_right _ _
  have hprog := hawaits.programme
  have htended := hawaits.steady.tended hprog hheld
  have hbehind := hawaits.steady.behind
  have hcounts' : (f'.store.track f'.destination.track).Counts f'.made :=
    ⟨hprog.sequences, hbehind.retained⟩
  have hcounts : (f.store.track f.destination.track).Counts f.made :=
    ⟨h.supplies.inStep.made, h.supplies.inStep.steady.behind.retained⟩
  have hlength : f.made.length = (runsOf (frames.take l.ticks)).length :=
    h.all.trans h.supplies.length_announced
  have hwindow : f'.made.length ≤ l.player.started + Track.window := by
    rw [h.started]
    exact Nat.le_trans hawaits.near (Nat.add_le_add_left (by decide) _)
  have hwritten : (f'.store.track f'.destination.track).ending = none →
      .trackWriter f'.destination.track ∈ l'.holdings := by
    intro hopen
    have hclosed : f'.forwarder.closed = false := by
      rw [hbehind.ending] at hopen
      cases hclosed : f'.forwarder.closed with
      | false => rfl
      | true =>
          rw [hclosed, if_pos rfl] at hopen
          cases hopen
    refine hheld (List.mem_append_left _ (List.mem_append_right _ ?_))
    rw [hclosed]
    exact List.mem_cons_self
  have hattends : AttendsOpen f'.destination.track f'.store f'.made (runsOf (frames.take (l.ticks + 1)))
      budget l.player events played := by
    obtain ⟨more, hmore⟩ := hawaits.prefix_made
    rw [← hmore] at hprog hcounts' ⊢
    rw [hawaits.destination] at hcounts' ⊢
    exact h.attends.later hawaits.grows hprog hcounts hcounts' hlength fun _ _ hrun =>
      runsOf_take_prefix frames l.ticks hrun
  have hending := hbehind.ending
  have halive : ∀ err, (f'.store.track f'.destination.track).ending ≠ some (.aborted err) := by
    intro err haborted
    rw [hending] at haborted
    split at haborted <;> cases haborted
  obtain ⟨events', hstarted, hopen, hended⟩ :=
    hattends.settle hprog htended hcounts' halive hwritten hwindow
  have hsettled : l.player.settle f'.store l'.holdings = l'.settled := by
    rw [settled, hplayer, hstore]
  rw [hsettled] at hstarted hopen hended
  refine ⟨events', hstarted, fun hclosed => hopen ?_, fun hclosed => hended ?_⟩
  · rw [hending, hclosed]
    rfl
  · rw [hending, hclosed]
    exact nofun

/-- The delays that matter are those of the groups that are published. -/
theorem no_delay (hdelay : ∀ n < (runsOf frames).length, delay n = .zero) (i : Nat) :
    ∀ n < (runsOf (frames.take i)).length, delay n = .zero := by
  intro n hn
  have hle := length_runsOf_le_append (frames.take i) (frames.drop i)
  rw [List.take_append_drop] at hle
  exact hdelay n (Nat.lt_of_lt_of_le hn hle)

theorem mem_of_mem_runsOf_take {i : Nat} {run : List MediaFrame} {x : MediaFrame}
    (hrun : run ∈ runsOf (frames.take i)) (hx : x ∈ run) : x ∈ frames :=
  List.mem_of_mem_take (mem_of_mem_runsOf hrun hx)

/-- **An act before the last** publishes a frame, and all that was published is found. -/
theorem goes (hfeed : feed.Gives frames) (hbudget : ∀ x ∈ frames, x.timestamp.value * 1000 ≤ budget.nanos)
    (hdelay : ∀ n < (runsOf frames).length, delay n = .zero)
    (h : Going frames budget now l played f p events) (hnow : now ≤ feed.instant l.ticks)
    (hmore : l.ticks + 1 < frames.length) :
    ∃ out l' f' p' events', l.act feed delay (feed.instant l.ticks) = (out, .ok l') ∧
      l'.ticks = l.ticks + 1 ∧
      Going frames budget (feed.instant l.ticks) l' (played ++ out) f' p' events' := by
  obtain ⟨l₁, f₁, p₁, hnext, hsupplies₁, honward, hticks⟩ :=
    h.supplies.publishNext hfeed h.all h.ticks_le
  rw [Nat.min_eq_left (Nat.le_of_lt hmore)] at hticks
  have hpublish : l.publish feed (feed.instant l.ticks) = .ok l₁ := by
    refine publish_eq_ok.mpr ⟨l₁, (if_pos (Nat.le_refl _)).trans hnext, ?_⟩
    rw [endPublishing, hsupplies₁.publisher, hfeed.goesOn, hticks, decide_eq_true hmore]
  obtain ⟨f₂, hforward, hgoes, hsupplies₂⟩ := hsupplies₁.forward hnow (no_delay hdelay _)
  have hall₂ : f₂.made.length = f₂.announced.length := hgoes.length_made.trans (congrArg _ hgoes.announced.symm)
  have hpromised := hsupplies₂.inStep.promised hall₂ hsupplies₂.publishes hsupplies₂.source
    fun x hx => hfeed.small x (List.mem_of_mem_take hx)
  have hawaits : Awaits f l.ticks frames f₂ := .of_goes hgoes honward.forwarder honward.made honward.grows
    hsupplies₁.near (hfeed.programme _ hsupplies₂.inStep.made hpromised)
  have hclosed : f₂.forwarder.closed = false := by
    obtain ⟨c, hc, -⟩ := hsupplies₂.inStep.cursor
    refine Bool.eq_false_iff.mpr fun hclosed => ?_
    exact nomatch hc.symm.trans (hgoes.steady.idle hclosed).1
  let l₂ : Line := { l₁ with store := f₂.store, forwarder := f₂.forwarder }
  obtain ⟨events', hstarted, hopen, -⟩ := h.settle hawaits l₂ honward.player rfl rfl
  obtain ⟨out, player, hplay, hattends, hsame⟩ := playFrom_open (l := { l₂ with player := l₂.settled })
    (backlog l₂.settled + 1) (hopen hclosed) hawaits.programme
    fun run hrun x hx => hbudget x (mem_of_mem_runsOf_take hrun hx)
  refine ⟨out, { l₂ with player }, f₂, p₁, events', act_eq_ok.mpr ⟨l₁, l₂, hpublish, hforward, ?_⟩, hticks, ?_⟩
  · exact (play_eq (l := l₂) (honward.ended.trans h.ended)).trans hplay
  · have hticks' : ({ l₂ with player } : Line).ticks = l.ticks + 1 := hticks
    refine ⟨?_, ?_, hall₂, honward.ended.trans h.ended, ?_, hsame.trans hstarted⟩
    · rw [hticks']
      exact ⟨hsupplies₂.publisher, hsupplies₂.store, hsupplies₂.forwarder, hsupplies₂.source,
        hsupplies₂.publishes, hsupplies₂.inStep, hsupplies₂.near⟩
    · rw [hticks']
      exact Nat.le_of_lt hmore
    · rw [hticks']
      exact hattends

/-- **The last act** publishes the last frame, if there is one, and closes the track. The line is done, and all
    frames were played. -/
theorem finishes (hfeed : feed.Gives frames)
    (hbudget : ∀ x ∈ frames, x.timestamp.value * 1000 ≤ budget.nanos)
    (hdelay : ∀ n < (runsOf frames).length, delay n = .zero)
    (h : Going frames budget now l played f p events) (hnow : now ≤ feed.instant l.ticks)
    (hlast : frames.length ≤ l.ticks + 1) :
    ∃ out l', l.act feed delay (feed.instant l.ticks) = (out, .ok l') ∧ l'.isDone = true ∧
      played ++ out = framesOfRuns (runsOf frames) := by
  obtain ⟨l₁, f₁, p₁, hnext, hsupplies₁, honward, hticks⟩ :=
    h.supplies.publishNext hfeed h.all h.ticks_le
  rw [Nat.min_eq_right hlast] at hticks
  obtain ⟨s, hclose, hgrows, hinStep, hending, hcomplete, hsized⟩ :=
    hsupplies₁.inStep.close hsupplies₁.publishes hsupplies₁.source
  let l₂ : Line := { l₁ with store := s, publisher := none }
  have hpublish : l.publish feed (feed.instant l.ticks) = .ok l₂ := by
    refine publish_eq_ok.mpr ⟨l₁, (if_pos (Nat.le_refl _)).trans hnext, ?_⟩
    have hends : feed.goesOn l₁.ticks = false := by
      rw [hfeed.goesOn, hticks]
      exact decide_eq_false (Nat.lt_irrefl _)
    rw [endPublishing, hsupplies₁.publisher, hends]
    dsimp only
    rw [← hsupplies₁.store, hclose]
  have hdue : ∀ n < f₁.announced.length, feed.instant l.ticks + delay n ≤ feed.instant l.ticks := by
    intro n hn
    rw [no_delay hdelay _ n (hsupplies₁.length_announced ▸ hn)]
    exact Nat.le_refl (feed.instant l.ticks).nanos
  obtain ⟨f₂, hforward, hgoes, hclosed, hthere⟩ := hinStep.arrive l₂.otherHoldings
    (fun n => feed.instant l.ticks + delay n) hnow hsupplies₁.near hdue
    (fun hopen => nomatch hending.symm.trans hopen) hcomplete hsized
    fun run hrun x hx => hfeed.small x (mem_of_mem_runsOf_take hrun hx)
  let l₃ : Line := { l₂ with store := f₂.store, forwarder := f₂.forwarder }
  have hforwards : l₂.forward delay (feed.instant l.ticks) = .ok l₃ := by
    rw [Line.forward_eq, show l₂.forwarder = f₁.forwarder from hsupplies₁.forwarder.symm, hforward]
    rfl
  have hawaits : Awaits f l.ticks frames f₂ := .of_goes hgoes honward.forwarder honward.made
    (honward.grows.trans hgrows) hsupplies₁.near
    (hfeed.programme _ (hgoes.length_made.symm ▸ hgoes.made) ⟨f₂.store, .refl _, hthere⟩)
  obtain ⟨events', -, -, hended⟩ := h.settle hawaits l₃ honward.player rfl rfl
  have hattends := hended hclosed fun e he => by
    obtain ⟨n, hn, rfl⟩ := List.mem_iff_getElem.mp he
    exact ⟨_, hthere.get hn (hthere.length_eq ▸ hn)⟩
  obtain ⟨out, player, hplay, hall⟩ := playFrom_ended (l := { l₃ with player := l₃.settled })
    (backlog l₃.settled + 1) hattends hawaits.programme
    (fun run hrun x hx => hbudget x (mem_of_mem_runsOf_take hrun hx)) (Nat.lt_succ_self _)
  rw [List.take_of_length_le hlast] at hall
  refine ⟨out, { l₃ with player, ended := true }, act_eq_ok.mpr ⟨l₂, l₃, hpublish, hforwards, ?_⟩, ?_, hall⟩
  · exact (play_eq (l := l₃) (honward.ended.trans h.ended)).trans hplay
  · show (true && f₂.forwarder.closed && true) = true
    rw [hclosed]
    rfl

-- ── a whole run ─────────────────────────────────────────────────────

/-- A line on which nothing has happened. -/
theorem start (frames : List MediaFrame) (name : String) (budget : Span) :
    ∃ f p, Going frames budget .zero (.start name budget) [] f p [] := by
  let l : Line := .start name budget
  let t : TrackWriter := (Store.empty.newTrack ⟨name, 0⟩).1
  have hgroup : ∀ g, (l.store.group g).frames = [] := fun g => rfl
  have hready : Forwarding.Ready l.store t.cursor l.forwarder.destination := by
    refine ⟨rfl, Nat.one_lt_two, Nat.zero_ne_one, fun e he => ?_, .nil, fun e he => ?_, fun g w hw => ?_⟩
    · cases he
    · exact absurd he List.not_mem_nil
    · exact absurd hw (hgroup g ▸ List.not_mem_nil)
  have hsteady := Forwarding.Sound.start hready
  have hinStep : (Forwarding.start l.store t.cursor l.forwarder.destination).InStep .zero := by
    refine ⟨hsteady, ⟨rfl, rfl⟩, rfl, Nat.le_refl _, rfl, ⟨t.cursor, rfl, .start rfl⟩,
      ⟨hsteady.behind.owned, fun g hg => ?_⟩, fun due hdue => ?_⟩
    · exact absurd hg List.not_mem_nil
    · exact absurd hdue List.not_mem_nil
  have hrests : Rests t l.store [] [] :=
    ⟨Nat.zero_lt_two, ⟨rfl, rfl, rfl, rfl, Nat.zero_le _⟩, .nil⟩
  exact ⟨.start l.store t.cursor l.forwarder.destination, .start t,
    ⟨rfl, rfl, rfl, rfl, .waiting rfl hrests, hinStep, Nat.zero_le _⟩, Nat.zero_le _, rfl, rfl,
    .start l.forwarder.destination.cursor rfl l.store budget, rfl⟩

/-- Nothing is due later but the next tick. -/
theorem earliest_upcoming (h : Going frames budget now l played f p events)
    (hlater : now < feed.instant l.ticks) :
    earliest (l.upcoming feed now) = some (feed.instant l.ticks) := by
  have hdues : l.forwarder.dues.filter (now < ·) = [] := by
    refine List.filter_eq_nil_iff.mpr fun due hdue => ?_
    rw [← h.supplies.forwarder] at hdue
    rw [decide_eq_true_iff]
    exact Nat.not_lt.mpr (h.supplies.inStep.dues due hdue)
  have hupcoming : l.upcoming feed now = [feed.instant l.ticks] := by
    rw [upcoming, h.supplies.publisher, List.filter_append, hdues, List.append_nil]
    exact List.filter_cons_of_pos (decide_eq_true hlater)
  rw [hupcoming]
  rfl

/-- **A run plays everything**, and nothing fails on the way. -/
theorem runFrom (hfeed : feed.Gives frames)
    (hbudget : ∀ x ∈ frames, x.timestamp.value * 1000 ≤ budget.nanos)
    (hdelay : ∀ n < (runsOf frames).length, delay n = .zero) (hperiod : 0 < feed.period.nanos) (fuel : Nat)
    (h : Going frames budget now l played f p events) (hnow : now ≤ feed.instant l.ticks)
    (hleft : frames.length ≤ l.ticks + fuel) (hfuel : 0 < fuel) :
    ∃ more, Video.runFrom feed delay fuel (feed.instant l.ticks) l = (more, none) ∧
      played ++ more.map Played.frame = framesOfRuns (runsOf frames) := by
  have hframes : ∀ (now : Span) (out : List OrderedFrame),
      (out.map fun frame => (⟨frame, now⟩ : Played)).map Played.frame = out := by
    intro now out
    rw [List.map_map]
    exact List.map_id out
  induction fuel generalizing now l played f p events with
  | zero => exact absurd hfuel (Nat.lt_irrefl 0)
  | succ fuel ih =>
      rw [Video.runFrom]
      by_cases hmore : l.ticks + 1 < frames.length
      · obtain ⟨out, l', f', p', events', hact, hticks, hgoing⟩ :=
          h.goes hfeed hbudget hdelay hnow hmore
        have hlater : feed.instant l.ticks < feed.instant l'.ticks := by
          rw [hticks]
          exact Nat.mul_lt_mul_of_pos_right (Nat.lt_succ_self _) hperiod
        have hdone : l'.isDone = false := by
          rw [isDone, hgoing.supplies.publisher]
          rfl
        obtain ⟨more, hrun, hall⟩ := ih hgoing (Nat.le_of_lt hlater) (by omega) (by omega)
        refine ⟨out.map (⟨·, feed.instant l.ticks⟩) ++ more, ?_, ?_⟩
        · rw [hact]
          dsimp only
          rw [hdone, hgoing.earliest_upcoming hlater]
          dsimp only
          rw [hrun]
          rfl
        · rw [List.map_append, hframes, ← List.append_assoc]
          exact hall
      · obtain ⟨out, l', hact, hdone, hall⟩ := h.finishes hfeed hbudget hdelay hnow (Nat.le_of_not_lt hmore)
        refine ⟨out.map (⟨·, feed.instant l.ticks⟩), ?_, ?_⟩
        · rw [hact]
          dsimp only
          rw [hdone]
          rfl
        · rw [hframes]
          exact hall

end Going

end Line

end LiveMedia.Simulation
