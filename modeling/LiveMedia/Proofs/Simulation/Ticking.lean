import LiveMedia.Simulation.Audio

/-!
# How long a publisher goes on

The publisher of a line publishes one frame at each act that is on time, until its feed has nothing more,
and then closes its track: nothing else moves its count, and nothing else lets go of it (`Line.Ticked`).
So over any run of acts (`Line.Acts`) it is done exactly when the feed came to an end by then.

A tone counts the samples that it has published, and adds the samples of a frame at each tick. The samples
of a frame are a product that is rounded to the nearest whole number, so a frame that is there can have
none. Then the count stands still, and publishing goes on for ever; else it ends, after
`Tone.frameCount?` frames.
-/

namespace LiveMedia.Simulation

open LiveMedia.Time LiveMedia.Audio LiveMedia.Playback

theorem bind_eq_ok {ε α β : Type} {x : Except ε α} {f : α → Except ε β} {b : β} :
    x >>= f = .ok b ↔ ∃ a, x = .ok a ∧ f a = .ok b := by
  cases x with
  | error e => exact ⟨nofun, fun ⟨_, ha, _⟩ => nomatch ha⟩
  | ok a => exact ⟨fun h => ⟨a, rfl, h⟩, fun ⟨_, ha, h⟩ => Except.ok.inj ha ▸ h⟩

/-- The count behind an act at an instant. -/
def Feed.after (feed : Feed) (now : Span) (tick : Nat) : Nat :=
  if feed.instant tick ≤ now ∧ feed.goesOn tick then tick + 1 else tick

namespace Line

variable {feed : Feed} {delay : Nat → Span} {now : Span} {l l' : Line}

-- ── what leaves the publisher alone ─────────────────────────────────

/-- Forwarding neither publishes nor ends the publishing. -/
theorem forward_publisher (h : l.forward delay now = .ok l') :
    l'.publisher = l.publisher ∧ l'.ticks = l.ticks := by
  obtain ⟨f, -, h⟩ := bind_eq_ok.mp h
  obtain ⟨⟨f, store⟩, -, h⟩ := bind_eq_ok.mp h
  obtain rfl := Except.ok.inj h
  exact ⟨rfl, rfl⟩

theorem playFrom_publisher {frames : List OrderedFrame} (fuel : Nat)
    (h : playFrom fuel l = (frames, .ok l')) :
    l'.publisher = l.publisher ∧ l'.ticks = l.ticks := by
  induction fuel generalizing l frames with
  | zero =>
      obtain rfl := Except.ok.inj (Prod.mk.inj h).2
      exact ⟨rfl, rfl⟩
  | succ fuel ih =>
      rw [playFrom] at h
      split at h
      next f player _ => exact ih (l := { l with player }) (Prod.ext rfl (Prod.mk.inj h).2)
      next player _ =>
        obtain rfl := Except.ok.inj (Prod.mk.inj h).2
        exact ⟨rfl, rfl⟩
      next player _ =>
        obtain rfl := Except.ok.inj (Prod.mk.inj h).2
        exact ⟨rfl, rfl⟩
      next => cases (Prod.mk.inj h).2

/-- Neither does playing. -/
theorem play_publisher {frames : List OrderedFrame} (h : l.play = (frames, .ok l')) :
    l'.publisher = l.publisher ∧ l'.ticks = l.ticks := by
  unfold play at h
  split at h
  · obtain rfl := Except.ok.inj (Prod.mk.inj h).2
    exact ⟨rfl, rfl⟩
  · exact playFrom_publisher (l := { l with player := l.player.settle l.store l.holdings }) _ h

-- ── one act ─────────────────────────────────────────────────────────

/-- What an act does with the publisher: one that is there publishes the frame that is due, and is let go
    of when its feed has nothing more. -/
structure Ticked (feed : Feed) (now : Span) (l l' : Line) : Prop where
  gone : l.publisher = none → l'.publisher = none ∧ l'.ticks = l.ticks
  there : l.publisher ≠ none → l'.ticks = feed.after now l.ticks ∧
    (l'.publisher = none ↔ feed.goesOn l'.ticks = false)

/-- A publisher that is there publishes one frame if the feed goes on, and it is there afterwards. -/
theorem publishNext_publisher (h : l.publishNext feed = .ok l') :
    (l'.publisher = none ↔ l.publisher = none) ∧
      l'.ticks = if l.publisher ≠ none ∧ feed.goesOn l.ticks then l.ticks + 1 else l.ticks := by
  unfold publishNext at h
  split at h
  next p hp hgoes =>
    split at h
    next f _ =>
      split at h
      next p' store _ =>
        obtain rfl := Except.ok.inj h
        simp [hp, hgoes]
      next => cases h
      next => cases h
    next => cases h
  next hother =>
    obtain rfl := Except.ok.inj h
    refine ⟨Iff.rfl, (if_neg fun ⟨hpublisher, hgoes⟩ => ?_).symm⟩
    obtain ⟨p, hp⟩ := Option.ne_none_iff_exists'.mp hpublisher
    exact hother p hp hgoes

/-- The publisher goes away as soon as the feed does not go on. -/
theorem endPublishing_publisher (h : l.endPublishing feed = .ok l') :
    (l'.publisher = none ↔ l.publisher = none ∨ feed.goesOn l.ticks = false) ∧
      l'.ticks = l.ticks := by
  unfold endPublishing at h
  split at h
  next p hp hends =>
    split at h
    next => 
      obtain rfl := Except.ok.inj h
      simp [hends]
    next => cases h
  next hother =>
    obtain rfl := Except.ok.inj h
    refine ⟨⟨.inl, fun hends => ?_⟩, rfl⟩
    refine hends.elim id fun hends => ?_
    cases hp : l.publisher with
    | none => rfl
    | some p => exact absurd hends (hother p hp)

theorem publish_eq_ok : l.publish feed now = .ok l' ↔
    ∃ m, (if feed.instant l.ticks ≤ now then l.publishNext feed else .ok l) = .ok m ∧
      m.endPublishing feed = .ok l' := by
  unfold publish
  split
  · exact bind_eq_ok
  · exact ⟨fun h => ⟨l, rfl, h⟩, fun ⟨_, hm, h⟩ => Except.ok.inj hm ▸ h⟩

theorem publish_ticked (h : l.publish feed now = .ok l') : Ticked feed now l l' := by
  obtain ⟨m, hnext, hend⟩ := publish_eq_ok.mp h
  have hm : (m.publisher = none ↔ l.publisher = none) ∧
      m.ticks = if l.publisher ≠ none then feed.after now l.ticks else l.ticks := by
    unfold Feed.after
    split at hnext
    next hdue =>
      obtain ⟨hpublisher, hticks⟩ := publishNext_publisher hnext
      refine ⟨hpublisher, hticks.trans ?_⟩
      by_cases hthere : l.publisher ≠ none <;> simp [hthere, hdue]
    next hearly =>
      obtain rfl := Except.ok.inj hnext
      simp [hearly]
  obtain ⟨hpublisher, hticks⟩ := endPublishing_publisher hend
  constructor
  · intro hgone
    refine ⟨hpublisher.mpr (.inl (hm.1.mpr hgone)), hticks.trans (hm.2.trans (if_neg ?_))⟩
    exact not_not_intro hgone
  · intro hthere
    refine ⟨hticks.trans (hm.2.trans (if_pos hthere)), ?_⟩
    rw [hpublisher, hticks, hm.1]
    exact or_iff_right hthere

theorem act_eq_ok {frames : List OrderedFrame} : l.act feed delay now = (frames, .ok l') ↔
    ∃ published forwarded, l.publish feed now = .ok published ∧
      published.forward delay now = .ok forwarded ∧ forwarded.play = (frames, .ok l') := by
  unfold act
  constructor
  · intro h
    split at h
    next forwarded hforward =>
      obtain ⟨published, hpublish, hforward⟩ := bind_eq_ok.mp hforward
      exact ⟨published, forwarded, hpublish, hforward, h⟩
    next => cases (Prod.mk.inj h).2
  · rintro ⟨published, forwarded, hpublish, hforward, hplay⟩
    rw [bind_eq_ok.mpr ⟨published, hpublish, hforward⟩]
    exact hplay

/-- An act publishes at most once, whatever else it does. -/
theorem act_ticked {frames : List OrderedFrame} (h : l.act feed delay now = (frames, .ok l')) :
    Ticked feed now l l' := by
  obtain ⟨published, forwarded, hpublish, hforward, hplay⟩ := act_eq_ok.mp h
  have hpublisher := (play_publisher hplay).1.trans (forward_publisher hforward).1
  have hticks := (play_publisher hplay).2.trans (forward_publisher hforward).2
  obtain ⟨hgone, hthere⟩ := publish_ticked hpublish
  rw [← hpublisher, ← hticks] at hgone hthere
  exact ⟨hgone, hthere⟩

-- ── a run of acts ───────────────────────────────────────────────────

/-- The acts at some instants, one after the other, none of which fails. -/
inductive Acts (feed : Feed) (delay : Nat → Span) (l : Line) : List Span → Line → Prop where
  | start : Acts feed delay l [] l
  | act {nows : List Span} {now : Span} {m l' : Line} {frames : List OrderedFrame} :
      Acts feed delay l nows m → m.act feed delay now = (frames, .ok l') →
      Acts feed delay l (nows ++ [now]) l'

/-- The act of each number comes no earlier than the tick of that number. -/
def OnTime (feed : Feed) (nows : List Span) : Prop :=
  ∀ i, (h : i < nows.length) → feed.instant i ≤ nows[i]

theorem OnTime.front {nows : List Span} (h : OnTime feed (nows ++ [now])) : OnTime feed nows := by
  intro i hi
  have hlt : i < (nows ++ [now]).length := by
    rw [List.length_append]
    exact Nat.lt_add_right _ hi
  have hle := h i hlt
  rwa [List.getElem_append_left hi] at hle

theorem OnTime.last {nows : List Span} (h : OnTime feed (nows ++ [now])) :
    feed.instant nows.length ≤ now := by
  have hle := h nows.length (by simp)
  rwa [List.getElem_concat_length rfl] at hle

/-- Where the publisher stands after a number of acts on time: it has published a frame at each of them,
    until its feed came to an end. -/
structure Published (feed : Feed) (acts : Nat) (l : Line) : Prop where
  goes : ∀ tick < l.ticks, feed.goesOn tick = true
  ticks_le : l.ticks ≤ acts
  ends : l.ticks < acts → feed.goesOn l.ticks = false
  done : l.publisher = none ↔ acts ≠ 0 ∧ feed.goesOn l.ticks = false

theorem Published.ticked {acts : Nat} (h : Published feed acts l) (hticked : Ticked feed now l l')
    (onTime : feed.instant acts ≤ now) : Published feed (acts + 1) l' := by
  cases hpublisher : l.publisher with
  | none =>
      obtain ⟨hgone, hticks⟩ := hticked.gone hpublisher
      obtain ⟨-, hend⟩ := h.done.mp hpublisher
      refine ⟨hticks ▸ h.goes, hticks ▸ Nat.le_succ_of_le h.ticks_le, fun _ => hticks ▸ hend, ?_⟩
      rw [hticks]
      exact ⟨fun _ => ⟨Nat.succ_ne_zero acts, hend⟩, fun _ => hgone⟩
  | some p =>
      have hthere : l.publisher ≠ none := hpublisher ▸ Option.some_ne_none p
      obtain ⟨hafter, hdone⟩ := hticked.there hthere
      -- it is still there, so no act was without a frame
      have hticks : l.ticks = acts := by
        refine Nat.le_antisymm h.ticks_le (Nat.not_lt.mp fun hlt => hthere (h.done.mpr ⟨?_, h.ends hlt⟩))
        exact Nat.ne_of_gt (Nat.zero_lt_of_lt hlt)
      have hdone' : l'.publisher = none ↔ acts + 1 ≠ 0 ∧ feed.goesOn l'.ticks = false :=
        hdone.trans (and_iff_right (Nat.succ_ne_zero acts)).symm
      rw [Feed.after, hticks] at hafter
      cases hgoes : feed.goesOn acts with
      | true =>
          rw [if_pos ⟨onTime, hgoes⟩] at hafter
          refine ⟨fun tick htick => ?_, Nat.le_of_eq hafter, fun hlt => ?_, hdone'⟩
          · rcases Nat.lt_succ_iff_lt_or_eq.mp (hafter ▸ htick) with hlt | rfl
            · exact h.goes tick (hticks ▸ hlt)
            · exact hgoes
          · exact absurd hafter (Nat.ne_of_lt hlt)
      | false =>
          rw [if_neg fun hboth => Bool.false_ne_true (hgoes.symm.trans hboth.2)] at hafter
          refine ⟨fun tick htick => h.goes tick ?_, hafter ▸ Nat.le_succ acts, fun _ => hafter ▸ hgoes,
            hdone'⟩
          rwa [hticks, ← hafter]

/-- **A publisher publishes a frame at each act that is on time until its feed comes to an end, and
    none from then on.** -/
theorem Acts.published {nows : List Span} (acts : Acts feed delay l nows l')
    (hthere : l.publisher ≠ none) (hticks : l.ticks = 0) (onTime : OnTime feed nows) :
    Published feed nows.length l' := by
  induction acts with
  | start =>
      refine ⟨fun tick h => ?_, Nat.le_of_eq hticks, fun h => ?_, ?_⟩
      · exact absurd (hticks ▸ h) (Nat.not_lt_zero tick)
      · exact absurd h (Nat.not_lt_zero l.ticks)
      · exact ⟨fun h => absurd h hthere, fun h => absurd rfl h.1⟩
  | @act nows now m l' frames _ hact ih =>
      rw [List.length_append, List.length_singleton]
      exact (ih onTime.front).ticked (act_ticked hact) onTime.last

end Line

-- ── tones ───────────────────────────────────────────────────────────

namespace Tone

variable {t : Tone} {acts tick : Nat} {l : Line}

/-- The count of the samples grows exactly if a frame has any. -/
theorem position_lt_position_succ_iff : t.position tick < t.position (tick + 1) ↔
    0 < t.samples t.frame := by
  rw [position, position, Nat.succ_mul]
  exact Nat.lt_add_right_iff_pos

theorem goesOn_eq_false_iff : t.feed.goesOn tick = false ↔ t.samples t.duration ≤ t.position tick := by
  rw [feed, decide_eq_false_iff_not, Nat.not_lt]

theorem goesOn_eq_true_iff : t.feed.goesOn tick = true ↔ t.position tick < t.samples t.duration :=
  decide_eq_true_iff

/-- The frames that are published are those that find too few samples. -/
theorem frameCount?_eq_some_iff {count : Nat} : t.frameCount? = some count ↔
    ∀ tick, tick < count ↔ t.position tick < t.samples t.duration := by
  -- rounded up, the quotient counts the multiples below the total
  have hcount (each total : Nat) (heach : 0 < each) (tick : Nat) :
      tick < (total + (each - 1)) / each ↔ tick * each < total := by
    rw [← Nat.succ_le_iff, Nat.le_div_iff_mul_le heach, Nat.succ_mul]
    omega
  simp only [frameCount?, position]
  rcases Nat.eq_zero_or_pos (t.samples t.frame) with heach | heach
  · rw [if_pos heach, heach]
    simp only [Nat.mul_zero]
    split
    next htotal =>
      rw [htotal, Option.some_inj]
      exact ⟨fun h tick => by omega, fun h => (Nat.eq_zero_of_not_pos fun hpos =>
        Nat.lt_irrefl 0 ((h 0).mp hpos)).symm⟩
    next htotal =>
      exact ⟨nofun, fun h => absurd ((h count).mpr (Nat.pos_of_ne_zero htotal)) (Nat.lt_irrefl count)⟩
  · rw [if_neg (Nat.ne_of_gt heach), Option.some_inj]
    constructor
    · rintro rfl
      exact hcount _ _ heach
    · intro h
      refine Nat.le_antisymm ?_ ?_ <;> refine Nat.not_lt.mp fun hlt => ?_
      · exact Nat.lt_irrefl count ((h count).mpr ((hcount _ _ heach count).mp hlt))
      · exact Nat.lt_irrefl _ ((hcount _ _ heach _).mpr ((h _).mp hlt))

theorem frameCount?_eq_none_iff : t.frameCount? = none ↔
    t.samples t.frame = 0 ∧ t.samples t.duration ≠ 0 := by
  simp only [frameCount?]
  split
  next heach =>
    split
    next htotal => exact ⟨nofun, fun h => absurd htotal h.2⟩
    next htotal => exact ⟨fun _ => ⟨heach, htotal⟩, fun _ => rfl⟩
  next heach => exact ⟨nofun, fun h => absurd h.1 heach⟩

/-- What has become of publishing after a number of acts: if it comes to an end at all, each frame added
    samples and was needed, and it is done once the last one is there; else no frame has any. -/
structure Publishes (t : Tone) (acts : Nat) (l : Line) : Prop where
  grows : 0 < t.samples t.frame ∨ t.samples t.duration = 0 →
    ∀ tick < l.ticks, t.position tick < t.position (tick + 1) ∧ t.position tick < t.samples t.duration
  ends : 0 < t.samples t.frame ∨ t.samples t.duration = 0 →
    ∃ count, t.frameCount? = some count ∧ l.ticks = min count acts ∧
      (l.publisher = none ↔ count ≤ acts) ∧
      (l.publisher = none → t.samples t.duration ≤ t.position l.ticks)
  stands : t.samples t.frame = 0 ∧ t.samples t.duration ≠ 0 →
    t.frameCount? = none ∧ l.publisher ≠ none ∧ l.ticks = acts ∧ t.position l.ticks = 0

/-- **Publishing ends, after the counted frames and with more samples behind each of them, unless the
    samples of a frame are rounded to none and some are wanted: then it never ends.** -/
theorem publishing_ends_unless_rounded_to_nothing {delay : Nat → Span} {name : String}
    {latency : Span} {nows : List Span} (acts : Line.Acts t.feed delay (.start name latency) nows l)
    (onTime : Line.OnTime t.feed nows) (begun : nows ≠ []) : t.Publishes nows.length l := by
  have hpublished := acts.published (Option.some_ne_none _) rfl onTime
  have hbegun : nows.length ≠ 0 := fun h => begun (List.length_eq_zero_iff.mp h)
  have hdone : l.publisher = none ↔ t.samples t.duration ≤ t.position l.ticks := by
    rw [hpublished.done, goesOn_eq_false_iff]
    exact and_iff_right hbegun
  have hgoes : ∀ tick < l.ticks, t.position tick < t.samples t.duration := fun tick htick =>
    goesOn_eq_true_iff.mp (hpublished.goes tick htick)
  have hends : l.ticks < nows.length → t.samples t.duration ≤ t.position l.ticks := fun hlt =>
    goesOn_eq_false_iff.mp (hpublished.ends hlt)
  refine ⟨fun hany tick htick => ⟨?_, hgoes tick htick⟩, fun hany => ?_, fun ⟨heach, htotal⟩ => ?_⟩
  · refine position_lt_position_succ_iff.mpr (hany.resolve_right fun htotal => ?_)
    exact Nat.not_lt_zero _ (htotal ▸ hgoes tick htick)
  · obtain ⟨count, hcount⟩ : ∃ count, t.frameCount? = some count := by
      refine Option.ne_none_iff_exists'.mp fun hnone => ?_
      obtain ⟨heach, htotal⟩ := frameCount?_eq_none_iff.mp hnone
      exact hany.elim (fun h => Nat.ne_of_gt h heach) htotal
    have hlt := frameCount?_eq_some_iff.mp hcount
    -- a tick is below the count as long as samples are missing
    have hdone' : l.publisher = none ↔ count ≤ l.ticks := by
      rw [hdone, ← Nat.not_lt, ← hlt, Nat.not_lt]
    have hle : l.ticks ≤ count := Nat.not_lt.mp fun h =>
      Nat.lt_irrefl count ((hlt count).mpr (hgoes count h))
    have hwait : l.ticks < nows.length → count ≤ l.ticks := fun h => hdone'.mp (hdone.mpr (hends h))
    have hacts := hpublished.ticks_le
    refine ⟨count, hcount, ?_, hdone'.trans ?_, hdone.mp⟩ <;> omega
  · have hzero (tick : Nat) : t.position tick = 0 := by rw [position, heach, Nat.mul_zero]
    have hmissing (tick : Nat) : ¬ t.samples t.duration ≤ t.position tick := by
      rw [hzero, Nat.le_zero]
      exact htotal
    refine ⟨frameCount?_eq_none_iff.mpr ⟨heach, htotal⟩, fun h => hmissing _ (hdone.mp h), ?_, hzero _⟩
    exact Nat.le_antisymm hpublished.ticks_le (Nat.not_lt.mp fun h => hmissing _ (hends h))

/-- Frames of a second, two samples each. -/
def seconds : Tone :=
  { standard with sampleRate := 2, channels := 1, frame := .ofSeconds 1, duration := .ofSeconds 1 }

theorem publishing_ends_unless_rounded_to_nothing_seconds :
    ∃ l, Line.Acts seconds.feed (fun _ => .zero) (.start "audio" .zero) [.zero] l ∧
      Line.OnTime seconds.feed [.zero] ∧ seconds.Publishes 1 l ∧ l.publisher = none := by
  have hok : ((Line.start "audio" .zero).act seconds.feed (fun _ => .zero) .zero).2.isOk = true := by
    decide +kernel
  have hcount : seconds.frameCount? = some 1 := by decide +kernel
  have hany : 0 < seconds.samples seconds.frame := by decide +kernel
  have onTime : Line.OnTime seconds.feed [.zero] := by
    intro i hi
    obtain rfl : i = 0 := Nat.lt_one_iff.mp hi
    exact Nat.le_of_eq (Nat.zero_mul _)
  cases hact : (Line.start "audio" .zero).act seconds.feed (fun _ => .zero) .zero with
  | mk frames outcome =>
      cases outcome with
      | error e =>
          rw [hact] at hok
          cases hok
      | ok l =>
          have acts := Line.Acts.act .start hact
          have hpublishes := publishing_ends_unless_rounded_to_nothing acts onTime (List.cons_ne_nil _ _)
          obtain ⟨count, hcount', -, hdone, -⟩ := hpublishes.ends (.inl hany)
          obtain rfl := Option.some.inj (hcount.symm.trans hcount')
          exact ⟨l, acts, onTime, hpublishes, hdone.mpr (Nat.le_refl 1)⟩

/-- One sample a second, in frames of less than half a second. -/
def slow : Tone :=
  { standard with sampleRate := 1, frame := .ofMillis 400, duration := .ofSeconds 1,
                  buffer := .ofSeconds 1 }

/-- A frame that is there can have no sample. Then each tick finds as many samples as the one before,
    and one is wanted. -/
theorem frames_can_be_rounded_to_nothing :
    slow.frame ≠ .zero ∧ 0 < slow.sampleRate ∧
      (∀ tick, slow.feed.goesOn tick = true ∧ slow.position (tick + 1) = slow.position tick) ∧
      (∀ delay name latency nows l, Line.Acts slow.feed delay (.start name latency) nows l →
        Line.OnTime slow.feed nows → l.publisher ≠ none ∧ l.ticks = nows.length) ∧
      ∀ draw, slow.run draw = .refused .endless := by
  have heach : slow.samples slow.frame = 0 := by decide +kernel
  have htotal : slow.samples slow.duration = 1 := by decide +kernel
  have hzero (tick : Nat) : slow.position tick = 0 := by rw [position, heach, Nat.mul_zero]
  have hgoes (tick : Nat) : slow.feed.goesOn tick = true := by
    rw [goesOn_eq_true_iff, hzero, htotal]
    exact Nat.one_pos
  refine ⟨by decide, by decide, fun tick => ⟨hgoes tick, by rw [hzero, hzero]⟩, ?_, fun draw => ?_⟩
  · intro delay name latency nows l acts onTime
    have hpublished := acts.published (Option.some_ne_none _) rfl onTime
    have hopen (tick : Nat) : slow.feed.goesOn tick ≠ false := fun h => by
      rw [hgoes] at h
      cases h
    refine ⟨fun h => hopen _ (hpublished.done.mp h).2, ?_⟩
    exact Nat.le_antisymm hpublished.ticks_le (Nat.not_lt.mp fun h => hopen _ (hpublished.ends h))
  · have hcount : slow.frameCount? = none :=
      frameCount?_eq_none_iff.mpr ⟨heach, htotal ▸ Nat.one_ne_zero⟩
    have hok : (AudioBuffer.empty.setUp slow.config).isOk = true := by decide +kernel
    have hframe : slow.frame ≠ .zero := by decide
    unfold run
    split
    next e hset =>
      rw [hset] at hok
      cases hok
    next buffer hset => rw [if_neg hframe, hcount]

end Tone

end LiveMedia.Simulation
