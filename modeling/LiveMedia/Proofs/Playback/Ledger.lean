import LiveMedia.Proofs.Live.Counting
import LiveMedia.Proofs.Playback.Attending
import LiveMedia.Proofs.Playback.WithinBudget

/-!
# The account of every group

The groups of a track are numbered from zero on, and the tasks of a player are numbered as the groups that
they read. The ledger of a player says of each group what has become of it: it was not found yet, and then
nothing was said of it; or its task is reading, and has reported the first frames of its run; or its task is
over, and has reported what the group has and that it is done (`Accounted`).

Every step of a task keeps the ledger: a group is found (`Ledger.find`), a task runs until it waits or ends
(`Ledger.runTask`), the end of the track is reported (`Ledger.trackDone`). What playback asks of a history
follows from it: `Ledger.reported`, `Ledger.pairwise` and `Ledger.covers`.
-/

namespace LiveMedia.Playback

open LiveMedia.Time LiveMedia.Live

-- ── what a task reports ─────────────────────────────────────────────

/-- Everything that is said is a frame of one group or its end. -/
def Details (n : Nat) (events : List Event) : Prop :=
  ∀ e ∈ events, (∃ f, e = .frame n f) ∨ e = .groupDone n

namespace Details

variable {n : Nat} {events : List Event}

theorem report (n : Nat) (frames : List MediaFrame) (done : Prop) [Decidable done] :
    Details n (frames.map (.frame n) ++ if done then [.groupDone n] else []) := by
  intro e he
  rcases List.mem_append.mp he with he | he
  · obtain ⟨f, -, rfl⟩ := List.mem_map.mp he
    exact .inl ⟨f, rfl⟩
  · split at he
    · exact .inr (List.mem_singleton.mp he)
    · exact absurd he List.not_mem_nil

theorem announced_eq (h : Details n events) : announced events = [] :=
  List.filterMap_eq_nil_iff.mpr fun e he => by rcases h e he with ⟨f, rfl⟩ | rfl <;> rfl

theorem trackResults_eq (h : Details n events) : trackResults events = [] :=
  List.filterMap_eq_nil_iff.mpr fun e he => by rcases h e he with ⟨f, rfl⟩ | rfl <;> rfl

theorem about_self (h : Details n events) : about n events = events :=
  List.filter_eq_self.mpr fun e he => by rcases h e he with ⟨f, rfl⟩ | rfl <;> exact beq_self_eq_true n

theorem about_of_ne (h : Details n events) {other : Nat} (hne : n ≠ other) : about other events = [] :=
  List.filter_eq_nil_iff.mpr fun e he => by
    rcases h e he with ⟨f, rfl⟩ | rfl <;> exact fun heq => hne (beq_iff_eq.mp heq)

end Details

theorem about_group_self (g reader : Nat) : about g [.group g reader] = [.group g reader] :=
  List.filter_cons_of_pos (beq_self_eq_true g)

theorem about_group_of_ne {g other : Nat} (h : g ≠ other) (reader : Nat) :
    about other [.group g reader] = [] :=
  List.filter_cons_of_neg fun heq => h (beq_iff_eq.mp heq)

/-- A task that runs reports what its reader finds, and is kept as long as the reader is. -/
theorem Player.runTask_eq {s : Store} {held : Holdings} {p : Player} {task : GroupTask} {said : List Event}
    {left : Option GroupReader} (h : Player.readGroup s held task.reader.cursor.sequence
      ((s.group task.reader.cursor.group).frames.length + 2) task.reader = (said, left)) :
    Player.runTask s held p task =
      { p with events := p.events ++ said,
               tasks := p.tasks ++ (left.map fun reader => { task with reader }).toList } := by
  cases left with
  | some reader => simp [Player.runTask, h]
  | none => simp [Player.runTask, h]

-- ── one group ───────────────────────────────────────────────────────

/-- What has become of a group that was found, and what was said of it. -/
inductive Accounted (s : Store) (e : GroupEntry) (run : List MediaFrame) (n : Nat) (tasks : List GroupTask)
    (events : List Event) : Prop where
  | reading {reader : GroupReader} {before : List MediaFrame} : ⟨n, reader⟩ ∈ tasks →
      Reads s e run before reader →
      about n events = .group n n :: (before.map MediaFrame.joined).map (.frame n) →
      Accounted s e run n tasks events
  | ended {before : List MediaFrame} : n ∉ tasks.map GroupTask.number → Over s e run before →
      about n events = .group n n :: ((before.map MediaFrame.joined).map (.frame n) ++ [.groupDone n]) →
      Accounted s e run n tasks events

namespace Accounted

variable {s s' : Store} {e : GroupEntry} {run run' : List MediaFrame} {n : Nat}
  {tasks tasks' : List GroupTask} {events new : List Event}

/-- What happens to other groups changes nothing. -/
theorem elsewhere (h : Accounted s e run n tasks events)
    (htasks : ∀ task : GroupTask, task.number = n → (task ∈ tasks' ↔ task ∈ tasks))
    (hnew : about n new = []) : Accounted s e run n tasks' (events ++ new) := by
  have habout : about n (events ++ new) = about n events := by
    rw [about_append, hnew, List.append_nil]
  cases h with
  | reading hmem hreads hsaid => exact .reading ((htasks _ rfl).mpr hmem) hreads (habout.trans hsaid)
  | ended hnone hover hsaid =>
      refine .ended (fun hmem => hnone ?_) hover (habout.trans hsaid)
      obtain ⟨task, htask, hnumber⟩ := List.mem_map.mp hmem
      exact List.mem_map.mpr ⟨task, (htasks task hnumber).mp htask, hnumber⟩

theorem later (h : Accounted s e run n tasks events) (hgrows : s.Grows s') (hlonger : run <+: run')
    (hforetold : Foretold s' e run') : Accounted s' e run' n tasks events := by
  cases h with
  | reading hmem hreads hsaid => exact .reading hmem (hreads.later hgrows hlonger) hsaid
  | ended hnone hover hsaid => exact .ended hnone (hover.later hgrows hlonger hforetold) hsaid

/-- What was said is what the task of a group says. -/
theorem inOrder (h : Accounted s e run n tasks events) :
    ∃ frames, (GroupReader.start e.cursor).Gives frames ∧
      about n events <+: .group n n :: (frames.map (.frame n) ++ [.groupDone n]) := by
  cases h with
  | @reading reader before _ hreads hsaid =>
      have hgives := hreads.gives [] (.stop reader)
      rw [List.append_nil] at hgives
      exact ⟨_, hgives, hsaid ▸ (List.prefix_append _ [Event.groupDone n])⟩
  | ended _ hover hsaid => exact ⟨_, hover.gives, hsaid ▸ List.prefix_rfl⟩

theorem framesOf_eq (h : Accounted s e run n tasks events) :
    ∃ before, before <+: run ∧ framesOf n events = before.map MediaFrame.joined := by
  have hgroup : ∀ rest, framesOf n (.group n n :: rest) = framesOf n rest := fun rest => rfl
  rw [← framesOf_about]
  cases h with
  | @reading _ before _ hreads hsaid =>
      refine ⟨before, hreads.begins, ?_⟩
      rw [hsaid, hgroup, framesOf_map_frame]
  | @ended before _ hover hsaid =>
      refine ⟨before, hover.begins, ?_⟩
      rw [hsaid, hgroup, framesOf_append, framesOf_map_frame]
      exact List.append_nil _

end Accounted

-- ── all groups ──────────────────────────────────────────────────────

/-- The groups that there are, numbered from zero on, and the runs that they will hold in the end. -/
structure Programme (s : Store) (made : List GroupEntry) (runs : List (List MediaFrame)) : Prop where
  sequences : made.map GroupEntry.sequence = List.range made.length
  length_le : made.length ≤ Track.sequenceLimit
  foretold : List.Forall₂ (Foretold s) made runs
  readable : ∀ run ∈ runs, Readable run

/-- Every group is being written, or complete. -/
def Tended (s : Store) (held : Holdings) (made : List GroupEntry) : Prop :=
  ∀ e ∈ made, .groupWriter e.group ∈ held ∨ ∃ payloads, s.Complete e.group payloads

/-- What has become of each group, as many as were found. -/
structure Ledger (s : Store) (made : List GroupEntry) (runs : List (List MediaFrame)) (tasks : List GroupTask)
    (events : List Event) (found : Nat) : Prop where
  announced_eq : announced events = List.range found
  found_le : found ≤ made.length
  once : (tasks.map GroupTask.number).Nodup
  number_lt : ∀ task ∈ tasks, task.number < found
  accounted : ∀ n e run, n < found → made[n]? = some e → runs[n]? = some run →
    Accounted s e run n tasks events
  silent : ∀ n, found ≤ n → about n events = []

namespace Programme

variable {s : Store} {made : List GroupEntry} {runs : List (List MediaFrame)} {n : Nat}

theorem sequence_eq (h : Programme s made runs) {e : GroupEntry} (he : made[n]? = some e) : e.sequence = n :=
  sequence_of_getElem? h.sequences he

/-- The group of a number, and its run. -/
theorem entry (h : Programme s made runs) (hn : n < made.length) :
    ∃ e run, made[n]? = some e ∧ runs[n]? = some run ∧ Foretold s e run ∧ Readable run := by
  have hn' : n < runs.length := h.foretold.length_eq ▸ hn
  exact ⟨made[n], runs[n], List.getElem?_eq_getElem hn, List.getElem?_eq_getElem hn', h.foretold.get hn hn',
    h.readable _ (List.getElem_mem hn')⟩

end Programme

namespace Ledger

variable {s s' : Store} {held : Holdings} {made : List GroupEntry} {runs : List (List MediaFrame)}
  {tasks : List GroupTask} {events : List Event} {found : Nat}

theorem start (s : Store) (made : List GroupEntry) (runs : List (List MediaFrame)) :
    Ledger s made runs [] [] 0 where
  announced_eq := rfl
  found_le := Nat.zero_le _
  once := List.nodup_nil
  number_lt _ h := absurd h List.not_mem_nil
  accounted _ _ _ h := absurd h (Nat.not_lt_zero _)
  silent _ _ := rfl

-- ── what playback asks ──────────────────────────────────────────────

/-- What is said of a group that was not found is nothing, and of one that was found it is accounted for. -/
theorem found_or_silent (h : Ledger s made runs tasks events found) (hprog : Programme s made runs) (n : Nat) :
    about n events = [] ∨ n < found ∧ ∃ e run, made[n]? = some e ∧ runs[n]? = some run ∧
      Accounted s e run n tasks events := by
  by_cases hn : n < found
  · obtain ⟨e, run, he, hrun, -, -⟩ := hprog.entry (Nat.lt_of_lt_of_le hn h.found_le)
    exact .inr ⟨hn, e, run, he, hrun, h.accounted n e run hn he hrun⟩
  · exact .inl (h.silent n (Nat.le_of_not_lt hn))

theorem pairwise (h : Ledger s made runs tasks events found) : (announced events).Pairwise (· < ·) :=
  h.announced_eq ▸ List.pairwise_lt_range

/-- **The history is one that tasks report.** -/
theorem reported (h : Ledger s made runs tasks events found) (hprog : Programme s made runs) :
    Reported events where
  word g hg := by
    have hfound := h.found_le
    have hlimit := hprog.length_le
    rw [h.announced_eq, List.mem_range] at hg
    omega
  inOrder g := by
    rcases h.found_or_silent hprog g with hnone | ⟨-, e, run, -, -, haccounted⟩
    · exact ⟨0, ⟨0, 0, 0, none⟩, [], .stop _, hnone ▸ List.nil_prefix⟩
    · obtain ⟨frames, hgives, hbegins⟩ := haccounted.inOrder
      exact ⟨g, e.cursor, frames, hgives, hbegins⟩

/-- The frames that were reported are frames of the runs. -/
theorem mem_runs (h : Ledger s made runs tasks events found) (hprog : Programme s made runs) {f : OrderedFrame}
    (hf : f ∈ allFrames events) : ∃ run ∈ runs, ∃ x ∈ run, f.frame = x.joined := by
  have hmem : f.frame ∈ framesOf f.group events := mem_framesIn.mpr hf
  rcases h.found_or_silent hprog f.group with hnone | ⟨-, e, run, -, hrun, haccounted⟩
  · rw [framesOf_eq_nil hnone] at hmem
    exact absurd hmem List.not_mem_nil
  · obtain ⟨before, hbegins, hframes⟩ := haccounted.framesOf_eq
    rw [hframes] at hmem
    obtain ⟨x, hx, heq⟩ := List.mem_map.mp hmem
    exact ⟨run, List.mem_of_getElem? hrun, x, hbegins.subset hx, heq.symm⟩

/-- A budget that reaches to the last timestamp covers the distance of any two frames. -/
theorem covers (h : Ledger s made runs tasks events found) (hprog : Programme s made runs) {budget : Span}
    (hbudget : ∀ run ∈ runs, ∀ f ∈ run, f.timestamp.value * 1000 ≤ budget.nanos) : Covers budget events := by
  intro a ha b _
  obtain ⟨run, hrun, x, hx, heq⟩ := h.mem_runs hprog ha
  have hstamp : a.frame.timestamp = x.joined.timestamp := congrArg MediaFrame.timestamp heq
  rw [hstamp]
  exact Nat.le_trans (Nat.mul_le_mul_right 1000 (Nat.sub_le _ _)) (hbudget run hrun x hx)

/-- A group is announced with its own number. -/
theorem reader_eq (h : Ledger s made runs tasks events found) (hprog : Programme s made runs) {g reader : Nat}
    (hevent : .group g reader ∈ events) : reader = g := by
  have habout : Event.group g reader ∈ about g events :=
    mem_about.mpr ⟨hevent, beq_self_eq_true g⟩
  rcases h.found_or_silent hprog g with hnone | ⟨-, e, run, -, -, haccounted⟩
  · rw [hnone] at habout
    exact absurd habout List.not_mem_nil
  · obtain ⟨frames, -, hbegins⟩ := haccounted.inOrder
    rcases List.mem_cons.mp (hbegins.subset habout) with heq | hmem
    · exact (Event.group.inj heq).2
    · exact absurd hmem (by simp)

-- ── what happens ────────────────────────────────────────────────────

/-- More comes behind the network, and nobody has looked yet. -/
theorem later {more : List GroupEntry} {runs' : List (List MediaFrame)}
    (h : Ledger s made runs tasks events found) (hgrows : s.Grows s') (hprog' : Programme s' (made ++ more) runs')
    (hlength : made.length = runs.length)
    (hlonger : ∀ (n : Nat) run, runs[n]? = some run → ∃ run', runs'[n]? = some run' ∧ run <+: run') :
    Ledger s' (made ++ more) runs' tasks events found where
  announced_eq := h.announced_eq
  found_le := by
    rw [List.length_append]
    exact Nat.le_add_right_of_le h.found_le
  once := h.once
  number_lt := h.number_lt
  accounted n e run' hn he hrun' := by
    have hmade : n < made.length := Nat.lt_of_lt_of_le hn h.found_le
    have hrun : runs[n]? = some runs[n] := List.getElem?_eq_getElem (hlength ▸ hmade)
    obtain ⟨_, hrun'', hprefix⟩ := hlonger n _ hrun
    obtain rfl := Option.some.inj (hrun''.symm.trans hrun')
    have hforetold : Foretold s' e _ := Publishing.rel_of_getElem? hprog'.foretold he hrun'
    rw [List.getElem?_append_left hmade] at he
    exact (h.accounted n e _ hn he hrun).later hgrows hprefix hforetold
  silent := h.silent

/-- The next group is found, and a task is put to it. -/
theorem find (h : Ledger s made runs tasks events found) {e : GroupEntry} (he : made[found]? = some e) :
    Ledger s made runs (tasks ++ [⟨found, .start e.cursor⟩]) (events ++ [.group found found]) (found + 1) where
  announced_eq := by
    rw [announced_append, h.announced_eq, List.range_succ]
    rfl
  found_le := (List.getElem?_eq_some_iff.mp he).1
  once := by
    rw [List.map_append, List.nodup_append]
    refine ⟨h.once, List.nodup_singleton _, fun n hn m hm => ?_⟩
    obtain ⟨task, htask, rfl⟩ := List.mem_map.mp hn
    rw [List.mem_singleton.mp hm]
    exact Nat.ne_of_lt (h.number_lt task htask)
  number_lt task htask := by
    rcases List.mem_append.mp htask with htask | htask
    · exact Nat.lt_succ_of_lt (h.number_lt task htask)
    · rw [List.mem_singleton.mp htask]
      exact Nat.lt_succ_self found
  accounted n e' run hn he' hrun := by
    rcases Nat.lt_succ_iff_lt_or_eq.mp hn with hlt | rfl
    · refine (h.accounted n e' run hlt he' hrun).elsewhere (fun task hnumber => ?_)
        (about_group_of_ne (Nat.ne_of_gt hlt) _)
      rw [List.mem_append, or_iff_left]
      intro hmem
      rw [List.mem_singleton.mp hmem] at hnumber
      exact Nat.ne_of_gt hlt hnumber
    · obtain rfl := Option.some.inj (he.symm.trans he')
      have hreads : Reads s e run [] (.start e.cursor) := Reads.start s e run
      refine .reading (List.mem_append_right _ List.mem_cons_self) hreads ?_
      rw [about_append, h.silent n (Nat.le_refl n), about_group_self]
      rfl
  silent n hn := by
    rw [about_append, h.silent n (Nat.le_of_succ_le hn), about_group_of_ne (Nat.ne_of_lt hn)]
    rfl

theorem trackDone (h : Ledger s made runs tasks events found) (result : Except MediaError Unit) :
    Ledger s made runs tasks (events ++ [.trackDone result]) found where
  announced_eq := by
    rw [announced_append, h.announced_eq]
    exact List.append_nil _
  found_le := h.found_le
  once := h.once
  number_lt := h.number_lt
  accounted n e run hn he hrun :=
    (h.accounted n e run hn he hrun).elsewhere (fun _ _ => Iff.rfl) rfl
  silent n hn := by
    rw [about_append, h.silent n hn]
    rfl

/-- A task has gone on: it reports of its group alone, and it stays or is over. -/
theorem replace {front rest : List GroupTask} {task : GroupTask} {new : List Event}
    (h : Ledger s made runs (front ++ task :: rest) events found) (left : Option GroupReader)
    (hdetails : Details task.number new)
    (haccounted : ∀ e run, made[task.number]? = some e → runs[task.number]? = some run →
      Accounted s e run task.number
        (front ++ (left.map fun reader => { task with reader }).toList ++ rest) (events ++ new)) :
    Ledger s made runs (front ++ (left.map fun reader => { task with reader }).toList ++ rest)
      (events ++ new) found where
  announced_eq := by
    rw [announced_append, hdetails.announced_eq, List.append_nil]
    exact h.announced_eq
  found_le := h.found_le
  once := by
    refine h.once.sublist ?_
    rw [List.append_assoc, List.map_append, List.map_append, List.map_append]
    refine List.Sublist.append (List.Sublist.refl _) ?_
    cases left with
    | none => exact (List.sublist_cons_self task rest).map GroupTask.number
    | some reader => exact List.Sublist.refl _
  number_lt other hother := by
    have htask := h.number_lt task (List.mem_append_right _ List.mem_cons_self)
    rcases List.mem_append.mp hother with hother | hother
    · rcases List.mem_append.mp hother with hother | hother
      · exact h.number_lt other (List.mem_append_left _ hother)
      · obtain ⟨reader, -, rfl⟩ := Option.map_eq_some_iff.mp (Option.mem_toList.mp hother)
        exact htask
    · exact h.number_lt other (List.mem_append_right _ (List.mem_cons_of_mem _ hother))
  accounted n e run hn he hrun := by
    by_cases hself : n = task.number
    · subst hself
      exact haccounted e run he hrun
    · refine (h.accounted n e run hn he hrun).elsewhere (fun other hnumber => ?_)
        (hdetails.about_of_ne (Ne.symm hself))
      have hne : other ≠ task := fun heq => hself (hnumber ▸ heq ▸ rfl)
      have hnot : other ∉ (left.map fun reader => { task with reader }).toList := by
        intro hmem
        obtain ⟨reader, -, rfl⟩ := Option.map_eq_some_iff.mp (Option.mem_toList.mp hmem)
        exact hself hnumber.symm
      simp only [List.mem_append, List.mem_cons, hne, hnot, or_false, false_or]
  silent n hn := by
    have hne : task.number ≠ n :=
      Nat.ne_of_lt (Nat.lt_of_lt_of_le (h.number_lt task (List.mem_append_right _ List.mem_cons_self)) hn)
    rw [about_append, h.silent n hn, hdetails.about_of_ne hne]
    rfl

/-- The task of a number reads the group of that number. -/
theorem reads {task : GroupTask} (h : Ledger s made runs tasks events found) (hprog : Programme s made runs)
    (htask : task ∈ tasks) : ∃ e run before, made[task.number]? = some e ∧ runs[task.number]? = some run ∧
      Reads s e run before task.reader ∧
      about task.number events =
        .group task.number task.number :: (before.map MediaFrame.joined).map (.frame task.number) := by
  have hlt := h.number_lt task htask
  obtain ⟨e, run, he, hrun, -, -⟩ := hprog.entry (Nat.lt_of_lt_of_le hlt h.found_le)
  cases h.accounted _ e run hlt he hrun with
  | @reading reader before hmem hreads hsaid =>
      have hsame : task = ⟨task.number, reader⟩ := List.inj_on_of_nodup_map h.once htask hmem rfl
      have hreader : task.reader = reader := congrArg GroupTask.reader hsame
      exact ⟨e, run, before, he, hrun, hreader ▸ hreads, hsaid⟩
  | ended hnone _ _ => exact absurd (List.mem_map_of_mem htask) hnone

/-- **A task keeps the ledger.** It ends when its group is complete. -/
theorem runTask {p : Player} {task : GroupTask} {rest : List GroupTask}
    (h : Ledger s made runs (p.tasks ++ task :: rest) events found) (hprog : Programme s made runs)
    (htended : Tended s held made) :
    ∃ new left, Player.runTask s held p task = { p with events := p.events ++ new, tasks := p.tasks ++ left } ∧
      Ledger s made runs (p.tasks ++ left ++ rest) (events ++ new) found ∧ trackResults new = [] ∧
      ((∀ e ∈ made, ∃ payloads, s.Complete e.group payloads) → left = []) := by
  have hmem : task ∈ p.tasks ++ task :: rest := List.mem_append_right _ List.mem_cons_self
  obtain ⟨e, run, before, he, hrun, hreads, hsaid⟩ := h.reads hprog hmem
  obtain ⟨_, _, he', hrun', hforetold, hreadable⟩ :=
    hprog.entry (Nat.lt_of_lt_of_le (h.number_lt task hmem) h.found_le)
  obtain rfl := Option.some.inj (he.symm.trans he')
  obtain rfl := Option.some.inj (hrun.symm.trans hrun')
  have hgroup : task.reader.cursor.group = e.group := hreads.follows.group.group_eq
  have hnumber : task.reader.cursor.sequence = task.number :=
    hreads.follows.sequence_eq.trans (hprog.sequence_eq he)
  obtain ⟨more, hevents, hsome, hnone, hcomplete⟩ :=
    hreads.readGroup hforetold hreadable (htended e (List.mem_of_getElem? he)) task.number
      ((s.group task.reader.cursor.group).frames.length + 2)
  rcases hreport : Player.readGroup s held task.number
    ((s.group task.reader.cursor.group).frames.length + 2) task.reader with ⟨said, left⟩
  rw [hreport] at hevents hsome hnone hcomplete
  dsimp only at hevents hsome hnone hcomplete
  have hdetails : Details task.number said :=
    hevents ▸ Details.report task.number (more.map MediaFrame.joined) (left = none)
  have habout : about task.number (events ++ said) = .group task.number task.number ::
      (((before ++ more).map MediaFrame.joined).map (.frame task.number) ++
        if left = none then [.groupDone task.number] else []) := by
    rw [about_append, hsaid, hdetails.about_self, hevents, List.map_append, List.map_append,
      List.cons_append, List.append_assoc]
  refine ⟨said, _, ?_, h.replace left hdetails ?_, hdetails.trackResults_eq, fun hall => ?_⟩
  · exact Player.runTask_eq (hnumber.symm ▸ hreport)
  · intro e' run' hmade hrun''
    obtain rfl := Option.some.inj (he.symm.trans hmade)
    obtain rfl := Option.some.inj (hrun.symm.trans hrun'')
    cases left with
    | some reader =>
        refine .reading ?_ (hsome reader rfl) (habout.trans (congrArg _ (List.append_nil _)))
        exact List.mem_append_left _ (List.mem_append_right _ List.mem_cons_self)
    | none =>
        refine .ended (fun hin => ?_) (hnone rfl) habout
        have honce := h.once
        rw [List.map_append, List.map_cons] at honce
        have hnotin := (List.nodup_cons.mp (List.perm_middle.nodup_iff.mp honce)).1
        rw [Option.map_none, Option.toList_none, List.append_nil, List.map_append] at hin
        exact hnotin hin
  · obtain rfl : left = none := hcomplete (hall e (List.mem_of_getElem? he)) (by rw [hgroup]; omega)
    rfl

end Ledger

end LiveMedia.Playback
