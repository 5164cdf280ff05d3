import LiveMedia.Proofs.Transfer.Rounds
import LiveMedia.Simulation.Delivery

/-!
# What a delivery carries

A delivery puts a sender and a receiver together. `Carries` is its invariant: while it is under way the
sender stands somewhere in its group, the receiver has followed it as far as the pipe goes, and neither
has stopped; once it is done the group behind the network has ended as it should (`Verdict`). One poll
keeps it (`Carries.poll`), however much room there is in the pipe, and touches nothing but the group of
the delivery (`Alters`). What others do keeps it as well (`Carries.later`).

How the group will end is not settled from the beginning, but at some moment it is: a group that is aborted
while its sender is in front of the end is `doomed`, and one that is whole when its sender is at the end is
`assured`. Both are parameters of the invariant, false at first and chosen when the moment has come
(`Carries.renew`).

The pipe of the simulator takes everything at once. Here it takes as much as there is room for, and the
simulator's is the one with room for all (`sendWithin_none`).
-/

namespace LiveMedia.Simulation

open LiveMedia.Wire LiveMedia.Time LiveMedia.Message LiveMedia.Live LiveMedia.Stream
open LiveMedia.Transfer

namespace Delivery

-- ── a pipe with so much room ────────────────────────────────────────

/-- Lets the sender go on until there is no more room in the pipe. -/
def sendWithin (room : Option Nat) (store : Store) (held : Holdings) (d : Delivery) : Delivery :=
  match d.sender with
  | none => d
  | some s => match s.poll store held { d.sink with blockAfter := room } with
    | (.stop _, sink) =>
      { d with sender := none, reader := d.reader.feed (arrivals sink.written .finish) }
    | (.wait next, sink) | (.go next, sink) =>
      { d with sender := some next, reader := d.reader.feed (arrivals sink.written .wait) }

/-- Lets both ends go on, the sender first. -/
def pollWithin (room : Option Nat) (destination : TrackWriter) (store : Store) (held : Holdings)
    (d : Delivery) : Delivery × Store :=
  (d.sendWithin room store held).receive destination store

theorem sendWithin_none (store : Store) (held : Holdings) (d : Delivery) :
    d.sendWithin none store held = d.send store held := by
  have hsink : { d.sink with blockAfter := none } = d.sink := by
    unfold sink
    split <;> rfl
  rw [sendWithin, hsink]
  rfl

theorem pollWithin_none (destination : TrackWriter) (store : Store) (held : Holdings) (d : Delivery) :
    d.pollWithin none destination store held = d.poll destination store held := by
  rw [pollWithin, sendWithin_none]
  rfl

theorem arrivals_eq (written : Bytes) (last : Arrival) :
    arrivals written last = block written ++ [last] := by
  unfold arrivals block
  split <;> rfl

-- ── how a group ends behind the network ─────────────────────────────

/-- How the group behind the network has ended. It has all payloads that there will ever be, unless the
    source was `doomed`; or it was aborted and the source is never whole, unless the source was
    `assured`. -/
inductive Verdict (doomed assured : Prop) (s : Store) (source target : GroupId) : Prop where
  | carried : ¬ doomed →
      (∀ fin, s.Grows fin → s.Complete target ((fin.group source).frames.map (sentPayload fin))) →
      Verdict doomed assured s source target
  | lost : ¬ assured → s.Aborted target →
      (∀ fin, s.Grows fin → ¬ Transmission.WholeGroup fin source) →
      Verdict doomed assured s source target

namespace Verdict

variable {doomed assured : Prop} {s : Store} {source target : GroupId}

theorem later {s' : Store} (h : Verdict doomed assured s source target) (hgrows : s.Grows s')
    (hspares : Store.Spares target s s') : Verdict doomed assured s' source target := by
  cases h with
  | carried hnot hcomplete =>
      exact .carried hnot fun fin hfin => hspares.complete (hcomplete fin (hgrows.trans hfin))
  | lost hnot haborted hnever =>
      exact .lost hnot (hspares.aborted haborted) fun fin hfin => hnever fin (hgrows.trans hfin)

/-- What has arrived is not doomed any more, and is assured if the source is whole. -/
theorem renew {doomed' assured' : Prop} (h : Verdict doomed assured s source target)
    (hdoomed : ¬ doomed') (hassured : assured' → Transmission.WholeGroup s source) :
    Verdict doomed' assured' s source target := by
  cases h with
  | carried _ hcomplete => exact .carried hdoomed hcomplete
  | lost _ haborted hnever => exact .lost (fun h => hnever s (.refl s) (hassured h)) haborted hnever

end Verdict

/-- A group of this number was made behind the network and has ended. -/
def Arrived (doomed assured : Prop) (s : Store) (made : List GroupEntry) (sequence : Nat)
    (source : GroupId) : Prop :=
  ∃ e ∈ made, e.sequence = sequence ∧ Verdict doomed assured s source e.group

theorem Arrived.later {doomed assured : Prop} {s s' : Store} {made made' : List GroupEntry}
    {sequence : Nat} {source : GroupId} (h : Arrived doomed assured s made sequence source)
    (hgrows : s.Grows s') (hspares : ∀ e ∈ made, e.sequence = sequence → Store.Spares e.group s s')
    (hmade : made ⊆ made') : Arrived doomed assured s' made' sequence source := by
  obtain ⟨e, he, hsequence, hverdict⟩ := h
  exact ⟨e, hmade he, hsequence, hverdict.later hgrows (hspares e he hsequence)⟩

theorem Arrived.renew {doomed assured doomed' assured' : Prop} {s : Store} {made : List GroupEntry}
    {sequence : Nat} {source : GroupId} (h : Arrived doomed assured s made sequence source)
    (hdoomed : ¬ doomed') (hassured : assured' → Transmission.WholeGroup s source) :
    Arrived doomed' assured' s made sequence source := by
  obtain ⟨e, he, hsequence, hverdict⟩ := h
  exact ⟨e, he, hsequence, hverdict.renew hdoomed hassured⟩

-- ── the invariant ───────────────────────────────────────────────────

/-- A receiver that has made its group has it on the list, and one that has not will be the first to make
    a group of its number. -/
structure Listed (made : List GroupEntry) (sequence : Nat) (receiver : Receiving) : Prop where
  opening : receiver = .opening → sequence ∉ made.map GroupEntry.sequence
  body : ∀ h g phase, receiver = .body h g phase → ⟨g.group, sequence⟩ ∈ made

/-- What holds of a delivery of the group `source` between two polls, when `made` are the groups that were
    made behind the network. -/
inductive Carries (doomed assured : Prop) (s : Store) (made : List GroupEntry) (header : GroupHeader)
    (source : GroupId) : Delivery → Prop where
  | underway {due : Span} {sender : Sending} {receiver : Receiving} {out buffer : Bytes} :
      Stood header source s sender (out ++ sender.unsent) → (doomed → sender.phase ≠ .finish) →
      (assured → sender.phase = .finish) → Receiving.Stays header s out receiver buffer →
      Listed made header.groupId receiver →
      Carries doomed assured s made header source ⟨due, some sender, some receiver, ⟨buffer, []⟩⟩
  | done {due : Span} {reader : Reader} : Arrived doomed assured s made header.groupId source →
      Carries doomed assured s made header source ⟨due, none, none, reader⟩

/-- What a poll of a delivery does to the store, and the groups that are made behind the network: it makes
    the group, or fills it, or does nothing. -/
inductive Alters (destination : TrackWriter) (sequence : Nat) (made : List GroupEntry) (s : Store) :
    Store → List GroupEntry → Prop where
  | nothing : Alters destination sequence made s s []
  | makes {g : GroupWriter} {opened s' : Store} : sequence ∉ made.map GroupEntry.sequence →
      s.createGroup destination sequence = .ok (g, opened) → Store.Served g.group opened s' →
      Alters destination sequence made s s' [⟨g.group, sequence⟩]
  | fills {e : GroupEntry} {s' : Store} : e ∈ made → e.sequence = sequence →
      Store.Served e.group s s' → Alters destination sequence made s s' []

section

variable {doomed assured : Prop} {s : Store} {made : List GroupEntry} {header : GroupHeader}
  {source : GroupId} {d : Delivery}

/-- A delivery that has not begun. -/
theorem Carries.start {cursor : GroupCursor} (due : Span) (destination : TrackWriter)
    (hposition : cursor.position = 0) (hactive : cursor.active = none) (hassured : ¬ assured)
    (hnew : cursor.sequence ∉ made.map GroupEntry.sequence) :
    Carries doomed assured s made (Delivery.header cursor.sequence destination.info.priority)
      cursor.group (.start due cursor destination) := by
  have hstood := Stood.start (Delivery.header cursor.sequence destination.info.priority) cursor s
    hposition hactive
  have hlisted : Listed made cursor.sequence .opening := by
    refine ⟨fun _ => hnew, fun h g phase heq => ?_⟩
    cases heq
  refine @Carries.underway _ _ _ _ _ _ _ _ _ [] _ hstood (fun _ heq => ?_) ?_ (.opening rfl) hlisted
  · cases heq
  · exact fun h => absurd h hassured

/-- **A delivery is kept by what the others do.** -/
theorem Carries.later {s' : Store} {made' : List GroupEntry}
    (h : Carries doomed assured s made header source d) (hgrows : s.Grows s')
    (hspares : ∀ e ∈ made, e.sequence = header.groupId → Store.Spares e.group s s')
    (hmade : made ⊆ made')
    (hnew : header.groupId ∉ made.map GroupEntry.sequence →
      header.groupId ∉ made'.map GroupEntry.sequence) :
    Carries doomed assured s' made' header source d := by
  cases h with
  | underway hstood hdoomed hassured hstays hlisted =>
      refine .underway (hstood.later hgrows) hdoomed hassured (hstays.spared ?_)
        ⟨hnew ∘ hlisted.opening, fun h g phase heq => hmade (hlisted.body h g phase heq)⟩
      rintro g phase rfl
      exact hspares _ (hlisted.body header g phase rfl) rfl
  | done harrived => exact .done (harrived.later hgrows hspares hmade)

theorem Carries.header_eq (h : Carries doomed assured s made header source d) {st : Sending}
    (hst : d.sender = some st) : st.header = header := by
  cases h with
  | underway hstood =>
      obtain rfl := Option.some.inj hst
      exact hstood.now.header_eq
  | done => cases hst

/-- The group of a delivery that is done has arrived. -/
theorem Carries.arrived (h : Carries doomed assured s made header source d) (hdone : d.isDone = true) :
    Arrived doomed assured s made header.groupId source := by
  cases h with
  | underway => cases hdone
  | done harrived => exact harrived

/-- A group may be called doomed as long as it is not wholly sent, and assured when it is wholly sent and
    whole. -/
theorem Carries.renew {doomed' assured' : Prop} (h : Carries doomed assured s made header source d)
    (hdoomed : doomed' → ∃ st, d.sender = some st ∧ st.phase ≠ .finish)
    (hassured : assured' → Transmission.WholeGroup s source ∧
      ∀ st, d.sender = some st → st.phase = .finish) :
    Carries doomed' assured' s made header source d := by
  cases h with
  | @underway due sender receiver out buffer hstood _ _ hstays hlisted =>
      refine .underway hstood (fun h => ?_) (fun h => (hassured h).2 sender rfl) hstays hlisted
      obtain ⟨st, heq, hphase⟩ := hdoomed h
      obtain rfl := Option.some.inj heq
      exact hphase
  | done harrived =>
      refine .done (harrived.renew (fun h => ?_) fun h => (hassured h).1)
      obtain ⟨st, heq, -⟩ := hdoomed h
      cases heq

/-- A delivery whose sender has nothing left to put out has made its group. -/
theorem Carries.begun (h : Carries doomed assured s made header source d)
    (hidle : ∀ st, d.sender = some st → Idle st) : d.receiver ≠ some .opening := by
  cases h with
  | done => exact nofun
  | underway hstood _ _ hstays =>
      intro heq
      obtain rfl := Option.some.inj heq
      obtain ⟨sent, hrun⟩ := hstood.header_read (hidle _ rfl)
      cases hstays with
      | opening hshort =>
          rw [hrun] at hshort
          cases hshort

/-- A group that was made is on the list. -/
theorem Carries.listed (h : Carries doomed assured s made header source d)
    (hbegun : d.receiver ≠ some .opening) : header.groupId ∈ made.map GroupEntry.sequence := by
  cases h with
  | done harrived =>
      obtain ⟨e, he, hsequence, -⟩ := harrived
      exact hsequence ▸ List.mem_map_of_mem he
  | @underway _ _ receiver _ _ _ _ _ hstays hlisted =>
      cases hstays with
      | opening => exact absurd rfl hbegun
      | body => exact List.mem_map_of_mem (hlisted.body _ _ _ rfl)

-- ── one poll ────────────────────────────────────────────────────────

/-- What a receiver works on is a group that is made behind the network. -/
theorem Listed.works {destination : TrackWriter} {sequence : Nat} {receiver : Receiving}
    {g : GroupWriter} {s' : Store} (h : Listed made sequence receiver)
    (hworks : Receiving.Works destination sequence s g receiver s') :
    ∃ new, Alters destination sequence made s s' new ∧ ⟨g.group, sequence⟩ ∈ made ++ new ∧
      s.Grows s' := by
  cases hworks with
  | makes hmade hserved =>
      refine ⟨_, .makes (h.opening rfl) hmade hserved, ?_, ?_⟩
      · exact List.mem_append_right made List.mem_cons_self
      · exact (Store.Grows.createGroup hmade).trans hserved.grows
  | fills hserved =>
      have he := h.body _ _ _ rfl
      exact ⟨[], .fills he rfl hserved, List.mem_append_left [] he, hserved.grows⟩

variable {destination : TrackWriter} {receiver : Receiving} {out buffer bs : Bytes}

/-- The receiver's part of a poll while the sender goes on. -/
theorem Carries.onward {hd : Bytes} {sender : Sending} (due : Span)
    (hstood : Stood header source s sender (out ++ bs ++ sender.unsent))
    (hencode : header.encode = .ok hd) (hend : header.flags.hasEnd = false)
    (hdoomed : doomed → sender.phase ≠ .finish) (hassured : assured → sender.phase = .finish)
    (hstays : Receiving.Stays header s out receiver buffer) (hlisted : Listed made header.groupId receiver)
    (hcreate : header.groupId ∉ made.map GroupEntry.sequence →
      ∃ x, s.createGroup destination header.groupId = .ok x) :
    let after := Delivery.receive destination s
      ⟨due, some sender, some receiver, ⟨buffer, arrivals bs .wait⟩⟩
    ∃ new, Alters destination header.groupId made s after.2 new ∧
      Carries doomed assured after.2 (made ++ new) header source after.1 := by
  have hpoll := hstays.onward hend (hstood.promising hencode) (hcreate ∘ hlisted.opening)
  rw [← arrivals_eq] at hpoll
  unfold receive
  dsimp only
  generalize receiver.poll destination s ⟨buffer, arrivals bs .wait⟩ = x at hpoll
  cases hpoll with
  | unread hshort =>
      refine ⟨[], .nothing, ?_⟩
      rw [List.append_nil]
      exact .underway hstood hdoomed hassured (.opening hshort) hlisted
  | filled hrun hrests hworks =>
      obtain ⟨new, halters, hmem, hgrows⟩ := hlisted.works hworks
      refine ⟨new, halters, .underway (hstood.later hgrows) hdoomed hassured (.body hrun hrests) ?_⟩
      refine ⟨fun heq => ?_, fun h g phase heq => ?_⟩
      · cases heq
      · obtain ⟨-, rfl, -⟩ := Receiving.body.inj heq
        exact hmem

/-- The receiver's part of a poll when the sender has stopped behind the header. The verdict is that on
    what was sent. -/
theorem Carries.last {sent : Bytes} (due : Span)
    (hrun : GroupHeader.decode.run (out ++ bs) = (.ok header, sent))
    (hstays : Receiving.Stays header s out receiver buffer) (hlisted : Listed made header.groupId receiver)
    (hcreate : header.groupId ∉ made.map GroupEntry.sequence →
      ∃ x, s.createGroup destination header.groupId = .ok x)
    (hcarried : ∀ s' target payloads, s.Grows s' → s'.Complete target payloads →
      (∀ other, Body header.flags other sent ↔ other = payloads) →
      Verdict doomed assured s' source target)
    (hlost : ∀ s' target, s.Grows s' → s'.Aborted target →
      (∀ payloads, ¬ Body header.flags payloads sent) → Verdict doomed assured s' source target) :
    let after := Delivery.receive destination s
      ⟨due, none, some receiver, ⟨buffer, arrivals bs .finish⟩⟩
    ∃ new, Alters destination header.groupId made s after.2 new ∧
      Carries doomed assured after.2 (made ++ new) header source after.1 ∧ after.1.isDone = true := by
  have hpoll := hstays.ended hrun (hcreate ∘ hlisted.opening)
  rw [← arrivals_eq] at hpoll
  unfold receive
  dsimp only
  generalize receiver.poll destination s ⟨buffer, arrivals bs .finish⟩ = x at hpoll
  cases hpoll with
  | complete hworks hcomplete honly =>
      obtain ⟨new, halters, hmem, hgrows⟩ := hlisted.works hworks
      have hverdict := hcarried _ _ _ hgrows hcomplete honly
      exact ⟨new, halters, .done ⟨_, hmem, rfl, hverdict⟩, rfl⟩
  | aborted hworks haborted hnone =>
      obtain ⟨new, halters, hmem, hgrows⟩ := hlisted.works hworks
      have hverdict := hlost _ _ hgrows haborted hnone
      exact ⟨new, halters, .done ⟨_, hmem, rfl, hverdict⟩, rfl⟩

theorem receive_sender (destination : TrackWriter) (s : Store) (d : Delivery) :
    (d.receive destination s).1.sender = d.sender := by
  unfold receive
  split
  · rfl
  · split <;> rfl

/-- A delivery is due when it was. -/
theorem pollWithin_due (room : Option Nat) (destination : TrackWriter) (s : Store) (held : Holdings)
    (d : Delivery) : (d.pollWithin room destination s held).1.due = d.due := by
  have hreceive : ∀ d : Delivery, (d.receive destination s).1.due = d.due := by
    intro d
    unfold receive
    split
    · rfl
    · split <;> rfl
  rw [pollWithin, hreceive]
  unfold sendWithin
  split
  · rfl
  · split <;> rfl

theorem receiver_of_isDone (h : d.isDone = true) : d.receiver ≠ some .opening := by
  intro heq
  rw [isDone, heq, Option.isNone_some, Bool.and_false] at h
  cases h

/-- **A poll carries the group on.** It is done when nothing holds it up, and when there is room for all
    the group was made at least. -/
theorem Carries.poll {held : Holdings} {hd : Bytes}
    (h : Carries doomed assured s made header source d) (room : Option Nat)
    (hend : header.flags.hasEnd = false) (hencode : header.encode = .ok hd)
    (hdoomed : doomed → ∃ e, (s.group source).ending = some (.aborted e))
    (hread : ∀ st, d.sender = some st → .groupCursor st.cursor.group ∈ held)
    (hwritten : (s.group source).ending = none → .groupWriter source ∈ held)
    (hcreate : header.groupId ∉ made.map GroupEntry.sequence →
      ∃ x, s.createGroup destination header.groupId = .ok x) :
    let after := d.pollWithin room destination s held
    ∃ new, Alters destination header.groupId made s after.2 new ∧
      Carries doomed assured after.2 (made ++ new) header source after.1 ∧
      (room = none → ¬ Unfinished s source → after.1.isDone = true) ∧
      (room = none → after.1.receiver ≠ some .opening) := by
  cases h with
  | done harrived =>
      refine ⟨[], .nothing, ?_, fun _ _ => rfl, fun _ => nofun⟩
      rw [List.append_nil]
      exact .done harrived
  | @underway due sender receiver out buffer hstood hbefore hafter hstays hlisted =>
      have hround := @poll_round header source s held sender hd out hstood hencode room
      have hreader : Holding.groupCursor source ∈ held := hstood.now.group_eq ▸ hread sender rfl
      have hpipe : { sink ⟨due, some sender, some receiver, ⟨buffer, []⟩⟩ with blockAfter := room } =
        pipe room := rfl
      unfold pollWithin sendWithin
      dsimp only
      rw [hpipe]
      generalize sender.poll s held (pipe room) = x at hround
      obtain ⟨turn, k⟩ := x
      dsimp only at hround
      cases hround with
      | wait hstood' hwait hidle hphase hfinish =>
          have hdoomed' : doomed → _ := fun h => hphase ⟨hdoomed h, hbefore h⟩
          obtain ⟨new, halters, hcarries⟩ := Carries.onward due hstood' hencode hend hdoomed'
            (fun h => hfinish (hafter h)) hstays hlisted hcreate
          refine ⟨new, halters, hcarries, ?_, ?_⟩
          · rintro rfl hnot
            rcases hwait with hopen | hblocked
            · exact absurd hopen hnot
            · exact absurd rfl hblocked
          · rintro rfl
            refine hcarries.begun fun st hst => ?_
            rw [receive_sender] at hst
            obtain rfl := Option.some.inj hst
            exact hidle.resolve_left fun hblocked => hblocked rfl
      | failed hstood' hbegun hnot hearly hunfair =>
          obtain ⟨sent, hrun, hnone⟩ := hstood'.cut hbegun hnot hend
          have hnever : ∀ s', s.Grows s' → ∀ fin, s'.Grows fin →
              ¬ Transmission.WholeGroup fin source := fun s' hgrows fin hfin hwhole =>
            hunfair fin (hgrows.trans hfin)
              ⟨⟨hd, hencode⟩, rfl, rfl, hreader, hwritten, hwhole.closed, hwhole.whole⟩
          obtain ⟨new, halters, hcarries, hdone⟩ := Carries.last due hrun hstays hlisted hcreate
            (fun s' target payloads hgrows hcomplete honly =>
              absurd ((honly payloads).mpr rfl) (hnone payloads))
            fun s' target hgrows haborted _ =>
              .lost (fun h => hearly (hafter h)) haborted (hnever s' hgrows)
          exact ⟨new, halters, hcarries, fun _ _ => hdone, fun _ => receiver_of_isDone hdone⟩
      | succeeded hstood' hphase hnot =>
          obtain ⟨sent, hrun, hbody⟩ := hstood'.whole hphase
          have hundoomed : ¬ doomed := fun h => hnot ⟨hdoomed h, hbefore h⟩
          obtain ⟨new, halters, hcarries, hdone⟩ := Carries.last due hrun hstays hlisted hcreate
            (fun s' target payloads hgrows hcomplete honly => .carried hundoomed fun fin hfin =>
              (honly _).mp (hbody fin (hgrows.trans hfin)) ▸ hcomplete)
            fun s' target hgrows _ hnone => absurd (hbody s (.refl s)) (hnone _)
          exact ⟨new, halters, hcarries, fun _ _ => hdone, fun _ => receiver_of_isDone hdone⟩

end

end Delivery

end LiveMedia.Simulation
