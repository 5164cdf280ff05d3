import LiveMedia.Proofs.Transfer.Transmission

/-!
# A group that was cut short is not taken for a complete one

A stream may end anywhere: the connection is lost, or the sender gives up because its group was aborted,
its publisher went away or a frame was not what it said. A receiver reads the bytes before the cut and
then the end of the stream. Without the end flag it never closes the group. With the flag it closes the
group only if the cut is between objects, and the group then has the frames before the cut
(`ReceivedCut`).

For streams that are complete but for the cut this is `Ahead.cut`: a body inside a body is all of it, or
its objects are the first ones. A sender that has failed may have no complete stream of its own, as the
rest of a frame may never come. But what it has put out can always be completed, with any bytes in place
of those that are missing (`Sent.completes`), and that is enough.
-/

namespace LiveMedia.Transfer

open LiveMedia.Wire LiveMedia.Message LiveMedia.Live LiveMedia.Stream

-- ── cuts of complete streams ────────────────────────────────────────

/-- What a receiver may make of the front `cut` of a stream of a group with the header, when the payloads
    in `offered` were to be sent. -/
inductive ReceivedCut (track : TrackWriter) (s : Store) (header : GroupHeader) (offered : List Bytes)
    (cut : Bytes) : Receiving.Outcome → Prop where
  /-- The cut is inside the header. -/
  | unread {e : TransportError} {r' : Reader} : (GroupHeader.decode.run cut).1 = .error .short →
      ReceivedCut track s header offered cut (.stop (.error e), s, r')
  /-- The track does not take the group. -/
  | refused {e : TransportError} {front : Bytes} {r' : Reader} :
      GroupHeader.decode.run cut = (.ok header, front) →
      s.createGroup track header.groupId = .error e →
      ReceivedCut track s header offered cut (.stop (.error e), s, r')
  | aborted {s' : Store} {front : Bytes} {r' : Reader} :
      GroupHeader.decode.run cut = (.ok header, front) → s'.Aborted s.groups.size →
      ReceivedCut track s header offered cut (.stop (.ok header), s', r')
  /-- The cut is between objects, and the group ends with its stream. -/
  | between {s' : Store} {front : Bytes} {r' : Reader} {held : List Bytes} :
      header.flags.hasEnd = true → GroupHeader.decode.run cut = (.ok header, front) →
      Body header.flags held front → held <+: offered → s'.Complete s.groups.size held →
      ReceivedCut track s header offered cut (.stop (.ok header), s', r')

section Cuts

variable {track : TrackWriter} {s : Store} {header : GroupHeader} {hd body cut left : Bytes}
  {payloads offered : List Bytes} {r : Reader}

/-- A cut inside the header leaves too little of it. -/
theorem short_of_cut (hhd : GroupHeader.decode.run hd = (.ok header, []))
    (hcut : cut ++ left = hd ++ body) (hlt : cut.length < hd.length) :
    (GroupHeader.decode.run cut).1 = .error .short := by
  obtain ⟨more, rfl⟩ : cut <+: hd := by
    refine List.prefix_of_prefix_length_le (List.prefix_append cut left) ?_ (Nat.le_of_lt hlt)
    exact hcut ▸ List.prefix_append hd body
  refine GroupHeader.incremental.short_of_lt hhd ?_
  rintro rfl
  rw [List.append_nil] at hlt
  exact Nat.lt_irrefl _ hlt

/-- **A front of a complete stream.** The objects in it are offered ones if all are that come before
    another end of the group. -/
theorem received_cut (htrack : track.track < s.tracks.size)
    (hhd : GroupHeader.decode.run hd = (.ok header, [])) (hbody : Body header.flags payloads body)
    (hcut : cut ++ left = hd ++ body) (hcontent : r.content = cut)
    (hleft : header.flags.hasEnd = false → left ≠ [])
    (hoffered : ∀ held later, header.flags.hasEnd = true → payloads = held ++ later →
      Body header.flags later left → held <+: offered) :
    ReceivedCut track s header offered cut (Receiving.receive track s r) := by
  by_cases hlt : cut.length < hd.length
  · have hshort := short_of_cut hhd hcut hlt
    have hread := hshort
    rw [← hcontent] at hread
    obtain ⟨r', hreceive⟩ := Receiving.receive_unread track s hread
    rw [hreceive]
    exact .unread hshort
  · obtain ⟨front, rfl⟩ : hd <+: cut := by
      refine List.prefix_of_prefix_length_le (List.prefix_append hd body) ?_ (Nat.le_of_not_lt hlt)
      exact hcut ▸ List.prefix_append cut left
    rw [List.append_assoc] at hcut
    obtain rfl := List.append_cancel_left hcut
    have hrun : GroupHeader.decode.run (hd ++ front) = (.ok header, front) :=
      GroupHeader.incremental.run_eq_ok_iff.mpr ⟨hd, rfl, hhd⟩
    have hread := hrun
    rw [← hcontent] at hread
    cases hcreate : s.createGroup track header.groupId with
    | error e =>
        obtain ⟨r', hreceive⟩ := Receiving.receive_refused hread hcreate
        rw [hreceive]
        exact .refused hrun hcreate
    | ok made =>
        obtain ⟨s', r', hreceive, hreceived⟩ := Receiving.receive_received htrack hread hcreate
        rw [hreceive]
        rcases hreceived.ended with ⟨held, hcomplete⟩ | haborted
        · obtain ⟨-, hheld⟩ := (hreceived.complete_iff held).mp hcomplete
          obtain ⟨hnothing, later, hpayloads, hlater⟩ := hheld.ahead.cut hbody.ahead
          cases hend : header.flags.hasEnd with
          | false => exact absurd (hnothing hend) (hleft hend)
          | true =>
              have hrest := ahead_object_iff.mp (hlater hend)
              exact .between hend hrun hheld (hoffered held later hend hpayloads hrest) hcomplete
        · exact .aborted hrun haborted

end Cuts

-- ── what a sender leaves behind ─────────────────────────────────────

/-- The bytes of a frame, as many as were announced. -/
def announced (s : Store) (w : FrameWriter) : Bytes := (s.frame w.frame).payload.take w.size

section Senders

variable {fin s : Store} {header : GroupHeader} {g : GroupId} {st : Sending} {out : Bytes}

theorem sentPayload_eq_announced {w : FrameWriter} (h : Fits s w) : sentPayload s w = announced s w := by
  obtain ⟨hlength, -⟩ := h
  unfold sentPayload at hlength ⊢
  unfold announced
  split at hlength
  · next hzero => rw [if_pos hzero, hzero, List.take_zero]
  · next hne => rw [if_neg hne, List.take_of_length_le (Nat.le_of_eq hlength)]

theorem map_sentPayload_eq {ws : List FrameWriter} (h : ∀ w ∈ ws, Fits s w) :
    ws.map (sentPayload s) = ws.map (announced s) :=
  List.map_congr_left fun w hw => sentPayload_eq_announced (h w hw)

/-- What was sent in full is the front of what was to be sent. -/
theorem sentPayload_begins {done : List FrameWriter} (rest : List FrameWriter) (h : ∀ w ∈ done, Fits s w) :
    done.map (sentPayload s) <+: (done ++ rest).map (announced s) := by
  rw [map_sentPayload_eq h, List.map_append]
  exact List.prefix_append _ _

theorem groupEnding_ne_nil (hend : header.flags.hasEnd = false) : groupEnding header ≠ [] := by
  unfold groupEnding
  rw [hend, if_neg Bool.false_ne_true]
  intro hnil
  have hstatus : Spells statusEndOfGroup (Varint.encode ⟨statusEndOfGroup⟩) := spells_encode (by decide)
  exact hstatus.ne_nil (List.append_eq_nil_iff.mp (List.append_eq_nil_iff.mp hnil).2).2

/-- What is `left` completes what is `behind` a sender. -/
structure Completes (header : GroupHeader) (offered : List Bytes) (phase : SendPhase)
    (behind left : Bytes) (payloads : List Bytes) : Prop where
  body : Body header.flags payloads (behind ++ left)
  /-- Before the last phase something is missing. -/
  missing : header.flags.hasEnd = false → phase ≠ .finish → left ≠ []
  /-- The last payload may be one that was not offered, if something is missing of it. -/
  offered : payloads <+: offered ∨ left ≠ [] ∧ payloads.dropLast <+: offered

/-- An object that was begun is completed by what is missing of it and the end. -/
theorem Completes.object {done rest : List FrameWriter} {w : FrameWriter} {phase : SendPhase}
    {begun missing : Bytes} (payload : Bytes) (hfits : ∀ w ∈ done, Fits fin w)
    (hpayload : payload.length ≤ Varint.compactMaximum)
    (hobject : begun ++ missing = objectBytes header payload)
    (hoffered : payload = announced fin w ∨ missing ≠ []) :
    Completes header ((done ++ w :: rest).map (announced fin)) phase
      (sentObjects header fin done ++ begun) (missing ++ groupEnding header)
      (done.map (sentPayload fin) ++ [payload]) := by
  refine ⟨?_, ?_, ?_⟩
  · rw [List.append_assoc, ← List.append_assoc begun, hobject]
    exact body_objectsBytes (length_sentPayload_le hfits)
      (.object (object_objectBytes header hpayload) (.terminator (terminator_groupEnding header)))
  · intro hend _ hnil
    exact groupEnding_ne_nil hend (List.append_eq_nil_iff.mp hnil).2
  · rcases hoffered with rfl | hmissing
    · left
      rw [map_sentPayload_eq hfits, List.map_append, List.map_cons]
      exact ⟨rest.map (announced fin), List.append_assoc _ _ _⟩
    · right
      constructor
      · intro hnil
        exact hmissing (List.append_eq_nil_iff.mp hnil).1
      · rw [List.dropLast_concat]
        exact sentPayload_begins _ hfits

/-- **What a sender has put out can be completed.** -/
theorem Sent.completes {frames : List FrameWriter} {phase : SendPhase} {position : Nat}
    {behind : Bytes} (h : Sent fin header frames phase position behind) :
    ∃ left payloads, Completes header (frames.map (announced fin)) phase behind left payloads := by
  cases h with
  | nextFrame hframes hfits =>
      subst hframes
      refine ⟨groupEnding header, _, Transmission.body_sent header hfits, ?_,
        .inl (sentPayload_begins _ hfits)⟩
      intro hend _
      exact groupEnding_ne_nil hend
  | size hframes hfits =>
      -- an empty frame takes the place of the one that was begun
      subst hframes
      refine ⟨_, _, .object [] hfits (Nat.zero_le _) rfl (.inr ?_)⟩
      intro hnil
      exact spells_zero.ne_nil (List.append_eq_nil_iff.mp hnil).1
  | @payload done rest w chunks more left hframes hfits hchunks hne hsize hleft =>
      -- any bytes take the place of those that are missing
      subst hframes
      let payload := chunks.flatten ++ List.replicate left 0
      have hlength : payload.length = w.size := by
        rw [List.length_append, List.length_replicate, hleft]
      have hfull : payload ≠ [] := by
        intro hnil
        rw [hnil] at hlength
        exact hne hlength.symm
      have hobject : objectOpening header ++ (Varint.encode ⟨w.size⟩ ++ chunks.flatten) ++
          List.replicate left 0 = objectBytes header payload := by
        rw [objectBytes, if_neg hfull, hlength]
        simp only [payload, List.append_assoc]
      refine ⟨_, _, .object payload hfits (hlength ▸ hsize) hobject ?_⟩
      cases left with
      | zero =>
          left
          have hflatten : (fin.frame w.frame).payload = chunks.flatten ++ more.flatten := by
            rw [Frame.payload, hchunks, List.flatten_append]
          rw [announced, hflatten, ← hleft]
          exact (List.append_nil _).trans List.take_left.symm
      | succ left =>
          right
          exact List.cons_ne_nil _ _
  | finish hfits =>
      have hbody := Transmission.body_sent header hfits
      rw [← List.append_nil (sentObjects header fin frames ++ groupEnding header)] at hbody
      refine ⟨[], _, hbody, fun _ hphase => absurd rfl hphase, .inl ⟨[], ?_⟩⟩
      rw [List.append_nil]
      exact map_sentPayload_eq hfits

/-- **What a receiver makes of what a sender has put out**, if that is cut or the sender was not at its
    end. -/
theorem Stands.received_cut {track : TrackWriter} {s' : Store} {r : Reader} {cut more : Bytes}
    (h : Stands fin header g s st out) (htrack : track.track < s'.tracks.size)
    (hcut : cut ++ more = out) (hcontent : r.content = cut)
    (hmore : header.flags.hasEnd = false → more ≠ [] ∨ st.phase ≠ .finish) :
    ReceivedCut track s' header ((fin.group g).frames.map (announced fin)) cut
      (Receiving.receive track s' r) := by
  obtain ⟨-, -, hout⟩ | ⟨hd, behind, hencode, hout, hsent⟩ := h.sent
  · -- not even the header was begun
    rw [hout] at hcut
    obtain ⟨rfl, -⟩ := List.append_eq_nil_iff.mp hcut
    have hshort : (GroupHeader.decode.run []).1 = .error .short := rfl
    have hread := hshort
    rw [← hcontent] at hread
    obtain ⟨r', hreceive⟩ := Receiving.receive_unread track s' hread
    rw [hreceive]
    exact .unread hshort
  · obtain ⟨left, payloads, hbody, hmissing, hoffered⟩ := hsent.completes
    have hhd := GroupHeader.inverts header hd hencode []
    rw [List.append_nil] at hhd
    have hstream : cut ++ (more ++ left) = hd ++ (behind ++ left) := by
      rw [← List.append_assoc, hcut, hout, List.append_assoc]
    refine Transfer.received_cut htrack hhd hbody hstream hcontent ?_ ?_
    · intro hend hnil
      obtain ⟨hmore', hleft⟩ := List.append_eq_nil_iff.mp hnil
      rcases hmore hend with hne | hphase
      · exact hne hmore'
      · exact hmissing hend hphase hleft
    · rintro held later hend rfl hlater
      rcases hoffered with hprefix | ⟨hleft, hprefix⟩
      · exact (List.prefix_append held later).trans hprefix
      · -- what is missing belongs to a payload that the receiver does not have
        have hne : later ≠ [] := by
          rintro rfl
          exact hleft (List.append_eq_nil_iff.mp (hlater.eq_nil hend)).2
        rw [List.dropLast_append_of_ne_nil hne] at hprefix
        exact (List.prefix_append held later.dropLast).trans hprefix

/-- The stream has taken a header and a body with all frames of the group, and cannot be ended. -/
structure Transmission.EndRefused (t : Transmission) (header : GroupHeader) (g : GroupId) : Prop where
  refused : t.sink.refusal ≠ none
  complete : ∃ hd body, t.sink.written = hd ++ body ∧ GroupHeader.decode.run hd = (.ok header, []) ∧
    Body header.flags ((t.store.group g).frames.map (announced t.store)) body

/-- A sender at its end has put out all of the group. -/
theorem Stands.endRefused {t : Transmission} {st : Sending}
    (h : Stands t.store header g t.store st t.sink.written) (hphase : st.phase = .finish)
    (hrefusal : t.sink.refusal ≠ none) : t.EndRefused header g := by
  obtain ⟨hd, hencode, hout, hfits⟩ := h.stream hphase
  have hhd := GroupHeader.inverts header hd hencode []
  rw [List.append_nil] at hhd
  have hbody := Transmission.body_sent header hfits
  rw [map_sentPayload_eq hfits] at hbody
  exact ⟨hrefusal, hd, _, hout, hhd, hbody⟩

/-- Whatever a sender does next, it stands somewhere, and one that has failed is not at its end, unless
    the end was refused. -/
theorem Transmission.Reached.stands {t : Transmission}
    (h : Transmission.Reached t.store header g t.store t.turn t.sink) :
    ∃ st rest, Stands t.store header g t.store st (t.sink.written ++ rest) ∧
      ∀ e, t.turn = .stop (.error e) → (rest ≠ [] ∨ st.phase ≠ .finish) ∨ t.EndRefused header g := by
  obtain ⟨store, turn, sink⟩ := t
  have hwhole : ∀ {st : Sending}, Stands store header g store st sink.written →
      Stands store header g store st (sink.written ++ []) := fun h => (List.append_nil _).symm ▸ h
  cases h with
  | go h => exact ⟨_, _, h, fun _ heq => nomatch heq⟩
  | wait h => exact ⟨_, _, h, fun _ heq => nomatch heq⟩
  | failed h hrest => exact ⟨_, _, h, fun _ _ => .inl hrest⟩
  | refused h hphase hrefusal =>
      exact ⟨_, _, hwhole h, fun _ _ => .inr (h.endRefused hphase hrefusal)⟩
  | succeeded h _ _ => exact ⟨_, _, hwhole h, fun _ heq => nomatch heq⟩

end Senders

-- ── the result ──────────────────────────────────────────────────────

open Transmission in
/-- **A group that was cut short is not taken for a complete one.** On any track:

    * a front of a complete stream is received as `ReceivedCut` says, and without the end flag this is
      so for a proper front: it is an error if the cut is inside the header or the track does not take
      the group, and else the group is aborted;
    * and so is a front of what a sender has written at any moment, with whatever a publisher did to the
      group. Without the end flag the front is a proper one, or the sender has failed.

    Only a group that ends with its stream may be complete then. The cut is between objects, and the
    group has the payloads before the cut.

    One failure comes too late to cut anything: the stream has taken all of the group, and then it cannot
    be ended (`EndRefused`). What such a sender has written is no front of the stream but all of it. -/
theorem truncated_never_complete (track : TrackWriter) (s : Store) (r : Reader)
    (htrack : track.track < s.tracks.size) :
    (∀ header hd body payloads cut left,
      GroupHeader.decode.run hd = (.ok header, []) → Body header.flags payloads body →
      cut ++ left = hd ++ body → r.content = cut → (header.flags.hasEnd = false → left ≠ []) →
      ReceivedCut track s header payloads cut (Receiving.receive track s r)) ∧
    (∀ header g store (sink : Sink) ms cut, sink.written = [] → r.content = cut →
      let t := (start header g store sink).run ms
      cut <+: t.sink.written →
      (header.flags.hasEnd = false → cut ≠ t.sink.written ∨ ∃ e, t.turn = .stop (.error e)) →
      ReceivedCut track s header ((t.store.group g.group).frames.map (announced t.store)) cut
          (Receiving.receive track s r) ∨
        header.flags.hasEnd = false ∧ cut = t.sink.written ∧ t.EndRefused header g.group) := by
  refine ⟨?_, ?_⟩
  · intro header hd body payloads cut left hhd hbody hcut hcontent hleft
    refine received_cut htrack hhd hbody hcut hcontent hleft ?_
    rintro held later - rfl -
    exact List.prefix_append held later
  · intro header g store sink ms cut hsink hcontent t hprefix hproper
    have hreached : Reached t.store header g.group t.store t.turn t.sink :=
      run_reached ms (.refl _) (reached_start t.store header g store hsink)
    obtain ⟨st, rest, hstands, hfailed⟩ := hreached.stands
    obtain ⟨more, hwritten⟩ := hprefix
    have hout : cut ++ (more ++ rest) = t.sink.written ++ rest := by
      rw [← List.append_assoc, hwritten]
    have hreceived := hstands.received_cut htrack hout hcontent
    by_cases hproperly : header.flags.hasEnd = true ∨ cut ≠ t.sink.written
    · refine .inl (hreceived fun hend => .inl fun hnil => ?_)
      rcases hproperly with hflag | hne
      · cases hend.symm.trans hflag
      · refine hne ?_
        rw [← hwritten, (List.append_eq_nil_iff.mp hnil).1, List.append_nil]
    · obtain ⟨hend, hcut⟩ := not_or.mp hproperly
      have hend : header.flags.hasEnd = false := eq_false_of_ne_true hend
      have hcut : cut = t.sink.written := Decidable.byContradiction hcut
      obtain ⟨e, herror⟩ := (hproper hend).resolve_left (not_not_intro hcut)
      rcases hfailed e herror with hmissing | hended
      · exact .inl (hreceived fun _ => hmissing.imp_left fun hrest hnil =>
          hrest (List.append_eq_nil_iff.mp hnil).2)
      · exact .inr ⟨hend, hcut, hended⟩

open Transmission in
/-- The last writer of a group goes away behind a whole frame. -/
def abandoned : Transmission :=
  (start ⟨⟨false, false, false, false⟩, 0, 7, 0, 0⟩ ⟨0, 7⟩ (Store.empty.newGroup 7).2 .unlimited).run
    ([.write (.createFrame ⟨0, 7⟩ 1), .write (.writeChunk ⟨0, 1⟩ [65]), .write (.closeFrame ⟨0, 1⟩)] ++
      List.replicate 9 (.step [.groupWriter 0]) ++ [.step []])

theorem truncated_never_complete_abandoned :
    let made := Store.empty.newTrack ⟨"audio", 0⟩
    made.1.track < made.2.tracks.size ∧ abandoned.turn = .stop (.error .dropped) ∧
      ∃ s' r', Receiving.receive made.1 made.2 ⟨abandoned.sink.written, []⟩ =
          (.stop (.ok ⟨⟨false, false, false, false⟩, 0, 7, 0, 0⟩), s', r') ∧ s'.Aborted 0 := by
  intro made
  have hturn : abandoned.turn = .stop (.error .dropped) := rfl
  have hwritten : abandoned.sink.written = [16, 0, 7, 0, 0, 1, 65] := rfl
  refine ⟨Nat.zero_lt_one, hturn, ?_⟩
  have h := (truncated_never_complete made.1 made.2 ⟨abandoned.sink.written, []⟩ Nat.zero_lt_one).2
    _ ⟨0, 7⟩ _ _ _ abandoned.sink.written rfl (List.append_nil _) List.prefix_rfl
    fun _ => .inr ⟨_, hturn⟩
  have h := h.resolve_right fun ⟨_, _, hended⟩ => hended.refused rfl
  rw [hwritten] at h ⊢
  generalize Receiving.receive made.1 made.2 ⟨[16, 0, 7, 0, 0, 1, 65], []⟩ = x at h
  cases h with
  | unread hshort => exact nomatch hshort
  | refused _ herror => exact nomatch herror
  | aborted _ haborted => exact ⟨_, _, rfl, haborted⟩
  | between hend _ _ _ _ => exact nomatch hend

open Transmission in
/-- An empty group is written and closed, and then its stream cannot be ended. -/
def unended : Transmission :=
  (start ⟨⟨false, false, false, false⟩, 0, 7, 0, 0⟩ ⟨0, 7⟩ (Store.empty.newGroup 7).2
    { Sink.unlimited with refusal := some .brokenPipe }).run
    (.write (.closeGroup ⟨0, 7⟩) :: List.replicate 5 (.step []))

-- this sender fails too, and still whoever reads its stream gets a complete group
example :
    let made := Store.empty.newTrack ⟨"audio", 0⟩
    let received := Receiving.receive made.1 made.2 ⟨unended.sink.written, []⟩
    unended.turn = .stop (.error (.io .brokenPipe)) ∧ unended.sink.finished = false ∧
      (received.2.1.group 0).ending = some .complete ∧ (received.2.1.group 0).frames = [] :=
  ⟨rfl, rfl, rfl, rfl⟩

end LiveMedia.Transfer
