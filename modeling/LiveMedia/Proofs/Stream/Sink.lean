import LiveMedia.Stream.Sink

/-!
# What a sink has written

A write delivers a front of the bytes, and what it did not deliver it gives back or, when the stream
fails, is lost. `Sink.Writes` says so by its three cases. A write that is not complete has met one of the
limits. The end of the stream adds and takes no bytes, whether it succeeds or not.
-/

namespace LiveMedia.Stream

open LiveMedia.Wire

namespace Sink

/-- What a write comes to. -/
inductive Writes (k : Sink) (bs : Bytes) : WriteResult × Sink → Prop where
  | complete : Writes k bs (.complete, { k with written := k.written ++ bs })
  | blocked {written rest : Bytes} : k.blockAfter ≠ none → written ++ rest = k.written ++ bs →
      Writes k bs (.blocked rest, { k with written })
  | failed {written rest : Bytes} {e : TransportError} : k.failAfter ≠ none → rest ≠ [] →
      written ++ rest = k.written ++ bs → Writes k bs (.failed e, { k with written })

/-- A stream that refuses nothing is ended. -/
theorem finish_of_endable {k : Sink} (h : k.refusal = none) :
    k.finish = (.ok (), { k with finished := true }) := by
  rw [finish, h]

/-- A stream that refuses its end is left as it is. -/
theorem finish_of_refused {k : Sink} {e : IoError} (h : k.refusal = some e) :
    k.finish = (.error (.io e), k) := by
  rw [finish, h]

/-- Also a stream that cannot be ended keeps what it has. -/
theorem written_finish (k : Sink) : k.finish.2.written = k.written := by
  unfold finish
  split <;> rfl

theorem below_le (k : Sink) (limit : Option Nat) (n : Nat) : k.below limit n ≤ n := by
  cases limit with
  | none => exact Nat.le_refl n
  | some limit => exact Nat.min_le_left _ _

/-- Of the two limits the failure is looked at first, so a blocked write has room below it. -/
theorem write_writes (k : Sink) (bs : Bytes) : k.Writes bs (k.write bs) := by
  have hfits := k.below_le k.failAfter bs.length
  have hroom := k.below_le k.blockAfter (k.below k.failAfter bs.length)
  have hnoFail : k.failAfter = none → k.below k.failAfter bs.length = bs.length := by
    intro h
    rw [h]
    rfl
  have hnoBlock : k.blockAfter = none →
      k.below k.blockAfter (k.below k.failAfter bs.length) = k.below k.failAfter bs.length := by
    intro h
    rw [h]
    rfl
  unfold write
  dsimp only
  generalize k.below k.failAfter bs.length = fits at hfits hroom hnoFail hnoBlock
  generalize k.below k.blockAfter fits = room at hroom hnoBlock
  have hsplit : k.written ++ bs.take room ++ bs.drop room = k.written ++ bs := by
    rw [List.append_assoc, List.take_append_drop]
  split
  · next hall =>
    rw [List.take_of_length_le hall]
    exact .complete
  · next hall =>
    split
    · next hfail =>
      refine .failed (fun hnone => ?_) (fun hnil => ?_) hsplit
      · have hlen := hnoFail hnone
        omega
      · have hlen := List.drop_eq_nil_iff.mp hnil
        omega
    · next hfail =>
      refine .blocked (fun hnone => ?_) hsplit
      have hlen := hnoBlock hnone
      omega

end Sink

end LiveMedia.Stream
