import LiveMedia.Time.Span

/-!
# Simulated networks

A network delays every group on its way: by a part of the jitter, and one group by a stall. The latency
is the budget of the player behind the network.
-/

namespace LiveMedia.Simulation

open LiveMedia.Time

structure Network where
  /-- The latency budget of the player. -/
  latency : Span
  /-- The most that a group is delayed at random. -/
  jitter : Span
  /-- The sequence number of the group that is stalled. -/
  stall : Option Nat
  /-- How long that group is stalled. -/
  stallDuration : Span
deriving DecidableEq, Repr

/-- The random part of each group's delay, by its sequence number. -/
abbrev Draw := Nat → Span

namespace Network

def standard : Network := ⟨.ofMillis 500, .zero, none, .ofSeconds 2⟩

/-- The delay of a group. What is drawn counts up to the jitter. -/
def delay (n : Network) (draw : Draw) (sequence : Nat) : Span :=
  let random : Span := ⟨min (draw sequence).nanos n.jitter.nanos⟩
  if n.stall = some sequence then random + n.stallDuration else random

end Network

end LiveMedia.Simulation
