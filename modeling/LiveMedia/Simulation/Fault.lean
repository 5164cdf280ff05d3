import LiveMedia.Error.Media
import LiveMedia.Time.Scale

/-!
# Why a run cannot be made or goes wrong
-/

namespace LiveMedia.Simulation

open LiveMedia.Time

/-- What keeps a run from its end. -/
inductive Fault where
  /-- A video needs a frame rate and frames in its groups. -/
  | noFrames
  /-- Audio frames need a length. -/
  | noFrameDuration
  /-- A count or a span of the run is out of range. -/
  | outOfRange
  /-- The run would never end. -/
  | endless
  | time (e : TimeError)
  | transport (e : TransportError)
  | media (e : MediaError)
deriving DecidableEq, Repr

/-- The text that is shown for a fault. -/
def Fault.message : Fault → String
  | noFrames => "fps and frames must be positive"
  | noFrameDuration => "frame duration must be positive"
  | outOfRange => "out of range"
  | endless => "the run does not end"
  | time e => e.message
  | transport e => e.message
  | media e => e.message

end LiveMedia.Simulation
