import LiveMedia.Error.Transport

/-!
# Errors of playback

What can go wrong between the transport and the player: an error of the transport, bytes that hold no
media, or a call in the wrong state.
-/

namespace LiveMedia

open LiveMedia.Wire

/-- Why an audio buffer cannot have the wanted shape. -/
inductive ConfigFault where
  | sampleRate
  | channelCount
  | latencyZero
  | latencyTooLarge
  /-- A fault that a caller words itself. -/
  | other (reason : String)
deriving DecidableEq, Repr

def ConfigFault.reason : ConfigFault → String
  | sampleRate => "sample rate must be positive"
  | channelCount => "channel count must be positive"
  | latencyZero => "latency must be positive"
  | latencyTooLarge => "latency is too large"
  | other reason => reason

/-- Why media could not be written or played. -/
inductive MediaError where
  | transport (e : TransportError)
  | decode (e : DecodeError)
  | encode (e : EncodeError)
  | timestampOverflow
  /-- A track has to begin with a keyframe. -/
  | missingKeyframe
  | invalidConfig (fault : ConfigFault)
  | alreadyInitialized
  | notInitialized
deriving DecidableEq, Repr

def MediaError.message : MediaError → String
  | transport e => "transport error: " ++ e.message
  | decode e => "decode error: " ++ e.message
  | encode e => "encode error: " ++ e.message
  | timestampOverflow => "timestamp overflow"
  | missingKeyframe => "the first frame must be a keyframe"
  | invalidConfig fault => "invalid audio config: " ++ fault.reason
  | alreadyInitialized => "already initialized"
  | notInitialized => "not initialized"

end LiveMedia
