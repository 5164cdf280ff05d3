import LiveMedia.Error.Media
import LiveMedia.Live.Frame
import LiveMedia.Time.Scale

/-!
# Media frames

A media frame has a timestamp and a payload. On the wire it is the timestamp as a variable-length
integer and then the payload. Whether it can be shown without others is not written: the first frame of
a group is the keyframe.
-/

namespace LiveMedia.Playback

open LiveMedia.Wire LiveMedia.Time

structure MediaFrame where
  timestamp : Timestamp
  keyframe : Bool
  /-- The payload in pieces, none of them empty. -/
  payload : List Bytes
deriving DecidableEq, Repr

namespace MediaFrame

/-- A frame whose payload comes in the given pieces; empty ones vanish. -/
def ofChunks (timestamp : Timestamp) (keyframe : Bool) (chunks : List Bytes) : MediaFrame :=
  ⟨timestamp, keyframe, chunks.filter (· ≠ [])⟩

/-- The payload in one piece. -/
def bytes (f : MediaFrame) : Bytes := f.payload.flatten

/-- The pieces that are written for a frame: the timestamp, then those of the payload. -/
def chunks (f : MediaFrame) : List Bytes := f.timestamp.ticks.encode :: f.payload

/-- The bytes that are written for a frame can be counted in a word. -/
def isCountable (f : MediaFrame) : Bool := f.chunks.flatten.length < Live.Frame.countLimit

/-- Reads a frame; its place in the group says whether it is the keyframe. -/
def decode (bs : Bytes) (keyframe : Bool) : Except DecodeError MediaFrame :=
  match Varint.decode.run bs with
  | (.ok timestamp, rest) => .ok (ofChunks ⟨timestamp⟩ keyframe [rest])
  | (.error e, _) => .error e

/-- A description of the frame that leaves its payload out. -/
def text (f : MediaFrame) : String :=
  "Frame \x7b timestamp: " ++ f.timestamp.text ++ ", keyframe: " ++ toString f.keyframe ++
    ", payload: " ++ toString f.bytes.length ++ " bytes \x7d"

end MediaFrame

end LiveMedia.Playback
