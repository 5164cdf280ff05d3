import LiveMedia.Wire.Error

/-!
# Errors of the transport

Whatever ends a stream, a frame, a group or a track early is one of these. Each has a text, and a code
that is sent to the peer.
-/

namespace LiveMedia

open LiveMedia.Wire

/-- A failure of the byte stream below. -/
inductive IoError where
  | connectionReset
  | brokenPipe
  | unexpectedEof
  | timedOut
deriving DecidableEq, Repr

def IoError.message : IoError → String
  | connectionReset => "connection reset"
  | brokenPipe => "broken pipe"
  | unexpectedEof => "unexpected end of file"
  | timedOut => "timed out"

/-- Why media could not be published or received. -/
inductive TransportError where
  | io (e : IoError)
  | decode (e : DecodeError)
  | encode (e : EncodeError)
  | unexpectedStream
  /-- A sequence number is in use. -/
  | duplicate
  /-- There are no more readers. -/
  | cancel
  /-- The publisher went away without closing. -/
  | dropped
  /-- The group is older than the retention window. -/
  | expired
  /-- The group is older than the latest group. -/
  | old
  | closed
  /-- The application ended the stream with a code of its own. -/
  | app (code : UInt32)
  | notFound
  /-- A frame's bytes do not add up to its size. -/
  | wrongSize
  | unsupported
deriving DecidableEq, Repr

namespace TransportError

def message : TransportError → String
  | io e => "io error: " ++ e.message
  | decode e => "decode error: " ++ e.message
  | encode e => "encode error: " ++ e.message
  | unexpectedStream => "unexpected stream type"
  | duplicate => "duplicate"
  | cancel => "cancelled"
  | dropped => "dropped"
  | expired => "expired"
  | old => "old"
  | closed => "closed"
  | app code => "app code=" ++ toString code.toNat
  | notFound => "not found"
  | wrongSize => "wrong frame size"
  | unsupported => "unsupported"

/-- Codes below this number are the transport's own. -/
def appBase : Nat := 64

/-- The code for the peer, a word of 32 bits. Codes of applications stand above those of the
transport, so the largest of them have none. -/
def code? : TransportError → Option Nat
  | cancel => some 0
  | old => some 2
  | io _ => some 4
  | decode _ => some 5
  | encode _ => some 6
  | dropped => some 7
  | expired => some 8
  | unexpectedStream => some 10
  | duplicate => some 12
  | notFound => some 13
  | wrongSize => some 14
  | unsupported => some 17
  | closed => some 20
  | app code => if code.toNat + appBase < (1 <<< 32) then some (code.toNat + appBase) else none

end TransportError

end LiveMedia
