import LiveMedia.Error.Transport
import LiveMedia.Stream.Attempt
import LiveMedia.Wire.Decoder

/-!
# Sources of bytes

A source is the list of what a byte stream will deliver, one entry for each read. Behind the list the
stream is at its end.
-/

namespace LiveMedia.Stream

open LiveMedia.Wire

/-- What one read of a byte stream meets. -/
inductive Arrival where
  /-- Bytes; an empty block is the end of the stream. -/
  | data (bs : Bytes)
  /-- Nothing has arrived yet. -/
  | wait
  /-- The end of the stream. -/
  | finish
  | failure (e : IoError)
deriving DecidableEq, Repr

abbrev Source := List Arrival

/-- One read: new bytes, or `none` at the end of the stream. -/
def Source.read : Source → Attempt TransportError (Option Bytes) × Source
  | [] => (.value none, [])
  | .data bs :: rest => (.value (if bs = [] then none else some bs), rest)
  | .wait :: rest => (.pending, rest)
  | .finish :: rest => (.value none, rest)
  | .failure e :: rest => (.failure (.io e), rest)

/-- The bytes that are still to come, read to the end of the list. -/
def Source.volume : Source → Nat
  | [] => 0
  | .data bs :: rest => bs.length + Source.volume rest
  | _ :: rest => Source.volume rest

end LiveMedia.Stream
