import LiveMedia.Error.Transport
import LiveMedia.Wire.Decoder

/-!
# Sinks of bytes

A sink takes bytes in order until one of its limits is reached: beyond the one it fails, beyond the
other it waits. A write that stops at a limit has delivered what was below it. When all is written the
sink is ended, and that is an exchange with the other side of its own, which can fail as well.
-/

namespace LiveMedia.Stream

open LiveMedia.Wire

/-- A byte stream to write to. -/
structure Sink where
  written : Bytes
  finished : Bool
  /-- After so many bytes the stream fails. -/
  failAfter : Option Nat
  /-- After so many bytes the stream waits. -/
  blockAfter : Option Nat
  /-- Why the stream cannot be ended, if it cannot. -/
  refusal : Option IoError
deriving DecidableEq, Repr

/-- How far a write got. -/
inductive WriteResult where
  | complete
  /-- The stream waits with these bytes unwritten. -/
  | blocked (unwritten : Bytes)
  | failed (e : TransportError)
deriving DecidableEq, Repr

namespace Sink

/-- A sink without limits. -/
def unlimited : Sink := ⟨[], false, none, none, none⟩

/-- The number of bytes below a limit. -/
def below (s : Sink) (limit : Option Nat) (n : Nat) : Nat :=
  match limit with
  | some limit => min n (limit - s.written.length)
  | none => n

/-- Writes all bytes, or as many as the limits let through. -/
def write (s : Sink) (bs : Bytes) : WriteResult × Sink :=
  let fits := s.below s.failAfter bs.length
  let room := s.below s.blockAfter fits
  let next := { s with written := s.written ++ bs.take room }
  if bs.length ≤ room then (.complete, next)
  else if fits ≤ room then (.failed (.io .connectionReset), next)
  else (.blocked (bs.drop room), next)

/-- Ends the stream. The bytes that were written stay where they are, also when it cannot be ended. -/
def finish (s : Sink) : Except TransportError Unit × Sink :=
  match s.refusal with
  | some e => (.error (.io e), s)
  | none => (.ok (), { s with finished := true })

/-- Sets or removes the limit beyond which the stream waits. -/
def allow (s : Sink) (limit : Option Nat) : Sink := { s with blockAfter := limit }

end Sink

end LiveMedia.Stream
