import LiveMedia.Stream.Source
import LiveMedia.Wire.Varint

/-!
# Readers

A reader decodes values from a byte stream. It reads more only when what it holds is not enough, and
bytes that were read stay in its buffer when a call fails or is pending. So a call that is tried again
loses nothing; only `skip` gives up the bytes it passes over as it goes.
-/

namespace LiveMedia.Stream

open LiveMedia.Wire

/-- A byte stream and the bytes that were read from it but not used. -/
structure Reader where
  buffer : Bytes
  source : Source
deriving DecidableEq, Repr

namespace Reader

variable {α : Type}

def ofSource (source : Source) : Reader := ⟨[], source⟩

/-- Appends to what the stream will deliver. -/
def feed (r : Reader) (more : Source) : Reader := { r with source := r.source ++ more }

/-- Decodes at the front of the buffer, reading on as long as it is short. The value comes with the
bytes behind it; the reader still holds all of them. -/
def await (d : Decoder α) (buffer : Bytes) :
    Source → Attempt TransportError (α × Bytes) × Reader
  | [] => match d.run buffer with
    | (.ok a, rest) => (.value (a, rest), ⟨buffer, []⟩)
    | (.error e, _) => (.failure (.decode e), ⟨buffer, []⟩)
  | arrival :: source => match d.run buffer with
    | (.ok a, rest) => (.value (a, rest), ⟨buffer, arrival :: source⟩)
    | (.error .short, _) => match arrival with
      | .data [] | .finish => (.failure (.decode .short), ⟨buffer, source⟩)
      | .data bs => await d (buffer ++ bs) source
      | .wait => (.pending, ⟨buffer, source⟩)
      | .failure e => (.failure (.io e), ⟨buffer, source⟩)
    | (.error e, _) => (.failure (.decode e), ⟨buffer, arrival :: source⟩)

/-- Decodes the next value and consumes it. -/
def decode (d : Decoder α) (r : Reader) : Attempt TransportError α × Reader :=
  match await d r.buffer r.source with
  | (.ok (a, rest), r) => (.ok a, { r with buffer := rest })
  | (.error h, r) => (.error h, r)

/-- Decodes the next value without consuming it. -/
def peek (d : Decoder α) (r : Reader) : Attempt TransportError α × Reader :=
  match await d r.buffer r.source with
  | (.ok (a, _), r) => (.ok a, r)
  | (.error h, r) => (.error h, r)

/-- Makes sure that the buffer holds something; false says that the stream is at its end. -/
def fill (r : Reader) : Attempt TransportError Bool × Reader :=
  if r.buffer = [] then
    match r.source.read with
    | (.ok none, source) => (.ok false, ⟨[], source⟩)
    | (.ok (some bs), source) => (.ok true, ⟨bs, source⟩)
    | (.error h, source) => (.error h, ⟨[], source⟩)
  else (.ok true, r)

/-- Decodes the next value, or gives `none` when the stream ends before it begins. -/
def decodeMaybe (d : Decoder α) (r : Reader) : Attempt TransportError (Option α) × Reader :=
  match r.fill with
  | (.ok true, r) => match r.decode d with
    | (.ok a, r) => (.ok (some a), r)
    | (.error h, r) => (.error h, r)
  | (.ok false, r) => (.ok none, r)
  | (.error h, r) => (.error h, r)

/-- Takes at most `limit` bytes, whatever is there first, or `none` at the end of the stream. -/
def read (limit : Nat) (r : Reader) : Attempt TransportError (Option Bytes) × Reader :=
  match r.fill with
  | (.ok true, r) => (.ok (some (r.buffer.take limit)), { r with buffer := r.buffer.drop limit })
  | (.ok false, r) => (.ok none, r)
  | (.error h, r) => (.error h, r)

/-- Takes exactly `n` bytes. -/
def readExact (n : Nat) (r : Reader) : Attempt TransportError Bytes × Reader :=
  r.decode (Decoder.take n)

/-- Passes over `n` bytes, those in the buffer first. Comes with the number that is still to be passed
over: what was passed stays so when the call is pending or fails. -/
def skipFrom (n : Nat) (buffer : Bytes) : Source → Attempt TransportError Unit × Nat × Reader
  | [] =>
    if n ≤ buffer.length then (.ok (), 0, ⟨buffer.drop n, []⟩)
    else (.failure (.decode .short), n - buffer.length, ⟨[], []⟩)
  | arrival :: source =>
    if n ≤ buffer.length then (.ok (), 0, ⟨buffer.drop n, arrival :: source⟩)
    else match arrival with
      | .data [] | .finish => (.failure (.decode .short), n - buffer.length, ⟨[], source⟩)
      | .data bs => skipFrom (n - buffer.length) bs source
      | .wait => (.pending, n - buffer.length, ⟨[], source⟩)
      | .failure e => (.failure (.io e), n - buffer.length, ⟨[], source⟩)

def skip (n : Nat) (r : Reader) : Attempt TransportError Unit × Nat × Reader :=
  skipFrom n r.buffer r.source

/-- Succeeds when the stream is at its end and nothing is left over. -/
def closed (r : Reader) : Attempt TransportError Unit × Reader :=
  match r.fill with
  | (.ok true, r) => (.failure (.decode .expectedEnd), r)
  | (.ok false, r) => (.ok (), r)
  | (.error h, r) => (.error h, r)

/-- The stream with a new reader; what was buffered is lost. -/
def discardBuffer (r : Reader) : Reader := { r with buffer := [] }

end Reader

end LiveMedia.Stream
