import LiveMedia.Error.Transport
import LiveMedia.Stream.Attempt
import LiveMedia.Wire.Decoder

/-!
# Frames

A frame has a size that is fixed at the start and a payload that is written in chunks. Writers refuse
what would not fit, so a frame that was closed holds exactly its size. Readers keep a position of their
own, counted in chunks.

The size and the bytes that are written are counted in words of 64 bits. The bytes are counted before they
are compared with the size, and nothing keeps that count in its word: chunks can share their memory, so
there can be more bytes in them than there is memory. `write?` says when the count leaves the word. `write`
is the same without the word.
-/

namespace LiveMedia.Live

open LiveMedia.Wire

/-- How a frame, a group or a track came to its end. -/
inductive Ending where
  | complete
  | aborted (e : TransportError)
deriving DecidableEq, Repr

namespace Ending

/-- The answer to a writer that comes too late. -/
def refusal : Ending → TransportError
  | complete => .closed
  | aborted e => e

/-- The answer to a reader that asks how it ended. -/
def verdict : Ending → Attempt TransportError Unit
  | complete => .ok ()
  | aborted e => .failure e

end Ending

/-- What was written of a frame so far. -/
structure Frame where
  chunks : List Bytes
  /-- The number of bytes in the chunks. -/
  written : Nat
  ending : Option Ending
deriving DecidableEq, Repr

namespace Frame

/-- A frame of which nothing is written. -/
def fresh : Frame := ⟨[], 0, none⟩

/-- The bytes of all chunks. -/
def payload (f : Frame) : Bytes := f.chunks.flatten

/-- A count of bytes is below this number, which a word of 64 bits cannot hold. -/
def countLimit : Nat := 1 <<< 64

/-- Appends a chunk unless the frame has ended or would exceed `size`; `none` when the bytes cannot be
counted in a word any more. -/
def write? (size : Nat) (chunk : Bytes) (f : Frame) : Option (Except TransportError Frame) :=
  match f.ending with
  | some ending => some (.error ending.refusal)
  | none =>
    let written := f.written + chunk.length
    if countLimit ≤ written then none
    else if written ≤ size then some (.ok { f with chunks := f.chunks ++ [chunk], written })
    else some (.error .wrongSize)

/-- Appends a chunk unless the frame has ended or would exceed `size`. A size is a word itself, so a chunk
that brings the count out of its word is refused here. -/
def write (size : Nat) (chunk : Bytes) (f : Frame) : Except TransportError Frame :=
  match f.ending with
  | some ending => .error ending.refusal
  | none =>
    if f.written + chunk.length ≤ size then
      .ok { f with chunks := f.chunks ++ [chunk], written := f.written + chunk.length }
    else .error .wrongSize

/-- Ends the frame, once all of its bytes are there. -/
def close (size : Nat) (f : Frame) : Except TransportError Frame :=
  match f.ending with
  | some ending => .error ending.refusal
  | none => if f.written = size then .ok { f with ending := some .complete } else .error .wrongSize

/-- Ends the frame with an error, whatever its state. -/
def abort (e : TransportError) (f : Frame) : Frame := { f with ending := some (.aborted e) }

/-- The chunk at a reader's position, or `none` behind the last chunk of a complete frame. -/
def nextChunk (position : Nat) (f : Frame) : Attempt TransportError (Option Bytes) :=
  match f.ending with
  | some (.aborted e) => .failure e
  | some .complete => .ok f.chunks[position]?
  | none => match f.chunks[position]? with
    | some chunk => .ok (some chunk)
    | none => .pending

/-- All bytes from a reader's position on, once the frame is complete. -/
def remainder (position : Nat) (f : Frame) : Attempt TransportError Bytes :=
  match f.ending with
  | some (.aborted e) => .failure e
  | some .complete => .ok (f.chunks.drop position).flatten
  | none => .pending

/-- How the frame ended, once it has. -/
def outcome (f : Frame) : Attempt TransportError Unit :=
  match f.ending with
  | some ending => ending.verdict
  | none => .pending

end Frame

end LiveMedia.Live
