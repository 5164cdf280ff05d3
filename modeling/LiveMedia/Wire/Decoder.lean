import LiveMedia.Wire.Error

/-!
# Decoders and encoders

A decoder takes bytes from the front of its input. Its answer comes with the bytes it left, also
when it fails: a sequence of decoders that fails has consumed what its first members read.
`Decoder.take` is the only way to consume bytes, and it consumes all it asks for or none.
-/

namespace LiveMedia.Wire

abbrev Bytes := List UInt8

/-- A function from bytes to a value or an error, and the bytes that are left. -/
def Decoder (α : Type) : Type :=
  Bytes → Except DecodeError α × Bytes

/-- The bytes of a value, or why there are none. -/
abbrev Encoded := Except EncodeError Bytes

/-- The two directions of one wire form. -/
structure Codec (α : Type) where
  encode : α → Encoded
  decode : Decoder α

namespace Decoder

variable {α β : Type}

/-- Runs a decoder on the given bytes. -/
def run (d : Decoder α) (bs : Bytes) : Except DecodeError α × Bytes :=
  d bs

/-- Gives a value and consumes nothing. -/
def succeed (a : α) : Decoder α :=
  fun bs => (.ok a, bs)

/-- Fails and consumes nothing. -/
def fail (e : DecodeError) : Decoder α :=
  fun bs => (.error e, bs)

/-- Runs `d`, then what `f` makes of its value on the bytes that `d` left. -/
def andThen (d : Decoder α) (f : α → Decoder β) : Decoder β :=
  fun bs => match d bs with
    | (.ok a, rest) => f a rest
    | (.error e, rest) => (.error e, rest)

instance : Monad Decoder where
  pure := succeed
  bind := andThen

@[simp] theorem run_pure (a : α) (bs : Bytes) : (pure a : Decoder α).run bs = (.ok a, bs) := rfl

@[simp] theorem run_fail (e : DecodeError) (bs : Bytes) :
    (fail e : Decoder α).run bs = (.error e, bs) := rfl

theorem run_bind (d : Decoder α) (f : α → Decoder β) (bs : Bytes) :
    (d >>= f).run bs = match d.run bs with
      | (.ok a, rest) => (f a).run rest
      | (.error e, rest) => (.error e, rest) := rfl

theorem run_bind_ok {d : Decoder α} {f : α → Decoder β} {bs rest : Bytes} {a : α}
    (h : d.run bs = (.ok a, rest)) : (d >>= f).run bs = (f a).run rest := by
  simp [run_bind, h]

theorem run_bind_error {d : Decoder α} {f : α → Decoder β} {bs rest : Bytes} {e : DecodeError}
    (h : d.run bs = (.error e, rest)) : (d >>= f).run bs = (.error e, rest) := by
  simp [run_bind, h]

/-- Takes exactly `n` bytes; fewer are `short`, and then none is consumed. -/
def take (n : Nat) : Decoder Bytes :=
  fun bs =>
    let front := bs.take n
    if front.length < n then (.error .short, bs) else (.ok front, bs.drop n)

theorem run_take_of_le {n : Nat} {bs : Bytes} (h : n ≤ bs.length) :
    (take n).run bs = (.ok (bs.take n), bs.drop n) := by
  simp [run, take]
  omega

theorem run_take_of_lt {n : Nat} {bs : Bytes} (h : bs.length < n) :
    (take n).run bs = (.error .short, bs) := by
  simp [run, take]
  omega

@[simp] theorem run_take_append (front rest : Bytes) :
    (take front.length).run (front ++ rest) = (.ok front, rest) := by
  rw [run_take_of_le (by simp)]
  simp

/-- Runs a decoder `n` times in a row. -/
def replicate (d : Decoder α) : Nat → Decoder (List α)
  | 0 => pure []
  | n + 1 => do
    let a ← d
    let as ← replicate d n
    pure (a :: as)

end Decoder

/-- The wire forms of the members of a list, one after the other. -/
def encodeAll {α : Type} (encode : α → Encoded) : List α → Encoded
  | [] => .ok []
  | a :: as => do
    let front ← encode a
    let rest ← encodeAll encode as
    return front ++ rest

end LiveMedia.Wire
