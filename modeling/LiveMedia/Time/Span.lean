/-!
# Spans of time

A span is a number of nanoseconds. It is shown in the largest unit that keeps a whole part, with the
fraction that it has and no digit more.
-/

namespace LiveMedia.Time

/-- A length of time. -/
structure Span where
  nanos : Nat
deriving DecidableEq, Repr

namespace Span

/-- Nanoseconds in a second. -/
def perSecond : Nat := 1000000000

def ofSeconds (n : Nat) : Span := ⟨n * perSecond⟩

def ofMillis (n : Nat) : Span := ⟨n * 1000000⟩

def zero : Span := ⟨0⟩

/-- The whole seconds. -/
def seconds (d : Span) : Nat := d.nanos / perSecond

/-- The nanoseconds above the whole seconds. -/
def subsecond (d : Span) : Nat := d.nanos % perSecond

instance : Add Span := ⟨fun a b => ⟨a.nanos + b.nanos⟩⟩

/-- Subtraction that stops at zero. -/
instance : Sub Span := ⟨fun a b => ⟨a.nanos - b.nanos⟩⟩

instance : LT Span := ⟨fun a b => a.nanos < b.nanos⟩

instance : LE Span := ⟨fun a b => a.nanos ≤ b.nanos⟩

instance (a b : Span) : Decidable (a < b) := inferInstanceAs (Decidable (a.nanos < b.nanos))

instance (a b : Span) : Decidable (a ≤ b) := inferInstanceAs (Decidable (a.nanos ≤ b.nanos))

def max (a b : Span) : Span := ⟨Nat.max a.nanos b.nanos⟩

/-- The length in seconds as a double: the whole seconds plus the fraction of a second. -/
def toFloat (d : Span) : Float :=
  d.seconds.toUInt64.toFloat + d.subsecond.toUInt64.toFloat / 1000000000.0

/-- The digits of `n` behind a decimal point, `width` places wide, without the zeros at the end. -/
def fraction (n width : Nat) : String :=
  let digits := Nat.toDigits 10 n
  let padded := List.replicate (width - digits.length) '0' ++ digits
  let kept := (padded.reverse.dropWhile (· == '0')).reverse
  if kept.isEmpty then "" else "." ++ String.ofList kept

/-- The text of a span, as in `0ns`, `1.5µs`, `350ms` and `9.999s`. -/
def text (d : Span) : String :=
  if 0 < d.seconds then toString d.seconds ++ fraction d.subsecond 9 ++ "s"
  else if 1000000 ≤ d.nanos then
    toString (d.nanos / 1000000) ++ fraction (d.nanos % 1000000) 6 ++ "ms"
  else if 1000 ≤ d.nanos then toString (d.nanos / 1000) ++ fraction (d.nanos % 1000) 3 ++ "µs"
  else toString d.nanos ++ "ns"

end Span

end LiveMedia.Time
