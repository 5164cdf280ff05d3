import LiveMedia.Time.Span
import LiveMedia.Wire.Varint

/-!
# Times counted in ticks

A time is a number of ticks of `1 / scale` seconds and has the wide class of variable-length
integers as its range. Conversions between scales multiply first and round down, so they are exact up
to one tick.
-/

namespace LiveMedia.Time

open LiveMedia.Wire (Varint Decoder Encoded Codec)

/-- Why a time cannot be formed. -/
inductive TimeError where
  /-- The number of ticks is outside the range. -/
  | overflow
  /-- The given scale has no ticks. -/
  | zeroScale
deriving DecidableEq, Repr

def TimeError.message : TimeError → String
  | overflow => "time overflow"
  | zeroScale => "attempt to divide by zero"

/-- A time in units of `1 / scale` seconds. -/
structure Timescale (scale : Nat) where
  ticks : Varint
deriving DecidableEq, Repr

namespace Timescale

variable {scale : Nat}

/-- The number of ticks. -/
def value (t : Timescale scale) : Nat := t.ticks.val

def zero : Timescale scale := ⟨⟨0⟩⟩

/-- The latest time. -/
def last : Timescale scale := ⟨⟨Varint.maximum⟩⟩

instance : LT (Timescale scale) := ⟨fun a b => a.value < b.value⟩

instance : LE (Timescale scale) := ⟨fun a b => a.value ≤ b.value⟩

instance (a b : Timescale scale) : Decidable (a < b) :=
  inferInstanceAs (Decidable (a.value < b.value))

instance (a b : Timescale scale) : Decidable (a ≤ b) :=
  inferInstanceAs (Decidable (a.value ≤ b.value))

/-- The later of two times. -/
def latest (a b : Timescale scale) : Timescale scale := if a < b then b else a

def compare (a b : Timescale scale) : Ordering := Ord.compare a.value b.value

/-- The time of `n` ticks. -/
def ofTicks (n : Nat) : Except TimeError (Timescale scale) :=
  match Varint.ofNat? n with
  | some v => .ok ⟨v⟩
  | none => .error .overflow

/-- The time of `n` ticks of another scale, rounded down. -/
def ofScale (n other : Nat) : Except TimeError (Timescale scale) :=
  if other = 0 then .error .zeroScale else ofTicks (n * scale / other)

def ofSeconds (n : Nat) : Except TimeError (Timescale scale) := ofScale n 1

def ofMillis (n : Nat) : Except TimeError (Timescale scale) := ofScale n 1000

def ofMicros (n : Nat) : Except TimeError (Timescale scale) := ofScale n 1000000

/-- The time of a span, rounded down. -/
def ofSpan (d : Span) : Except TimeError (Timescale scale) :=
  ofTicks (d.nanos * scale / Span.perSecond)

/-- The time in units of `1 / other` seconds, rounded down. -/
def inScale (t : Timescale scale) (other : Nat) : Nat := t.value * other / scale

def seconds (t : Timescale scale) : Nat := t.value / scale

def millis (t : Timescale scale) : Nat := t.inScale 1000

def micros (t : Timescale scale) : Nat := t.inScale 1000000

/-- The time in seconds, as the quotient of the ticks and the scale in double precision. -/
def toFloat (t : Timescale scale) : Float :=
  t.value.toUInt64.toFloat / scale.toUInt64.toFloat

/-- The span of a time, rounded down to nanoseconds. -/
def toSpan (t : Timescale scale) : Span := ⟨t.inScale Span.perSecond⟩

def checkedAdd (a b : Timescale scale) : Except TimeError (Timescale scale) :=
  ofTicks (a.value + b.value)

def checkedSub (a b : Timescale scale) : Except TimeError (Timescale scale) :=
  if b.value ≤ a.value then ofTicks (a.value - b.value) else .error .overflow

/-- Subtraction that stops at zero. -/
def saturatingSub (a b : Timescale scale) : Timescale scale :=
  match a.checkedSub b with
  | .ok t => t
  | .error _ => zero

def isZero (t : Timescale scale) : Bool := t.value == 0

/-- The text of a time: whole seconds, milliseconds or microseconds, the largest unit that fits. -/
def text (t : Timescale scale) : String :=
  let micros := t.micros
  if micros % 1000000 = 0 then toString (micros / 1000000) ++ "s"
  else if micros % 1000 = 0 then toString (micros / 1000) ++ "ms"
  else toString micros ++ "µs"

-- ── wire form ───────────────────────────────────────────────────────

def encode (t : Timescale scale) : Encoded := .ok t.ticks.encode

def decode : Decoder (Timescale scale) := do
  let v ← Varint.decode
  pure ⟨v⟩

def codec : Codec (Timescale scale) := ⟨encode, decode⟩

end Timescale

/-- A presentation time in microseconds, relative to the start of its track. -/
abbrev Timestamp := Timescale 1000000

end LiveMedia.Time
