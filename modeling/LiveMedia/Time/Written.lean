import LiveMedia.Text.Blank
import LiveMedia.Time.Span

/-!
# Spans written by people

A written span is a sequence of numbers with units, as in `1m 40s 5ms`, `1day 2h` or `1.5s`; their
sum is the span. Blanks may stand between and inside the numbers. A fraction has to come out even in
the unit that is counted below it: nanoseconds for units up to the minute, seconds for larger ones.
`Span.written` prints each unit once, largest first.
-/

namespace LiveMedia.Time

open LiveMedia.Text (isBlank)

/-- The units of written spans. -/
inductive TimeUnit where
  | nanosecond | microsecond | millisecond | second | minute | hour | day | week | month | year
deriving DecidableEq, Repr

namespace TimeUnit

/-- The unit that a word names. -/
def ofWord? : String → Option TimeUnit
  | "nanos" | "nsec" | "ns" => some nanosecond
  | "usec" | "us" | "µs" => some microsecond
  | "millis" | "msec" | "ms" => some millisecond
  | "seconds" | "second" | "secs" | "sec" | "s" => some second
  | "minutes" | "minute" | "min" | "mins" | "m" => some minute
  | "hours" | "hour" | "hr" | "hrs" | "h" => some hour
  | "days" | "day" | "d" => some day
  | "weeks" | "week" | "wk" | "wks" | "w" => some week
  | "months" | "month" | "M" => some month
  | "years" | "year" | "yr" | "yrs" | "y" => some year
  | _ => none

/-- Nanoseconds in one unit below the second, if the unit is one. -/
def nanos? : TimeUnit → Option Nat
  | nanosecond => some 1
  | microsecond => some 1000
  | millisecond => some 1000000
  | _ => none

/-- Seconds in one unit; a month is a twelfth of a year of 365.25 days, to the minute. -/
def seconds : TimeUnit → Nat
  | minute => 60
  | hour => 3600
  | day => 86400
  | week => 604800
  | month => 2630016
  | year => 31557600
  | _ => 1

end TimeUnit

/-- The digits after a decimal point: `numerator / denominator`. -/
structure Fraction where
  numerator : Nat
  denominator : Nat
deriving Repr

/-- All numbers have to fit a word of 64 bits. -/
def wordLimit : Nat := 1 <<< 64

/-- A number that fits a word. -/
def fitting (n : Nat) : Option Nat :=
  if n < wordLimit then some n else none

/-- An exact quotient. -/
def evenQuotient (n d : Nat) : Option Nat :=
  if n % d = 0 then some (n / d) else none

/-- A span under construction: whole seconds that fit a word, and nanoseconds. -/
def addTo (total : Span) (seconds nanos : Nat) : Option Span := do
  let nanos ← fitting (total.subsecond + nanos)
  let seconds ← fitting (seconds + nanos / Span.perSecond)
  let whole ← fitting (total.seconds + seconds)
  return ⟨whole * Span.perSecond + nanos % Span.perSecond⟩

/-- Adds a number of units, and the fraction of a unit behind it. -/
def addUnits (total : Span) (n : Nat) (fraction : Option Fraction) (word : List Char) :
    Option Span := do
  let unit ← TimeUnit.ofWord? (String.ofList word)
  let total ← match unit.nanos? with
    | some nanos => do addTo total 0 (← fitting (n * nanos))
    | none => do addTo total (← fitting (n * unit.seconds)) 0
  match fraction with
  | none => some total
  | some f =>
    match unit with
    | .nanosecond => none
    | .microsecond => do addTo total 0 (← evenQuotient (← fitting (f.numerator * 1000)) f.denominator)
    | .millisecond => do
      addTo total 0 (← evenQuotient (← fitting (f.numerator * 1000000)) f.denominator)
    | .second => do
      addTo total 0 (← evenQuotient (← fitting (f.numerator * 1000000000)) f.denominator)
    | .minute => do
      addTo total 0 (← evenQuotient (← fitting (f.numerator * 60000000000)) f.denominator)
    | unit => do
      addTo total (← evenQuotient (← fitting (f.numerator * unit.seconds)) f.denominator) 0

/-- The value of a decimal digit. -/
def digit? (c : Char) : Option Nat :=
  if c.isDigit then some (c.toNat - '0'.toNat) else none

/-- A character of a unit's word. -/
def isUnitChar (c : Char) : Bool := c.isAlpha || c == 'µ'

/-- Where the scan of a written span stands. -/
inductive ScanState where
  /-- Before the first digit of a number. -/
  | blank
  /-- Inside the whole part. -/
  | whole (n : Nat)
  /-- Behind the decimal point of `n`. -/
  | point (n : Nat) (fraction : Fraction)
  /-- Inside the word of a unit, whose letters so far stand in reverse. -/
  | word (n : Nat) (fraction : Option Fraction) (letters : List Char)

/-- The fraction is usable once it has a digit. -/
def Fraction.closed (f : Fraction) : Option Fraction :=
  if f.denominator = 1 then none else some f

/-- One digit more behind the point. -/
def Fraction.push (f : Fraction) (d : Nat) : Option Fraction := do
  return ⟨← fitting (f.numerator * 10 + d), ← fitting (f.denominator * 10)⟩

/-- Reads on from a state; `total` is the sum so far. -/
def scan (total : Span) : ScanState → List Char → Option Span
  | .blank, [] => some total
  | .blank, c :: cs =>
    match digit? c with
    | some d => scan total (.whole d) cs
    | none => if isBlank c then scan total .blank cs else none
  | .whole n, [] => addUnits total n none []
  | .whole n, c :: cs =>
    match digit? c with
    | some d => match fitting (n * 10 + d) with
      | some n => scan total (.whole n) cs
      | none => none
    | none =>
      if isBlank c then scan total (.whole n) cs
      else if isUnitChar c then scan total (.word n none [c]) cs
      else if c = '.' then scan total (.point n ⟨0, 1⟩) cs
      else none
  | .point n f, [] =>
    match f.closed with
    | some f => addUnits total n (some f) []
    | none => none
  | .point n f, c :: cs =>
    match digit? c with
    | some d => match f.push d with
      | some f => scan total (.point n f) cs
      | none => none
    | none =>
      if isBlank c then scan total (.point n f) cs
      else if isUnitChar c then
        match f.closed with
        | some f => scan total (.word n (some f) [c]) cs
        | none => none
      else none
  | .word n f letters, [] => addUnits total n f letters.reverse
  | .word n f letters, c :: cs =>
    if isUnitChar c then scan total (.word n f (c :: letters)) cs
    else match digit? c with
      | some d => match addUnits total n f letters.reverse with
        | some total => scan total (.whole d) cs
        | none => none
      | none =>
        if isBlank c then
          match addUnits total n f letters.reverse with
          | some total => scan total .blank cs
          | none => none
        else none

namespace Span

/-- Reads a written span. The text `0` needs no unit; a text without a number is none. -/
def ofWritten? (s : String) : Option Span :=
  if s = "0" then some zero
  else if s.toList.all isBlank then none
  else scan zero .blank s.toList

/-- One entry of a written span, if it is not zero. -/
def entry (n : Nat) (name : String) : List String :=
  if n = 0 then [] else [toString n ++ name]

/-- The plural of a unit's name takes an `s`. -/
def pluralEntry (n : Nat) (name : String) : List String :=
  entry n (if 1 < n then name ++ "s" else name)

/-- Writes a span with each unit at most once, the largest first. -/
def written (d : Span) : String :=
  let secs := d.seconds
  let entries :=
    pluralEntry (secs / 31557600) "year" ++
    pluralEntry (secs % 31557600 / 2630016) "month" ++
    pluralEntry (secs % 31557600 % 2630016 / 86400) "day" ++
    entry (secs % 31557600 % 2630016 % 86400 / 3600) "h" ++
    entry (secs % 31557600 % 2630016 % 86400 % 3600 / 60) "m" ++
    entry (secs % 31557600 % 2630016 % 86400 % 60) "s" ++
    entry (d.subsecond / 1000000) "ms" ++
    entry (d.subsecond / 1000 % 1000) "us" ++
    entry (d.subsecond % 1000) "ns"
  if entries.isEmpty then "0s" else " ".intercalate entries

end Span

end LiveMedia.Time
