import LiveMedia.Number.Written

/-!
# Numbers in single precision

A decimal text stands for the nearest number of single precision, the even one of two that are equally
near. A number is its bit pattern here: a sign, eight bits of exponent, 23 bits below the leading one.
-/

namespace LiveMedia.Number

/-- The bit pattern of a number in single precision. -/
structure Single where
  bits : UInt32
deriving DecidableEq, Repr

namespace Single

/-- The pattern of the sign. -/
def signBit : Nat := 1 <<< 31

/-- The pattern of infinity, above those of all finite numbers. -/
def infinity : Nat := 255 <<< 23

/-- The pattern of a result that is no number. -/
def notANumber : Nat := infinity + (1 <<< 22)

/-- The quotient rounded to the nearest whole number, a half to the even neighbour. -/
def roundDiv (n d : Nat) : Nat :=
  let q := n / d
  let r := n % d
  if d < 2 * r ∨ (2 * r = d ∧ q % 2 = 1) then q + 1 else q

/-- The pattern of `n / d * 2 ^ (unit - 149)`, rounded; `unit` is such that the quotient has at most 24
bits, and 24 of them unless it is zero. A quotient that is rounded up to 25 bits carries into the
exponent by itself. -/
def patternAt (n d unit : Nat) : Nat :=
  min ((unit <<< 23) + roundDiv n (d <<< unit)) infinity

/-- The pattern of `n / d` in units of `2 ^ (-149)`, with the least unit that leaves 24 bits. -/
def patternOf (n d : Nat) : Nat :=
  let unit := (n / d).log2 + 1 - 24
  patternAt n d unit

/-- The pattern of `digits * 10 ^ exponent`. Numbers far outside the range are decided by their
size. -/
def ofScaled (digits : Nat) (exponent : Int) : Nat :=
  let places : Int := (Nat.toDigits 10 digits).length + exponent
  if digits = 0 ∨ places < -50 then 0
  else if 50 < places then infinity
  else match exponent with
    | .ofNat e => patternOf ((digits * Nat.pow 10 e) <<< 149) 1
    | .negSucc e => patternOf (digits <<< 149) (Nat.pow 10 (e + 1))

/-- An exponent behind its letter. -/
def exponent? : List Char → Option Int
  | '-' :: cs => (ofDigits? cs).map fun n => -(n : Int)
  | '+' :: cs => (ofDigits? cs).map Int.ofNat
  | cs => (ofDigits? cs).map Int.ofNat

/-- The pattern of digits with an optional point among them and an optional exponent behind. -/
def magnitude? (cs : List Char) : Option Nat := do
  let isExponentMark c := c == 'e' || c == 'E'
  let mantissa := cs.takeWhile (!isExponentMark ·)
  let exponent ← match cs.dropWhile (!isExponentMark ·) with
    | [] => some 0
    | _ :: rest => exponent? rest
  let whole := mantissa.takeWhile (· != '.')
  let fraction := (mantissa.dropWhile (· != '.')).drop 1
  let digits ← ofDigits? (whole ++ fraction)
  return ofScaled digits (exponent - fraction.length)

/-- The pattern of a number without its sign. -/
def unsignedPattern? (cs : List Char) : Option Nat :=
  match String.ofList (cs.map Char.toLower) with
  | "inf" | "infinity" => some infinity
  | "nan" => some notANumber
  | _ => magnitude? cs

/-- The number of a decimal text. -/
def ofDecimal? (s : String) : Option Single :=
  match s.toList with
  | '-' :: cs => (unsignedPattern? cs).map fun n => ⟨UInt32.ofNat (signBit + n)⟩
  | '+' :: cs => (unsignedPattern? cs).map fun n => ⟨UInt32.ofNat n⟩
  | cs => (unsignedPattern? cs).map fun n => ⟨UInt32.ofNat n⟩

def toFloat32 (x : Single) : Float32 := .ofBits x.bits

end Single

end LiveMedia.Number
