/-!
# Whole numbers as people write them

A number is one digit or more, behind an optional sign.
-/

namespace LiveMedia.Number

/-- The number that decimal digits spell, if there are any and nothing else. -/
def ofDigits? (cs : List Char) : Option Nat :=
  if cs ≠ [] ∧ cs.all Char.isDigit then
    some (cs.foldl (fun n c => n * 10 + (c.toNat - '0'.toNat)) 0)
  else none

/-- A number below a limit; a plus sign may stand in front. -/
def unsigned? (limit : Nat) (s : String) : Option Nat :=
  let digits := match s.toList with
    | '+' :: cs => cs
    | cs => cs
  (ofDigits? digits).filter (· < limit)

/-- A number below a limit, read as a signed one: zero may be negative. -/
def signed? (limit : Nat) (s : String) : Option Nat :=
  match s.toList with
  | '-' :: cs => (ofDigits? cs).filter (· == 0)
  | _ => unsigned? limit s

end LiveMedia.Number
