/-!
# The nearest whole number

A double that is not negative is rounded to the nearest whole number that a word of 64 bits holds; a
half is rounded up. The part behind the point is exact, because a double that has one is so small that
its whole part is a double, too.
-/

namespace LiveMedia.Number

/-- The whole number nearest to `x`. -/
def nearest (x : Float) : Nat :=
  let whole := x.toUInt64
  if 0.5 ≤ x - whole.toFloat then min (whole.toNat + 1) ((1 <<< 64) - 1) else whole.toNat

end LiveMedia.Number
