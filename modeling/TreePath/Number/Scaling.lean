import TreePath.Number.Binary64

set_option autoImplicit false

/-!
Scaling by powers of ten in steps. A power of ten is rounded before it takes part, and the
outcome of each step is rounded again, so after a few roundings the result may be a neighbour
of the number that is nearest to the scaled value. The steps are `mul` and `div`.
-/

namespace TreePath.Binary64

/-- The exponent of the greatest power of ten that is finite. -/
def greatestPower : Nat :=
  308

/-- The number nearest to a power of ten. -/
def powerOfTen (exponent : Nat) : Binary64 :=
  ofDecimal false 1 exponent

/-- Divides a number below `10 ^ 290` by a power of ten. A power that is not finite takes two
divisions, and two by the greatest finite one already leave nothing of the number. -/
def shrink (number : Binary64) (exponent : Nat) : Binary64 :=
  if exponent ≤ greatestPower then number.div (powerOfTen exponent)
  else
    (number.div (powerOfTen greatestPower)).div
      (powerOfTen (Nat.min (exponent - greatestPower) greatestPower))

/-- Multiplies a finite number by a power of ten. Zero stays zero, and any other number becomes
infinite under a power that is not finite. -/
def grow (number : Binary64) (exponent : Nat) : Binary64 :=
  if number.isZero then number
  else if exponent ≤ greatestPower then number.mul (powerOfTen exponent)
  else ofMagnitude number.signed infinite

def scaleByTen (number : Binary64) (exponent : Int) : Binary64 :=
  if exponent < 0 then number.shrink exponent.natAbs else number.grow exponent.natAbs

end TreePath.Binary64
