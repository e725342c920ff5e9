set_option autoImplicit false

/-!
Floating-point numbers of 64 bits, held as their bits. All arithmetic on them is exact
arithmetic on natural numbers followed by one rounding: to the nearest representable number,
and to the one with the even significand when two are equally near.

Without the sign bit the bits of the numbers count upwards with their values, infinity coming
right after the largest finite number. So a rounding that carries into the exponent, or past
the largest number, is plain addition.
-/

namespace TreePath

structure Binary64 where
  bits : UInt64
  deriving DecidableEq

namespace Binary64

/-- The weight of the sign bit, the last of 64. -/
def signBit : Nat :=
  0x8000000000000000

/-- The weight of the bits above the 52 stored bits of a significand. A normal number has this
bit in its significand without storing it. -/
def hiddenBit : Nat :=
  0x10000000000000

/-- Whether the sign bit is set. It is for -0.0 and may be for a NaN. -/
def signed (number : Binary64) : Bool :=
  signBit ≤ number.bits.toNat

/-- The bits without the sign. -/
def magnitude (number : Binary64) : Nat :=
  number.bits.toNat % signBit

def infinite : Nat :=
  2047 * hiddenBit

def isFinite (number : Binary64) : Bool :=
  number.magnitude < infinite

def isNaN (number : Binary64) : Bool :=
  infinite < number.magnitude

def isZero (number : Binary64) : Bool :=
  number.magnitude == 0

/-- Whether the number is less than zero, which -0.0 and NaN are not. -/
def isNegative (number : Binary64) : Bool :=
  number.signed && !number.isNaN && !number.isZero

/-- Equality of values: NaN equals nothing, and the two zeros are equal. -/
def equal (left right : Binary64) : Bool :=
  !left.isNaN && !right.isNaN && (left.bits == right.bits || (left.isZero && right.isZero))

def ofMagnitude (signed : Bool) (magnitude : Nat) : Binary64 :=
  ⟨UInt64.ofNat (if signed then signBit + magnitude else magnitude)⟩

/-- A finite number is `significand * 2 ^ exponent`, apart from its sign. -/
def significand (number : Binary64) : Nat :=
  if number.magnitude < hiddenBit then number.magnitude
  else hiddenBit + number.magnitude % hiddenBit

def exponent (number : Binary64) : Int :=
  (Nat.max (number.magnitude / hiddenBit) 1 : Nat) - 1075

/-- The quotient rounded to the nearest integer, a half going to the even neighbour. -/
def roundedQuotient (numerator denominator : Nat) : Nat :=
  let quotient := numerator / denominator
  let double := 2 * (numerator % denominator)
  if double < denominator then quotient
  else if denominator < double then quotient + 1
  else quotient + quotient % 2

/-- The numerator and denominator of `numerator / denominator * 2 ^ exponent`. -/
def scale (numerator denominator : Nat) (exponent : Int) : Nat × Nat :=
  (numerator <<< exponent.toNat, denominator <<< (-exponent).toNat)

/-- The numerator and denominator of a finite number without its sign. -/
def ratio (number : Binary64) : Nat × Nat :=
  scale number.significand 1 number.exponent

/-- The exponent of the greatest power of two that is at most `numerator / denominator`. -/
def floorLog (numerator denominator : Nat) : Int :=
  let guess : Int := numerator.log2 - denominator.log2
  let scaled := scale numerator denominator (-guess)
  if scaled.1 < scaled.2 then guess - 1 else guess

/-- The magnitude nearest to a non-negative quotient. The quotient is first counted in units
of the last place of the numbers around it. -/
def nearestMagnitude (numerator denominator : Nat) : Nat :=
  if numerator = 0 then 0
  else
    let unit : Int := max (floorLog numerator denominator - 52) (-1074)
    let scaled := scale numerator denominator (-unit)
    Nat.min ((unit + 1074).toNat * hiddenBit + roundedQuotient scaled.1 scaled.2) infinite

def ofInt (value : Int) : Binary64 :=
  ofMagnitude (value < 0) (nearestMagnitude value.natAbs 1)

/-- The product of two finite numbers, rounded. -/
def mul (left right : Binary64) : Binary64 :=
  let (numerator, denominator) := left.ratio
  let (otherNumerator, otherDenominator) := right.ratio
  ofMagnitude (left.signed != right.signed)
    (nearestMagnitude (numerator * otherNumerator) (denominator * otherDenominator))

/-- The quotient of two finite numbers of which the second is not zero, rounded. -/
def div (left right : Binary64) : Binary64 :=
  let (numerator, denominator) := left.ratio
  let (otherNumerator, otherDenominator) := right.ratio
  ofMagnitude (left.signed != right.signed)
    (nearestMagnitude (numerator * otherDenominator) (denominator * otherNumerator))

/-- The magnitude nearest to `coefficient * 10 ^ exponent`. Exponents that put the product
beyond every finite number, or below half of the least one, are settled without computing the
power. -/
def magnitudeOfDecimal (coefficient : Nat) (exponent : Int) : Nat :=
  if coefficient = 0 then 0
  else if 310 < exponent then infinite
  else if exponent < 0 ∧ coefficient.log2 + 1080 < 3 * exponent.natAbs then 0
  else nearestMagnitude (coefficient * Nat.pow 10 exponent.toNat) (Nat.pow 10 (-exponent).toNat)

/-- The number nearest to a decimal. -/
def ofDecimal (signed : Bool) (coefficient : Nat) (exponent : Int) : Binary64 :=
  ofMagnitude signed (magnitudeOfDecimal coefficient exponent)

/-- The number that 32 bits stand for, which is exact: every binary32 number is a binary64
number. Eight bits of exponent stand above the 23 stored bits of the significand. All NaNs
become one. -/
def ofBinary32 (bits : UInt32) : Binary64 :=
  let narrowSignBit := 0x80000000
  let narrowHiddenBit := 0x800000
  let narrow := bits.toNat % narrowSignBit
  let signed : Bool := narrowSignBit ≤ bits.toNat
  if 255 * narrowHiddenBit < narrow then ofMagnitude signed (infinite + hiddenBit / 2)
  else if narrow = 255 * narrowHiddenBit then ofMagnitude signed infinite
  else
    let significand :=
      if narrow < narrowHiddenBit then narrow else narrowHiddenBit + narrow % narrowHiddenBit
    let scaled := scale significand 1 ((Nat.max (narrow / narrowHiddenBit) 1 : Nat) - 150)
    ofMagnitude signed (nearestMagnitude scaled.1 scaled.2)

end Binary64

end TreePath
