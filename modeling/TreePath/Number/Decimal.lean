import TreePath.Number.Binary64

set_option autoImplicit false

/-!
The decimal text of a floating-point number: the fewest digits that read back as the number,
and of the texts with that many digits the nearest one. `Layout` says how the digits are set
out, `Layout.write` sets them.
-/

namespace TreePath

/-- The decimal `coefficient * 10 ^ exponent`. -/
structure Decimal where
  coefficient : Nat
  exponent : Int
  deriving DecidableEq

namespace Decimal

def digits (number : Nat) : List Char :=
  Nat.toDigits 10 number

/-- The number of digits before the point of a positive quotient; for a quotient below one
half, less by the zeros that follow the point. -/
def pointOf (numerator denominator : Nat) : Int :=
  if denominator ≤ numerator then (digits (numerator / denominator)).length
  else 1 - (digits ((denominator - 1) / numerator)).length

/-- Moves the trailing zeros of the coefficient into the exponent. At most `fuel` of them are
moved; a coefficient has fewer zeros than its size. -/
def strip (fuel : Nat) (number : Decimal) : Decimal :=
  match fuel with
  | 0 => number
  | fuel + 1 =>
      if number.coefficient ≠ 0 ∧ number.coefficient % 10 = 0 then
        strip fuel ⟨number.coefficient / 10, number.exponent + 1⟩
      else
        number

end Decimal

/-- Which of two decimals is taken when both are equally near to the number. -/
inductive Tie where
  | even
  | up
  deriving DecidableEq

namespace Binary64

/-- Whether a decimal reads back as the number, signs aside. -/
def isReadFrom (number : Binary64) (decimal : Decimal) : Bool :=
  magnitudeOfDecimal decimal.coefficient decimal.exponent == number.magnitude

/-- A decimal with at most `count` digits that reads back as the number: one of the two
neighbours of the number among the multiples of the last digit's unit. -/
def decimalWith? (tie : Tie) (number : Binary64) (count : Nat) : Option Decimal :=
  let (numerator, denominator) := number.ratio
  let unit := Decimal.pointOf numerator denominator - count
  let scaledNumerator := numerator * Nat.pow 10 (-unit).toNat
  let scaledDenominator := denominator * Nat.pow 10 unit.toNat
  let below : Decimal := ⟨scaledNumerator / scaledDenominator, unit⟩
  let above : Decimal := ⟨below.coefficient + 1, unit⟩
  let double := 2 * (scaledNumerator % scaledDenominator)
  let belowIsNearer : Bool :=
    if double = scaledDenominator then tie == .even && below.coefficient % 2 == 0
    else double < scaledDenominator
  let candidates := if belowIsNearer then [below, above] else [above, below]
  candidates.find? number.isReadFrom

def exactDecimal (number : Binary64) : Decimal :=
  if 0 ≤ number.exponent then ⟨number.significand <<< number.exponent.toNat, 0⟩
  else ⟨number.significand * Nat.pow 5 number.exponent.natAbs, number.exponent⟩

/-- The nearest of the shortest decimals that read back as a finite number. Seventeen digits
are always enough. -/
def shortest (tie : Tie) (number : Binary64) : Decimal :=
  let found := ((List.range' 1 17).findSome? (decimalWith? tie number)).getD number.exactDecimal
  found.strip found.coefficient.log2

end Binary64

/-- How the digits of a number are set out. -/
structure Layout where
  /-- Of two equally near decimals the one that is written. -/
  tie : Tie
  /-- The exponents of the first digit for which the number is written without an exponent. -/
  positional : Int → Bool
  /-- What follows the digits of a whole number that is written without an exponent. -/
  wholeTail : List Char

namespace Layout

def zeros (count : Nat) : List Char :=
  List.replicate count '0'

/-- Writes digits with the point in their middle, before them or after them. -/
def writePositional (layout : Layout) (digits : List Char) (exponent : Int) : List Char :=
  if 0 ≤ exponent then digits ++ zeros exponent.toNat ++ layout.wholeTail
  else
    let decimals := exponent.natAbs
    if decimals < digits.length then
      digits.take (digits.length - decimals) ++ '.' :: digits.drop (digits.length - decimals)
    else
      '0' :: '.' :: zeros (decimals - digits.length) ++ digits

/-- Writes the first digit before the point and an exponent with its sign after the last. -/
def writeScientific (digits : List Char) (firstExponent : Int) : List Char :=
  let fraction :=
    match digits with
    | first :: second :: rest => first :: '.' :: second :: rest
    | short => short
  let sign := if firstExponent < 0 then '-' else '+'
  fraction ++ 'e' :: sign :: Decimal.digits firstExponent.natAbs

def write (layout : Layout) (number : Binary64) : List Char :=
  let decimal := if number.isZero then ⟨0, 0⟩ else number.shortest layout.tie
  let digits := Decimal.digits decimal.coefficient
  let firstExponent := decimal.exponent + digits.length - 1
  let text :=
    if layout.positional firstExponent then layout.writePositional digits decimal.exponent
    else writeScientific digits firstExponent
  if number.signed then '-' :: text else text

end Layout

end TreePath
