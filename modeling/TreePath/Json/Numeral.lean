import TreePath.Json.Basic
import TreePath.Json.Fault
import TreePath.Number.Decimal
import TreePath.Number.Scaling

set_option autoImplicit false

/-!
Numbers in JSON text. Whether a numeral is an integer or a float shows in its form and in its
size, never in its value: `1.0` and `1e0` are floats, and so is an integer of more than 64 bits.
-/

namespace TreePath.Json

/-! ## Writing -/

/-- Floats show that they are floats: a whole one ends in `.0`, and very large and very small
ones have an exponent. -/
def floatLayout : Layout where
  tie := .even
  positional exponent := -5 ≤ exponent ∧ exponent ≤ 15
  wholeTail := ['.', '0']

def Number.write : Number → List Char
  | int value _ _ => (if value < 0 then ['-'] else []) ++ Decimal.digits value.natAbs
  | float value _ => floatLayout.write value

/-! ## Reading -/

structure Numeral where
  negative : Bool
  whole : List Char
  /-- The digits after the point, if there is one. -/
  fraction : Option (List Char)
  /-- The sign and the digits of the exponent, if there is one. -/
  exponent : Option (Bool × List Char)

namespace Numeral

def digitsValue (digits : List Char) : Nat :=
  Nat.ofDigitChars 10 digits 0

/-- A significand has 64 bits, so it stays below this number. -/
def significandBound : Nat :=
  0x10000000000000000

/-- Appends digits to a significand as long as it stays below the bound. Gives the significand
and the digits for which there was no room. -/
def appendDigits (significand : Nat) : List Char → Nat × List Char
  | [] => (significand, [])
  | digit :: rest =>
      let longer := 10 * significand + digitsValue [digit]
      if longer < significandBound then appendDigits longer rest
      else (significand, digit :: rest)

/-- The significand and the power of ten that a numeral stands for. Digits for which there is
no room count as zeros. -/
def toDecimal (numeral : Numeral) : Decimal :=
  let (whole, wholeLeft) := appendDigits 0 numeral.whole
  let fraction := numeral.fraction.getD []
  let (significand, fractionLeft) := appendDigits whole fraction
  let written : Int :=
    match numeral.exponent with
    | none => 0
    | some (true, digits) => -digitsValue digits
    | some (false, digits) => digitsValue digits
  ⟨significand, wholeLeft.length - (fraction.length - fractionLeft.length : Nat) + written⟩

/-- The significand is rounded to a float and the float is scaled, rounding in each step. -/
def toFloat (numeral : Numeral) : Binary64 :=
  let decimal := numeral.toDecimal
  (Binary64.ofDecimal numeral.negative decimal.coefficient 0).scaleByTen decimal.exponent

/-- A numeral without point and exponent is an integer if 64 bits hold it, and any other is a
float. There is no integer for minus zero. Beyond the floats there is no number. -/
def toNumber? (numeral : Numeral) : Option Number :=
  let value := digitsValue numeral.whole
  let integer : Option Number :=
    if numeral.fraction.isSome || numeral.exponent.isSome then none
    else if numeral.negative then if value = 0 then none else Number.ofInt? (-value)
    else Number.ofInt? value
  integer.or (Number.ofFloat? numeral.toFloat)

end Numeral

/-- Reads digits, of which there must be one. -/
def readDigits (text : List Char) : Except Fault (List Char × List Char) :=
  match text.takeWhile Char.isDigit with
  | [] => .error (.unexpected text)
  | digits => .ok (digits, text.dropWhile Char.isDigit)

/-- Reads the digits before the point: a zero stands alone. -/
def readWhole : List Char → Except Fault (List Char × List Char)
  | '0' :: rest =>
      match rest with
      | next :: _ => if next.isDigit then .error .malformed else .ok (['0'], rest)
      | [] => .ok (['0'], rest)
  | text => readDigits text

def readFraction : List Char → Except Fault (Option (List Char) × List Char)
  | '.' :: rest => (readDigits rest).map fun (digits, left) => (some digits, left)
  | text => .ok (none, text)

def readSign : List Char → Bool × List Char
  | '-' :: rest => (true, rest)
  | '+' :: rest => (false, rest)
  | text => (false, text)

def readExponent : List Char → Except Fault (Option (Bool × List Char) × List Char)
  | [] => .ok (none, [])
  | mark :: rest =>
      if mark = 'e' || mark = 'E' then
        let (negative, unsigned) := readSign rest
        (readDigits unsigned).map fun (digits, left) => (some (negative, digits), left)
      else .ok (none, mark :: rest)

def readNumeral (text : List Char) : Except Fault (Numeral × List Char) := do
  let (negative, unsigned) :=
    match text with
    | '-' :: rest => (true, rest)
    | other => (false, other)
  let (whole, afterWhole) ← readWhole unsigned
  let (fraction, afterFraction) ← readFraction afterWhole
  let (exponent, rest) ← readExponent afterFraction
  return (⟨negative, whole, fraction, exponent⟩, rest)

def readNumber (text : List Char) : Except Fault (Number × List Char) := do
  let (numeral, rest) ← readNumeral text
  match numeral.toNumber? with
  | some value => return (value, rest)
  | none => .error .malformed

/-- Skips a number of any size. One that is cut short counts as malformed. -/
def skipNumber (text : List Char) : Except Fault (List Char) :=
  match readNumeral text with
  | .ok (_, rest) => .ok rest
  | .error _ => .error .malformed

end TreePath.Json
