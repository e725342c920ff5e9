import TreePath.Text.Quoted
import TreePath.Tree.Json

set_option autoImplicit false

/-!
The text of a node in messages. Scalars are shown for what they are, with floats written in
full and strings quoted; containers are shown as JSON.
-/

namespace TreePath

/-- Floats in messages have no exponent, and whole ones no point. -/
def Binary64.displayLayout : Layout where
  tie := .up
  positional _ := true
  wholeTail := []

def Binary64.display (number : Binary64) : String :=
  if number.isNaN then "NaN"
  else if number.isFinite then String.ofList (displayLayout.write number)
  else if number.signed then "-inf"
  else "inf"

def Tree.display : Tree → String
  | absent => "absent"
  | null => "null"
  | bool true => "true"
  | bool false => "false"
  | int value => toString value.toInt
  | float value => value.display
  | string value => Text.quoted value
  | object members => (object members).compact
  | array slots => (array slots).compact

end TreePath
