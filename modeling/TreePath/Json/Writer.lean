import TreePath.Json.Numeral
import TreePath.Json.StringLiteral

set_option autoImplicit false

/-!
The text of JSON values. The compact form has no blanks; the pretty form puts every member and
item on a line of its own, indented by two spaces a level.
-/

namespace TreePath.Json

/-- The blanks of a written form. -/
structure Style where
  /-- What stands before an item at a depth, and before the bracket that closes its container. -/
  gap : Nat → List Char
  colon : List Char

namespace Style

def compact : Style where
  gap _ := []
  colon := [':']

def pretty : Style where
  gap depth := '\n' :: List.replicate (2 * depth) ' '
  colon := [':', ' ']

end Style

mutual

/-- Writes a value that stands at a depth. -/
def write (style : Style) (depth : Nat) : Json → List Char
  | null => ['n', 'u', 'l', 'l']
  | bool true => ['t', 'r', 'u', 'e']
  | bool false => ['f', 'a', 'l', 's', 'e']
  | number value => value.write
  | string value => writeString value
  | array [] => ['[', ']']
  | array (item :: rest) =>
      '[' :: style.gap (depth + 1) ++ write style (depth + 1) item ++
        writeItems style (depth + 1) rest ++ style.gap depth ++ [']']
  | object [] => ['{', '}']
  | object ((key, value) :: rest) =>
      '{' :: style.gap (depth + 1) ++ writeString key ++ style.colon ++
        write style (depth + 1) value ++ writeMembers style (depth + 1) rest ++ style.gap depth ++
        ['}']
termination_by structural value => value

/-- Writes the items after the first, each behind a comma. -/
def writeItems (style : Style) (depth : Nat) : List Json → List Char
  | [] => []
  | item :: rest =>
      ',' :: style.gap depth ++ write style depth item ++ writeItems style depth rest
termination_by structural items => items

def writeMembers (style : Style) (depth : Nat) : List (String × Json) → List Char
  | [] => []
  | (key, value) :: rest =>
      ',' :: style.gap depth ++ writeString key ++ style.colon ++ write style depth value ++
        writeMembers style depth rest
termination_by structural members => members

end

def compact (value : Json) : String :=
  String.ofList (value.write .compact 0)

def pretty (value : Json) : String :=
  String.ofList (value.write .pretty 0)

end TreePath.Json
