import TreePath.Path.Pieces

set_option autoImplicit false

/-!
The tokens of a path, as looking it up sees them: the non-empty words between marks. A token
made only of digits may name an array slot; on an object every token names the member with
its text.
-/

namespace TreePath.Path

/-- Array indices are words of 64 bits, and stay below two to the 64th. -/
def indexBound : Nat := 0x10000000000000000

def digitValue? (character : Char) : Option Nat :=
  if character.isDigit then some (character.toNat - '0'.toNat) else none

/-- Appends digits to the number read so far. A character that is not a digit refuses the
text, and so does a number that outgrows `indexBound`. -/
def appendDigits? (value : Nat) : List Char → Option Nat
  | [] => some value
  | character :: rest =>
      match digitValue? character with
      | none => none
      | some digit =>
          let extended := 10 * value + digit
          if extended < indexBound then appendDigits? extended rest else none

/-- Reads a non-empty run of ASCII digits, leading zeros allowed. -/
def parseIndex? (text : String) : Option Nat :=
  match text.toList with
  | [] => none
  | digits => appendDigits? 0 digits

inductive Token where
  | key (text : String)
  | index (value : Nat) (text : String)
  deriving DecidableEq

namespace Token

def ofText (text : String) : Token :=
  match parseIndex? text with
  | some value => .index value text
  | none => .key text

def raw : Token → String
  | key text => text
  | index _ text => text

/-- The token written as one step of a path. -/
def display : Token → String
  | key text => "." ++ text
  | index value _ => "[" ++ toString value ++ "]"

@[simp] theorem raw_ofText (text : String) : (ofText text).raw = text := by
  unfold ofText
  split <;> rfl

end Token

/-- The tokens of a text; empty words, as between `]` and `.`, are none. -/
def tokensOf (text : List Char) : List Token :=
  ((Pieces.ofText text).words.filter fun word => !word.isEmpty).map fun word =>
    Token.ofText (String.ofList word)

def tokens (path : String) : List Token :=
  tokensOf path.toList

/-- A key can stand for itself in a path when it is not empty and holds no mark. -/
def isPlainKey (key : String) : Bool :=
  !key.toList.isEmpty && unmarked key.toList

end TreePath.Path
