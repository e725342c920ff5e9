import TreePath.Text.GraphemeExtend
import TreePath.Text.Unprintable

set_option autoImplicit false

/-!
A text between double quotes in which every character can be told from its written form:
what would not show by itself is written as an escape.
-/

namespace TreePath.Text

/-- The hexadecimal digits of a number, without leading zeros. -/
def hexDigits (number : Nat) : List Char :=
  Nat.toDigits 16 number

/-- The two half-width sound marks of Katakana extend the character before them, yet stand
beside it in a place of their own. -/
def isSoundMark (character : Char) : Bool :=
  character = '\uff9e' || character = '\uff9f'

/-- Characters that do not show by themselves. -/
def isHidden (character : Char) : Bool :=
  isUnprintable character || (isGraphemeExtend character && !isSoundMark character)

/-- The written form of one character. A single quote needs no escape. -/
def quotedCharacter (character : Char) : List Char :=
  match character with
  | '\x00' => ['\\', '0']
  | '\t' => ['\\', 't']
  | '\n' => ['\\', 'n']
  | '\r' => ['\\', 'r']
  | '"' => ['\\', '"']
  | '\\' => ['\\', '\\']
  | other =>
      if isHidden other then
        '\\' :: 'u' :: '\x7b' :: hexDigits other.toNat ++ ['\x7d']
      else
        [other]

def quoted (text : String) : String :=
  String.ofList ('"' :: text.toList.flatMap quotedCharacter ++ ['"'])

end TreePath.Text
