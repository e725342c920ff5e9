set_option autoImplicit false

/-!
What all readers of JSON text share: the faults of a text, blanks, and fixed words. A reader
takes the text that is left and gives a result with the text after it, or a fault.
-/

namespace TreePath.Json

/-- Why a text cannot be read. -/
inductive Fault where
  /-- The text ends inside a value or before one. -/
  | truncated
  /-- The text is not JSON, or holds a number or a nesting beyond the limits. -/
  | malformed
  /-- The text is sound so far but does not describe what is asked for. -/
  | mistyped
  deriving DecidableEq

/-- The fault of a text that goes on with something unexpected, or ends. -/
def Fault.unexpected : List Char → Fault
  | [] => .truncated
  | _ :: _ => .malformed

def isBlank (character : Char) : Bool :=
  character = ' ' || character = '\n' || character = '\t' || character = '\r'

def skipBlanks (text : List Char) : List Char :=
  text.dropWhile isBlank

/-- Reads the characters of a word. -/
def readWord : List Char → List Char → Except Fault (List Char)
  | [], text => .ok text
  | _ :: _, [] => .error .truncated
  | expected :: word, character :: rest =>
      if character = expected then readWord word rest else .error .malformed

end TreePath.Json
