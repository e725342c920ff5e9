import TreePath.Json.Numeral
import TreePath.Json.StringLiteral

set_option autoImplicit false

/-!
Reading JSON values. `sequence` is the one loop over the items of a container; what is done
with an item is up to its caller.

Values are read strictly or skipped. Skipping checks punctuation and escapes but neither the
size of numbers, nor the pairing of surrogates, nor the depth of nesting.
-/

namespace TreePath.Json

/-- Containers within containers may be at most this many deep. -/
def maxNesting : Nat :=
  127

def readScalar : List Char → Except Fault (Json × List Char)
  | [] => .error .truncated
  | first :: rest =>
      if first = 'n' then (readWord ['u', 'l', 'l'] rest).map fun left => (null, left)
      else if first = 't' then (readWord ['r', 'u', 'e'] rest).map fun left => (bool true, left)
      else if first = 'f' then
        (readWord ['a', 'l', 's', 'e'] rest).map fun left => (bool false, left)
      else if first = '"' then (readString rest).map fun (text, left) => (string text, left)
      else if first = '-' || first.isDigit then
        (readNumber (first :: rest)).map fun (value, left) => (number value, left)
      else .error .malformed

/-- Reads items with commas between them up to the closing bracket. `item` reads one item and
passes on what is known of those before it; `fuel` bounds their number. -/
def readItems {State : Type} (closing : Char)
    (item : State → List Char → Except Fault (State × List Char)) :
    Nat → State → List Char → Except Fault (State × List Char)
  | 0, _, _ => .error .malformed
  | fuel + 1, state, text =>
      match item state text with
      | .error fault => .error fault
      | .ok (next, left) =>
          match skipBlanks left with
          | [] => .error .truncated
          | character :: rest =>
              if character = ',' then readItems closing item fuel next rest
              else if character = closing then .ok (next, rest)
              else .error .malformed

/-- Reads the inside of a container after its opening bracket. -/
def sequence {State : Type} (closing : Char)
    (item : State → List Char → Except Fault (State × List Char)) (state : State)
    (text : List Char) : Except Fault (State × List Char) :=
  match skipBlanks text with
  | [] => .error .truncated
  | character :: rest =>
      if character = closing then .ok (state, rest)
      else readItems closing item text.length state text

def readColon (text : List Char) : Except Fault (List Char) :=
  match skipBlanks text with
  | ':' :: rest => .ok rest
  | other => .error (.unexpected other)

def readKey (text : List Char) : Except Fault (String × List Char) :=
  match skipBlanks text with
  | '"' :: rest => readString rest
  | other => .error (.unexpected other)

/-- Reads one member of an object into those before it. -/
def readMember (value : List Char → Except Fault (Json × List Char))
    (members : List (String × Json)) (text : List Char) :
    Except Fault (List (String × Json) × List Char) := do
  let (key, afterKey) ← readKey text
  let afterColon ← readColon afterKey
  let (child, rest) ← value afterColon
  return (insertSorted key child members, rest)

/-- Reads one item of an array onto those before it, the last foremost. -/
def readElement (value : List Char → Except Fault (Json × List Char)) (items : List Json)
    (text : List Char) : Except Fault (List Json × List Char) :=
  (value text).map fun (item, rest) => (item :: items, rest)

/-- Reads a value in which containers nest at most `nesting` deep. -/
def readValue (nesting : Nat) (text : List Char) : Except Fault (Json × List Char) :=
  match skipBlanks text with
  | '[' :: rest =>
      match nesting with
      | 0 => .error .malformed
      | nesting + 1 =>
          (sequence ']' (readElement (readValue nesting)) [] rest).map fun (items, left) =>
            (array items.reverse, left)
  | '{' :: rest =>
      match nesting with
      | 0 => .error .malformed
      | nesting + 1 =>
          (sequence '}' (readMember (readValue nesting)) [] rest).map fun (members, left) =>
            (object members, left)
  | other => readScalar other

def skipScalar : List Char → Except Fault (List Char)
  | [] => .error .truncated
  | first :: rest =>
      if first = '"' then skipString rest
      else if first = '-' || first.isDigit then skipNumber (first :: rest)
      else (readScalar (first :: rest)).map Prod.snd

def skipElement (value : List Char → Except Fault (List Char)) (_ : Unit) (text : List Char) :
    Except Fault (Unit × List Char) :=
  (value text).map fun rest => ((), rest)

def skipMember (value : List Char → Except Fault (List Char)) (_ : Unit) (text : List Char) :
    Except Fault (Unit × List Char) := do
  let afterKey ←
    match skipBlanks text with
    | '"' :: rest => skipString rest
    | other => .error (.unexpected other)
  let afterColon ← readColon afterKey
  let rest ← value afterColon
  return ((), rest)

/-- Skips a value; `fuel` bounds the depth of its nesting. -/
def skipNested (fuel : Nat) (text : List Char) : Except Fault (List Char) :=
  match skipBlanks text with
  | '[' :: rest =>
      match fuel with
      | 0 => .error .malformed
      | fuel + 1 => (sequence ']' (skipElement (skipNested fuel)) () rest).map Prod.snd
  | '{' :: rest =>
      match fuel with
      | 0 => .error .malformed
      | fuel + 1 => (sequence '}' (skipMember (skipNested fuel)) () rest).map Prod.snd
  | other => skipScalar other

def skipValue (text : List Char) : Except Fault (List Char) :=
  skipNested text.length text

/-- The result of a reader that must take up the whole text. -/
def whole {Result : Type} (read : List Char → Except Fault (Result × List Char))
    (text : String) : Except Fault Result := do
  let (result, rest) ← read text.toList
  if (skipBlanks rest).isEmpty then return result else .error .malformed

def parse (text : String) : Except Fault Json :=
  whole (readValue maxNesting) text

end TreePath.Json
