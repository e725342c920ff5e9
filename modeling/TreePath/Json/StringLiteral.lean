import TreePath.Json.Fault
import TreePath.Text.Bytes

set_option autoImplicit false

/-!
Strings in JSON text. Writing escapes only what must be escaped; reading takes every escape,
joining pairs of surrogates, and skipping checks the form of escapes alone.
-/

namespace TreePath.Json

/-! ## Writing -/

def hexDigit (number : Nat) : Char :=
  Nat.digitChar (number % 16)

/-- A character as it stands in a string. Only quotes, backslashes and controls are escaped. -/
def escaped (character : Char) : List Char :=
  if character = '"' then ['\\', '"']
  else if character = '\\' then ['\\', '\\']
  else if character = '\x08' then ['\\', 'b']
  else if character = '\x0c' then ['\\', 'f']
  else if character = '\n' then ['\\', 'n']
  else if character = '\r' then ['\\', 'r']
  else if character = '\t' then ['\\', 't']
  else if character.toNat < 32 then
    ['\\', 'u', '0', '0', hexDigit (character.toNat / 16), hexDigit character.toNat]
  else [character]

def writeString (text : String) : List Char :=
  '"' :: text.toList.flatMap escaped ++ ['"']

/-! ## Reading -/

def hexValue? (character : Char) : Option Nat :=
  if '0' ≤ character ∧ character ≤ '9' then some (character.toNat - '0'.toNat)
  else if 'a' ≤ character ∧ character ≤ 'f' then some (character.toNat - 'a'.toNat + 10)
  else if 'A' ≤ character ∧ character ≤ 'F' then some (character.toNat - 'A'.toNat + 10)
  else none

/-- The number that four hexadecimal digits stand for. -/
def hexUnit? (first second third fourth : Char) : Option Nat :=
  match hexValue? first, hexValue? second, hexValue? third, hexValue? fourth with
  | some a, some b, some c, some d => some (a * 4096 + b * 256 + c * 16 + d)
  | _, _, _, _ => none

def isLeading (unit : Nat) : Bool :=
  0xD800 ≤ unit && unit ≤ 0xDBFF

def isTrailing (unit : Nat) : Bool :=
  0xDC00 ≤ unit && unit ≤ 0xDFFF

def joinSurrogates (leading trailing : Nat) : Char :=
  Char.ofNat (0x10000 + (leading - 0xD800) * 0x400 + (trailing - 0xDC00))

/-- The fault of an escape whose four digits are not there. -/
def hexFault (text : List Char) : Fault :=
  if Text.byteLength text < 4 then .truncated else .malformed

/-- The character that a backslash and this letter stand for. -/
def unescape? (letter : Char) : Option Char :=
  if letter = '"' then some '"'
  else if letter = '\\' then some '\\'
  else if letter = '/' then some '/'
  else if letter = 'b' then some '\x08'
  else if letter = 'f' then some '\x0c'
  else if letter = 'n' then some '\n'
  else if letter = 'r' then some '\r'
  else if letter = 't' then some '\t'
  else none

/-- What an escaped leading surrogate is followed by: the escape of a trailing one. -/
def readTrailing : List Char → Except Fault (Nat × List Char)
  | '\\' :: 'u' :: first :: second :: third :: fourth :: rest =>
      match hexUnit? first second third fourth with
      | some unit => if isTrailing unit then .ok (unit, rest) else .error .malformed
      | none => .error .malformed
  | '\\' :: 'u' :: short => .error (hexFault short)
  | '\\' :: other => .error (.unexpected other)
  | other => .error (.unexpected other)

def readEscape : List Char → Except Fault (Char × List Char)
  | 'u' :: first :: second :: third :: fourth :: rest =>
      match hexUnit? first second third fourth with
      | none => .error .malformed
      | some unit =>
          if isTrailing unit then .error .malformed
          else if isLeading unit then
            (readTrailing rest).map fun (trailing, left) => (joinSurrogates unit trailing, left)
          else .ok (Char.ofNat unit, rest)
  | 'u' :: short => .error (hexFault short)
  | letter :: rest =>
      match unescape? letter with
      | some character => .ok (character, rest)
      | none => .error .malformed
  | [] => .error .truncated

/-- Skips what a backslash introduces. Surrogates may stand alone. -/
def skipEscape : List Char → Except Fault (List Char)
  | 'u' :: first :: second :: third :: fourth :: rest =>
      match hexUnit? first second third fourth with
      | some _ => .ok rest
      | none => .error .malformed
  | 'u' :: short => .error (hexFault short)
  | letter :: rest => if (unescape? letter).isSome then .ok rest else .error .malformed
  | [] => .error .truncated

/-- Reads a string after its opening quote. `fuel` bounds the characters of the string and
`reversed` holds those already read. -/
def readCharacters : Nat → List Char → List Char → Except Fault (String × List Char)
  | 0, _, _ => .error .truncated
  | _ + 1, _, [] => .error .truncated
  | fuel + 1, reversed, character :: rest =>
      if character = '"' then .ok (String.ofList reversed.reverse, rest)
      else if character = '\\' then
        match readEscape rest with
        | .ok (escaped, left) => readCharacters fuel (escaped :: reversed) left
        | .error fault => .error fault
      else if character.toNat < 32 then .error .malformed
      else readCharacters fuel (character :: reversed) rest

def readString (text : List Char) : Except Fault (String × List Char) :=
  readCharacters (text.length + 1) [] text

def skipCharacters : Nat → List Char → Except Fault (List Char)
  | 0, _ => .error .truncated
  | _ + 1, [] => .error .truncated
  | fuel + 1, character :: rest =>
      if character = '"' then .ok rest
      else if character = '\\' then
        match skipEscape rest with
        | .ok left => skipCharacters fuel left
        | .error fault => .error fault
      else if character.toNat < 32 then .error .malformed
      else skipCharacters fuel rest

def skipString (text : List Char) : Except Fault (List Char) :=
  skipCharacters (text.length + 1) text

end TreePath.Json
