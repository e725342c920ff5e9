import TreePath.Engine.Basic
import TreePath.Json.Reader
import TreePath.Json.Writer

set_option autoImplicit false

/-!
Configurations as JSON documents. A document is an object with the fields by name, of which any
may be missing and unknown ones are skipped, or an array of the fields in order, of which the
last may be missing.
-/

namespace TreePath

namespace Config

/-- The fields that a document has given so far. -/
structure Fields where
  maxArrayIndex : Option Nat := none
  enumerateNulls : Option Bool := none

/-- Fields that a document does not give have their defaults. -/
def ofFields (fields : Fields) : Config where
  maxArrayIndex := fields.maxArrayIndex.getD defaultMaxArrayIndex
  enumerateNulls := fields.enumerateNulls.getD false

open Json

/-- The value of an index limit: an integer that is not negative. -/
def limitOf? : Json → Option Nat
  | .number (.int value _ _) => if 0 ≤ value then some value.toNat else none
  | _ => none

def flagOf? : Json → Option Bool
  | .bool value => some value
  | _ => none

/-- Reads a field of some type. A container has no such type whatever is in it; a scalar is
read first and then judged. -/
def readField {Value : Type} (valueOf? : Json → Option Value) (text : List Char) :
    Except Fault (Value × List Char) :=
  match skipBlanks text with
  | [] => .error .truncated
  | first :: rest =>
      if first = '[' || first = '\x7b' then .error .mistyped
      else
        match readScalar (first :: rest) with
        | .error fault => .error fault
        | .ok (json, left) =>
            match valueOf? json with
            | some value => .ok (value, left)
            | none => .error .mistyped

/-- Reads one member of the document into the fields. A field may be given once. -/
def readMember (fields : Fields) (text : List Char) : Except Fault (Fields × List Char) := do
  let (key, afterKey) ← readKey text
  if key = "max_array_index" then
    if fields.maxArrayIndex.isSome then throw .mistyped
    let (limit, rest) ← readField limitOf? (← readColon afterKey)
    return ({ fields with maxArrayIndex := some limit }, rest)
  else if key = "enumerate_nulls" then
    if fields.enumerateNulls.isSome then throw .mistyped
    let (flag, rest) ← readField flagOf? (← readColon afterKey)
    return ({ fields with enumerateNulls := some flag }, rest)
  else
    let rest ← skipValue (← readColon afterKey)
    return (fields, rest)

def readEnd (config : Config) (text : List Char) : Except Fault (Config × List Char) :=
  match skipBlanks text with
  | ']' :: rest => .ok (config, rest)
  | other => .error (.unexpected other)

/-- Reads the fields of an array in order, after its opening bracket. -/
def readArray (text : List Char) : Except Fault (Config × List Char) :=
  match skipBlanks text with
  | ']' :: rest => .ok ({}, rest)
  | items => do
      let (limit, afterLimit) ← readField limitOf? items
      match skipBlanks afterLimit with
      | ',' :: more =>
          let (flag, rest) ← readField flagOf? more
          readEnd ⟨limit, flag⟩ rest
      | other => readEnd { maxArrayIndex := limit } other

def readDocument (text : List Char) : Except Fault (Config × List Char) :=
  match skipBlanks text with
  | '{' :: rest =>
      (sequence '}' readMember {} rest).map fun (fields, left) => (ofFields fields, left)
  | '[' :: rest => readArray rest
  | other =>
      match readScalar other with
      | .error fault => .error fault
      | .ok _ => .error .mistyped

def parse (text : String) : Except Fault Config :=
  whole readDocument text

end Config

namespace Engine

def document (engine : Engine) : Json :=
  .object
    [ ("max_array_index", .number (.int engine.config.maxArrayIndex
        (by simp only [Json.leastInt]; omega) (by
          have bound := engine.valid.2
          simp only [maxArrayIndexCap] at bound
          simp only [Json.greatestInt]
          omega))),
      ("enumerate_nulls", .bool engine.config.enumerateNulls) ]

end Engine

end TreePath
