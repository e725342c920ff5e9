import TreePath.Json.Reader
import TreePath.Json.Writer
import TreePath.Tree.Members

set_option autoImplicit false

/-!
Trees as JSON values and back. JSON has no holes, no `absent` and no float that is not finite:
members that are `absent` are left out, and everything else of that sort becomes null. Members
come in order of their keys.
-/

namespace TreePath.Tree

def numberOfInt (value : Int64) : Json.Number :=
  .int value.toInt value.le_toInt (by
    have bound := value.toInt_lt
    simp only [Json.greatestInt]
    omega)

mutual

def toJson : Tree → Json
  | absent => .null
  | null => .null
  | bool value => .bool value
  | int value => .number (numberOfInt value)
  | float value =>
      match Json.Number.ofFloat? value with
      | some number => .number number
      | none => .null
  | string value => .string value
  | object members => .object (membersToJson members [])
  | array slots => .array (slotsToJson slots []).reverse
termination_by structural tree => tree

/-- Puts members into their places among those already converted. -/
def membersToJson : List (String × Tree) → List (String × Json) → List (String × Json)
  | [], sorted => sorted
  | (key, child) :: rest, sorted =>
      if child.isAbsent then membersToJson rest sorted
      else membersToJson rest (Json.insertSorted key (toJson child) sorted)
termination_by structural members => members

/-- Puts slots in front of those already converted, the last foremost. -/
def slotsToJson : List (Option Tree) → List Json → List Json
  | [], items => items
  | none :: rest, items => slotsToJson rest (.null :: items)
  | some child :: rest, items => slotsToJson rest (toJson child :: items)
termination_by structural slots => slots

end

/-- An integer that 64 bits with a sign hold stays one; a greater one becomes a float. -/
def ofNumber : Json.Number → Tree
  | .int value _ _ => if value < -Json.leastInt then int (.ofInt value) else float (.ofInt value)
  | .float value _ => float value

mutual

def ofJson : Json → Tree
  | .null => null
  | .bool value => bool value
  | .number value => ofNumber value
  | .string value => string value
  | .array items => array (slotsOfJson items []).reverse
  | .object members => object (membersOfJson members [])
termination_by structural json => json

def slotsOfJson : List Json → Slots → Slots
  | [], slots => slots
  | item :: rest, slots => slotsOfJson rest (some (ofJson item) :: slots)
termination_by structural items => items

def membersOfJson : List (String × Json) → Members → Members
  | [], members => members
  | (key, value) :: rest, members => membersOfJson rest (members.insert key (ofJson value))
termination_by structural entries => entries

end

def parse (text : String) : Except Json.Fault Tree :=
  (Json.parse text).map ofJson

def compact (tree : Tree) : String :=
  tree.toJson.compact

def pretty (tree : Tree) : String :=
  tree.toJson.pretty

end TreePath.Tree
