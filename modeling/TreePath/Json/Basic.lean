import TreePath.Number.Binary64

set_option autoImplicit false

/-!
JSON values. A number is an integer of at most 64 bits, signed or unsigned, or a finite float.
The members of an object are a list, which is in order of its keys where an object is read from
text or made from a tree, and in a chosen order where a document is composed.
-/

namespace TreePath

def Json.leastInt : Int :=
  -0x8000000000000000

def Json.greatestInt : Int :=
  0xffffffffffffffff

inductive Json.Number where
  | int (value : Int) (least : leastInt ≤ value) (most : value ≤ greatestInt)
  | float (value : Binary64) (finite : value.isFinite = true)
  deriving DecidableEq

inductive Json where
  | null
  | bool (value : Bool)
  | number (value : Json.Number)
  | string (value : String)
  | array (items : List Json)
  | object (members : List (String × Json))

namespace Json

instance : Inhabited Json := ⟨null⟩

/-- Puts a member into its place among members sorted by key. A member with the same key gives
way to it. -/
def insertSorted (key : String) (value : Json) : List (String × Json) → List (String × Json)
  | [] => [(key, value)]
  | (name, other) :: rest =>
      if key < name then (key, value) :: (name, other) :: rest
      else if key = name then (key, value) :: rest
      else (name, other) :: insertSorted key value rest

/-- A float as a number, unless it is infinite or a NaN. -/
def Number.ofFloat? (value : Binary64) : Option Number :=
  if finite : value.isFinite = true then some (.float value finite) else none

/-- An integer as a number, unless it takes more than 64 bits. -/
def Number.ofInt? (value : Int) : Option Number :=
  if fits : leastInt ≤ value ∧ value ≤ greatestInt then some (.int value fits.1 fits.2) else none

end Json

end TreePath
