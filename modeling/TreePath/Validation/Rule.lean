import TreePath.Tree.Display
import TreePath.Tree.Equality
import TreePath.Validation.Service

set_option autoImplicit false

/-!
Ready-made validators: presence, sign, kind, distinct elements, and agreement of two fields.
-/

namespace TreePath

inductive Rule where
  /-- Something is stored at the field. -/
  | present
  /-- A number is not below zero. -/
  | noNegatives
  /-- The field at `path` is there and is of the kind called `kind`. -/
  | kind (path : String) (kind : String)
  /-- The elements of an array differ from each other. -/
  | distinct
  /-- The field at `path` is as the field at `other`. -/
  | same (path : String) (other : String)
  deriving DecidableEq

/-- The first of the elements that is equal to a later one. -/
def firstRepeated? : List Tree → Option Tree
  | [] => none
  | element :: rest => if rest.any element.equal then some element else firstRepeated? rest

namespace Rule

def name : Rule → String
  | present => "present"
  | noNegatives => "no_negatives"
  | kind _ _ => "kind"
  | distinct => "distinct"
  | same _ _ => "same"

/-- Nothing found equals nothing found. -/
def sameValue : Option Tree → Option Tree → Bool
  | none, none => true
  | some left, some right => left.equal right
  | _, _ => false

def check : Rule → Field → Except String Unit
  | present, field =>
      if field.value.isSome then .ok () else .error (field.path ++ " is missing")
  | noNegatives, field =>
      match field.value.bind Tree.float? with
      | some number =>
          if number.isNegative then .error (number.display ++ " is negative") else .ok ()
      | none => .ok ()
  | kind path expected, field =>
      if field.path = path then
        match field.value with
        | none => .error "required"
        | some node =>
            if node.kind.name = expected then .ok ()
            else .error ("expected " ++ expected ++ ", found " ++ node.kind.name)
      else .ok ()
  | distinct, field =>
      match field.value.bind Tree.slots? with
      | none => .ok ()
      | some slots =>
          match firstRepeated? (slots.filterMap id) with
          | some element => .error ("duplicate " ++ element.display)
          | none => .ok ()
  | same path other, field =>
      if field.path = path then
        if sameValue (Engine.standard.read? other field.root) field.value then .ok ()
        else .error ("does not match " ++ other)
      else .ok ()

def validator (rule : Rule) : Validator :=
  ⟨rule.name, rule.check⟩

end Rule

end TreePath
