import TreePath.Json.Basic
import TreePath.Json.Fault
import TreePath.Tree.Kind

set_option autoImplicit false

/-!
Kinds as JSON: the name of the kind as a string. Where a kind is read, an object whose only
member has that name and the value null stands for it too.
-/

namespace TreePath

/-- The name that a document gives. -/
def kindName? : Json → Option String
  | .string name => some name
  | .object [(name, .null)] => some name
  | _ => none

namespace Kind

def toJson (kind : Kind) : Json :=
  .string kind.name

def ofJson (json : Json) : Except Json.Fault Kind :=
  match (kindName? json).bind ofName? with
  | some kind => .ok kind
  | none => .error .mistyped

theorem ofJson_toJson (kind : Kind) : ofJson kind.toJson = .ok kind := by
  simp [ofJson, toJson, kindName?]

end Kind

namespace ContainerKind

def toJson (kind : ContainerKind) : Json :=
  .string kind.name

def ofJson (json : Json) : Except Json.Fault ContainerKind :=
  match (kindName? json).bind ofName? with
  | some kind => .ok kind
  | none => .error .mistyped

theorem ofJson_toJson (kind : ContainerKind) : ofJson kind.toJson = .ok kind := by
  simp [ofJson, toJson, kindName?]

end ContainerKind

end TreePath
