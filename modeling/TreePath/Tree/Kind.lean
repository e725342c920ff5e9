set_option autoImplicit false

/-!
The kinds of tree nodes, and among them the two kinds that hold children.
-/

namespace TreePath

/-- What a node is, without its content. -/
inductive Kind where
  | absent
  | null
  | bool
  | int
  | float
  | string
  | object
  | array
  deriving DecidableEq

namespace Kind

def all : List Kind :=
  [.absent, .null, .bool, .int, .float, .string, .object, .array]

def name : Kind → String
  | absent => "absent"
  | null => "null"
  | bool => "bool"
  | int => "int"
  | float => "float"
  | string => "string"
  | object => "object"
  | array => "array"

def ofName? (text : String) : Option Kind :=
  all.find? fun kind => kind.name == text

@[simp] theorem ofName?_name (kind : Kind) : ofName? kind.name = some kind := by
  cases kind <;> decide

end Kind

/-- What a step through a path needs of the node it starts from: keys are members of objects,
indices are slots of arrays. -/
inductive ContainerKind where
  | object
  | array
  deriving DecidableEq

namespace ContainerKind

def all : List ContainerKind :=
  [.object, .array]

def toKind : ContainerKind → Kind
  | object => .object
  | array => .array

def name (kind : ContainerKind) : String :=
  kind.toKind.name

def ofName? (text : String) : Option ContainerKind :=
  all.find? fun kind => kind.name == text

@[simp] theorem ofName?_name (kind : ContainerKind) : ofName? kind.name = some kind := by
  cases kind <;> decide

end ContainerKind

end TreePath
