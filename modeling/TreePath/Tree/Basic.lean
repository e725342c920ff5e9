import TreePath.Number.Binary64
import TreePath.Tree.Kind

set_option autoImplicit false

/-!
Trees of objects and arrays. The members of an object keep the order in which their keys were
first stored. A slot of an array may be a hole, which nothing was ever stored in; that differs
from a slot that holds `absent`, the stored value for "nothing".
-/

namespace TreePath

inductive Tree where
  | absent
  | null
  | bool (value : Bool)
  | int (value : Int64)
  | float (value : Binary64)
  | string (value : String)
  | object (members : List (String × Tree))
  | array (slots : List (Option Tree))

abbrev Members := List (String × Tree)

/-- The slots of an array; `none` is a hole. -/
abbrev Slots := List (Option Tree)

namespace Tree

def kind : Tree → Kind
  | absent => .absent
  | null => .null
  | bool _ => .bool
  | int _ => .int
  | float _ => .float
  | string _ => .string
  | object _ => .object
  | array _ => .array

def isAbsent : Tree → Bool
  | absent => true
  | _ => false

def isNull : Tree → Bool
  | null => true
  | _ => false

def isObject : Tree → Bool
  | object _ => true
  | _ => false

def isArray : Tree → Bool
  | array _ => true
  | _ => false

def isContainer (tree : Tree) : Bool :=
  tree.isObject || tree.isArray

def bool? : Tree → Option Bool
  | bool value => some value
  | _ => none

def int? : Tree → Option Int64
  | int value => some value
  | _ => none

/-- The number that a node holds; an integer counts as the float nearest to it. -/
def float? : Tree → Option Binary64
  | float value => some value
  | int value => some (.ofInt value.toInt)
  | _ => none

def string? : Tree → Option String
  | string value => some value
  | _ => none

def members? : Tree → Option Members
  | object members => some members
  | _ => none

def slots? : Tree → Option Slots
  | array slots => some slots
  | _ => none

def ofList (elements : List Tree) : Tree :=
  array (elements.map some)

def size? : Tree → Option Nat
  | object members => some members.length
  | array slots => some slots.length
  | _ => none

instance : Inhabited Tree := ⟨absent⟩

/-- Proves a statement of every tree from its instances for the children of objects and
arrays. -/
theorem induct {motive : Tree → Prop} (absent : motive absent) (null : motive null)
    (bool : ∀ value, motive (bool value)) (int : ∀ value, motive (int value))
    (float : ∀ value, motive (float value)) (string : ∀ value, motive (string value))
    (object : ∀ members : Members, (∀ entry ∈ members, motive entry.2) → motive (object members))
    (array : ∀ slots : Slots, (∀ child, some child ∈ slots → motive child) → motive (array slots))
    (tree : Tree) : motive tree := by
  refine @Tree.rec motive (fun members => ∀ entry ∈ members, motive entry.2)
    (fun slots => ∀ child, some child ∈ slots → motive child) (fun entry => motive entry.2)
    (fun slot => ∀ child, slot = some child → motive child)
    absent null bool int float string object array ?_ ?_ ?_ ?_ ?_ ?_ ?_ tree
  all_goals grind

end Tree

namespace ContainerKind

def empty : ContainerKind → Tree
  | object => .object []
  | array => .array []

def accepts : ContainerKind → Tree → Bool
  | object, tree => tree.isObject
  | array, tree => tree.isArray

theorem accepts_iff {kind : ContainerKind} {tree : Tree} :
    kind.accepts tree = true ↔ tree.kind = kind.toKind := by
  cases kind <;> cases tree <;> simp [accepts, Tree.isObject, Tree.isArray, Tree.kind, toKind]

@[simp] theorem accepts_empty (kind : ContainerKind) : kind.accepts kind.empty = true := by
  cases kind <;> rfl

end ContainerKind

end TreePath
