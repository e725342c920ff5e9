import TreePath.Path.Step
import TreePath.Text.Bytes
import TreePath.Tree.Basic

set_option autoImplicit false

/-!
All paths of a tree with the nodes they lead to, found on one walk. The walk keeps the path of the
node it is at in a single text: a step is added on the way to a child and cut off on the way back.
Children come in order, and what lies below a child comes before the child itself. Holes and
`absent` children are passed over, and so are null ones unless they are asked for.
-/

namespace TreePath

/-- A path and the node it was taken from. -/
abbrev Entry := String × Tree

/-- A walk over a tree: the path of the node it is at, and what it has found. -/
structure Walk (Found : Type) where
  path : String
  found : Found

namespace Walk

variable {Found : Type}

/-- Goes on to the child at the end of a step. -/
def enter (step : Step) (walk : Walk Found) : Walk Found :=
  { walk with path := step.extend walk.path }

/-- Adds the node that the walk is at to what it has found. -/
def report (emit : String → Tree → Found → Found) (node : Tree) (walk : Walk Found) : Walk Found :=
  { walk with found := emit walk.path node walk.found }

/-- Goes back to the node whose path takes up `mark` bytes. -/
def leave (mark : Nat) (walk : Walk Found) : Walk Found :=
  { walk with path := Text.upTo walk.path mark }

/-- Goes to a child, walks on below it, adds the child and comes back. -/
def visit (emit : String → Tree → Found → Found) (step : Step) (child : Tree)
    (below : Walk Found → Walk Found) (walk : Walk Found) : Walk Found :=
  ((below (walk.enter step)).report emit child).leave (Text.byteLength walk.path.toList)

end Walk

namespace Tree

/-- Whether a child has a path of its own in the listing. -/
def isListed (nulls : Bool) : Tree → Bool
  | absent => false
  | null => nulls
  | _ => true

section Walking

variable {Found : Type}

mutual

/-- Walks below the node that a walk is at. -/
def walk (nulls : Bool) (emit : String → Tree → Found → Found) :
    Tree → Walk Found → Walk Found
  | object members, here => walkMembers nulls emit members here
  | array slots, here => walkSlots nulls emit 0 slots here
  | _, here => here
termination_by structural tree => tree

def walkMembers (nulls : Bool) (emit : String → Tree → Found → Found) :
    List (String × Tree) → Walk Found → Walk Found
  | [], here => here
  | (key, child) :: rest, here =>
      if child.isListed nulls then
        walkMembers nulls emit rest (here.visit emit (.member key) child (walk nulls emit child))
      else
        walkMembers nulls emit rest here
termination_by structural members => members

def walkSlots (nulls : Bool) (emit : String → Tree → Found → Found) (index : Nat) :
    List (Option Tree) → Walk Found → Walk Found
  | [], here => here
  | none :: rest, here => walkSlots nulls emit (index + 1) rest here
  | some child :: rest, here =>
      if child.isListed nulls then
        walkSlots nulls emit (index + 1) rest
          (here.visit emit (.element index) child (walk nulls emit child))
      else
        walkSlots nulls emit (index + 1) rest here
termination_by structural slots => slots

end

end Walking

def entries (nulls : Bool) (tree : Tree) : List Entry :=
  (tree.walk nulls (fun path node found => (path, node) :: found) ⟨"", []⟩).found.reverse

def paths (nulls : Bool) (tree : Tree) : List String :=
  (tree.walk nulls (fun path _ found => path :: found) ⟨"", []⟩).found.reverse

end Tree

end TreePath
