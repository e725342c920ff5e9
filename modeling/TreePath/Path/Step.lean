import TreePath.Path.Token
import TreePath.Tree.Kind

set_option autoImplicit false

/-!
A step leads from a node to one of its children; a list of steps is a location in a tree.
`render` is the path text of a location.
-/

namespace TreePath

/-- The way from a node to one of its children. -/
inductive Step where
  | member (key : String)
  | element (index : Nat)
  deriving DecidableEq

namespace Step

/-- The kind of node that has children of this sort. -/
def container : Step → ContainerKind
  | member _ => .object
  | element _ => .array

/-- The path of a child of the node at `path`. A dot stands between two keys and none at the
beginning. -/
def extend (path : String) : Step → String
  | member key => if path.isEmpty then key else path ++ "." ++ key
  | element index => path ++ "[" ++ toString index ++ "]"

/-- The path of a child begins with that of its container. -/
theorem exists_extend_eq_append (path : String) (step : Step) :
    ∃ after, step.extend path = path ++ after := by
  cases step with
  | member key =>
      by_cases empty : path.isEmpty = true
      · refine ⟨key, ?_⟩
        rw [extend, if_pos empty, String.isEmpty_iff.mp empty, String.empty_append]
      · refine ⟨"." ++ key, ?_⟩
        rw [extend, if_neg empty, String.append_assoc]
  | element index =>
      refine ⟨"[" ++ toString index ++ "]", ?_⟩
      rw [extend, String.append_assoc, String.append_assoc, String.append_assoc]

/-- A token leads along a step when it names the same child of the container that the step
starts from. -/
def isNamedBy : Step → Path.Token → Bool
  | member key, token => token.raw == key
  | element index, .index value _ => value == index
  | element _, .key _ => false

/-- Steps that a path can spell: plain keys, and indices up to `limit`. -/
def isWritable (limit : Nat) : Step → Bool
  | member key => Path.isPlainKey key
  | element index => index ≤ limit

end Step

def render (steps : List Step) : String :=
  steps.foldl Step.extend ""

/-- The path of a child is that of its container, extended. -/
@[simp] theorem render_concat (steps : List Step) (step : Step) :
    render (steps ++ [step]) = step.extend (render steps) := by
  simp [render]

end TreePath
