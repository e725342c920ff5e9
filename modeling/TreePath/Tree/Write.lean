import TreePath.Path.Plan
import TreePath.Tree.Members
import TreePath.Tree.Slots

set_option autoImplicit false

/-!
Storing at a path, in place: a cursor goes down the stages of a plan and changes the tree as it
goes. Missing containers are created on the way, existing ones are reused, and a node of
another kind stops the write. An `Edit` keeps both the tree as it was left and the outcome, so
it can be asked what a write that stopped has changed.
-/

namespace TreePath

/-- A tree after an edit, and whether the edit went through. -/
structure Edit (Cause : Type) where
  tree : Tree
  outcome : Except Cause Unit

namespace Edit

variable {Cause : Type}

def done (tree : Tree) : Edit Cause :=
  ⟨tree, .ok ()⟩

def stopped (tree : Tree) (cause : Cause) : Edit Cause :=
  ⟨tree, .error cause⟩

def toExcept (edit : Edit Cause) : Except Cause Tree :=
  edit.outcome.map fun _ => edit.tree

/-- The same edit seen from a tree around the edited one. -/
def inside (surround : Tree → Tree) (edit : Edit Cause) : Edit Cause :=
  ⟨surround edit.tree, edit.outcome⟩

def mapCause {Other : Type} (report : Cause → Other) (edit : Edit Cause) : Edit Other :=
  ⟨edit.tree, edit.outcome.mapError report⟩

@[simp] theorem toExcept_done (tree : Tree) : (done tree : Edit Cause).toExcept = .ok tree := rfl

@[simp] theorem toExcept_stopped (tree : Tree) (cause : Cause) :
    (stopped tree cause).toExcept = .error cause := rfl

theorem tree_of_toExcept_eq_ok {edit : Edit Cause} {tree : Tree}
    (succeeded : edit.toExcept = .ok tree) : edit.tree = tree := by
  obtain ⟨edited, outcome⟩ := edit
  cases outcome with
  | ok _ => exact Except.ok.inj succeeded
  | error cause => cases succeeded

end Edit

namespace Tree

/-- The most slots an array can have: their count is a word of 64 bits. -/
def maxSlots : Nat :=
  Path.indexBound - 1

/-- Runs an edit on the members of the object whose path ends at `stop`. A vacant node becomes
an object first. -/
def withMembers (stop : Nat) (edit : Members → Edit Refusal) : Tree → Edit Refusal
  | absent => edit []
  | object members => edit members
  | other => .stopped other (.conflict stop .object other.kind)

/-- Runs an edit on the slots of the array whose path ends at `stop`, which is first lengthened
until slot `index` is there. A vacant node becomes an array first. -/
def withSlot (stop : Nat) (index : Nat) (edit : Slots → Edit Refusal) (tree : Tree) :
    Edit Refusal :=
  let lengthened (slots : Slots) : Edit Refusal :=
    if slots.length ≤ index ∧ maxSlots ≤ index then
      .stopped (array slots) (.indexLimit stop index (maxSlots - 1))
    else
      edit (slots.reach index)
  match tree with
  | absent => lengthened []
  | array slots => lengthened slots
  | other => .stopped other (.conflict stop .array other.kind)

/-- Edits one child of the container whose path ends at `stop`. A missing child is there as
`absent` while it is edited, and stays so if the edit stops. -/
def editChild (stop : Nat) (step : Step) (edit : Tree → Edit Refusal) (tree : Tree) :
    Edit Refusal :=
  match step with
  | .member key =>
      tree.withMembers stop fun members =>
        (edit ((members.get? key).getD absent)).inside fun child =>
          object (members.insert key child)
  | .element index =>
      tree.withSlot stop index fun slots =>
        (edit ((slots.get? index).getD absent)).inside fun child =>
          array (slots.set index (some child))

/-- Makes the node whose path ends at `stop` a container before it is edited. A vacant node
becomes an empty one; a node of another kind stops the edit. -/
def ensure (stop : Nat) (kind : ContainerKind) (edit : Tree → Edit Refusal) : Tree → Edit Refusal
  | absent => edit kind.empty
  | other =>
      if kind.accepts other then edit other else .stopped other (.conflict stop kind other.kind)

/-- Goes down the stages and stores the value at the target. The path of the tree given ends at
`stop`. -/
def store (value : Tree) (target : Step) : List Stage → Nat → Tree → Edit Refusal
  | [], stop => editChild stop target fun _ => .done value
  | stage :: rest, stop =>
      editChild stop stage.step (ensure stage.stop stage.kind (store value target rest stage.stop))

/-- Stores a value at a path whose indices may be at most `limit`. -/
def write (tree : Tree) (limit : Nat) (path : String) (value : Tree) : Edit PathError :=
  match Plan.ofPath limit path with
  | .error refusal => .stopped tree (refusal.report path)
  | .ok plan => (store value plan.target plan.stages 0 tree).mapCause (Refusal.report path)

end Tree

end TreePath
