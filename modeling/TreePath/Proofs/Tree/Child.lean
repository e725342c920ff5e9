import TreePath.Tree.Read
import TreePath.Tree.Write

set_option autoImplicit false

/-!
# One step down a tree

`put` is the counterpart of `at?`: it stores the child at the end of a step. What the two say of
each other, and of the children that tokens name, is all that is needed of members and slots.
-/

namespace TreePath

open TreePath.Path

namespace ContainerKind

/-- Whether a step that needs this kind of container can go through a node: it is one, or it is
vacant and can become one. -/
def admits (kind : ContainerKind) (tree : Tree) : Bool :=
  tree.isAbsent || kind.accepts tree

@[simp] theorem admits_absent (kind : ContainerKind) : kind.admits .absent = true := rfl

theorem eq_of_accepts {kind other : ContainerKind} {tree : Tree}
    (accepted : kind.accepts tree = true) (otherAccepted : other.accepts tree = true) :
    kind = other := by
  have kinds := (accepts_iff.mp accepted).symm.trans (accepts_iff.mp otherAccepted)
  cases kind <;> cases other <;> first | rfl | cases kinds

theorem admits_of_accepts {kind : ContainerKind} {tree : Tree}
    (accepted : kind.accepts tree = true) : kind.admits tree = true := by
  rw [admits, accepted, Bool.or_true]

end ContainerKind

namespace Tree

/-- The tree with a child stored at the end of a step. A node that has no children of this sort
stays as it is. -/
def put (step : Step) (child tree : Tree) : Tree :=
  match step, tree with
  | .member key, object members => object (Members.insert key child members)
  | .element index, array slots => array (Slots.insert index child slots)
  | _, other => other

/-- What a vacant node becomes when a container is needed. -/
def opened (kind : ContainerKind) : Tree → Tree
  | absent => kind.empty
  | other => other

@[simp] theorem opened_absent (kind : ContainerKind) : opened kind absent = kind.empty := rfl

theorem opened_of_ne_absent {tree : Tree} (kind : ContainerKind) (held : tree ≠ absent) :
    tree.opened kind = tree := by
  cases tree with
  | absent => exact absurd rfl held
  | _ => rfl

theorem accepts_opened {kind : ContainerKind} {tree : Tree} (admitted : kind.admits tree = true) :
    kind.accepts (tree.opened kind) = true := by
  cases tree <;> simp_all [ContainerKind.admits, isAbsent, opened]

theorem opened_of_accepts {kind : ContainerKind} {tree : Tree}
    (accepted : kind.accepts tree = true) : tree.opened kind = tree := by
  apply opened_of_ne_absent
  rintro rfl
  cases kind <;> cases accepted

theorem admits_opened (kind : ContainerKind) (tree : Tree) :
    kind.admits (tree.opened kind) = kind.admits tree := by
  cases tree <;> simp [opened, ContainerKind.admits, isAbsent]

theorem opened_opened (kind : ContainerKind) (tree : Tree) :
    (tree.opened kind).opened kind = tree.opened kind := by
  cases tree <;> cases kind <;> rfl

/-! ## Storing and finding a child -/

theorem exists_members_of_accepts {tree : Tree}
    (accepted : ContainerKind.object.accepts tree = true) : ∃ members, tree = object members := by
  cases tree with
  | object members => exact ⟨members, rfl⟩
  | _ => simp [ContainerKind.accepts, isObject] at accepted

theorem exists_slots_of_accepts {tree : Tree}
    (accepted : ContainerKind.array.accepts tree = true) : ∃ slots, tree = array slots := by
  cases tree with
  | array slots => exact ⟨slots, rfl⟩
  | _ => simp [ContainerKind.accepts, isArray] at accepted

theorem isContainer_of_accepts {kind : ContainerKind} {tree : Tree}
    (accepted : kind.accepts tree = true) : tree.isContainer = true := by
  cases kind with
  | object =>
      obtain ⟨members, rfl⟩ := exists_members_of_accepts accepted
      rfl
  | array =>
      obtain ⟨slots, rfl⟩ := exists_slots_of_accepts accepted
      rfl

theorem put_of_not_accepts {step : Step} {child tree : Tree}
    (refused : ¬ step.container.accepts tree = true) : put step child tree = tree := by
  cases step with
  | member key =>
      cases tree with
      | object members => exact absurd rfl refused
      | _ => rfl
  | element index =>
      cases tree with
      | array slots => exact absurd rfl refused
      | _ => rfl

@[simp] theorem accepts_put (kind : ContainerKind) (step : Step) (child tree : Tree) :
    kind.accepts (put step child tree) = kind.accepts tree := by
  cases kind <;> cases step <;> cases tree <;> rfl

theorem at?_put {step : Step} {tree : Tree} (child : Tree)
    (accepted : step.container.accepts tree = true) :
    (put step child tree).at? step = some child := by
  cases step with
  | member key =>
      obtain ⟨members, rfl⟩ := exists_members_of_accepts accepted
      simp [put, at?, member?, Members.get?_insert]
  | element index =>
      obtain ⟨slots, rfl⟩ := exists_slots_of_accepts accepted
      simp [put, at?, element?, Slots.get?_insert]

/-- Storing a child leaves the others alone. -/
theorem at?_put_of_ne {step other : Step} (differs : step ≠ other) (child tree : Tree) :
    (put step child tree).at? other = tree.at? other := by
  cases step with
  | member key =>
      cases tree with
      | object members =>
          cases other with
          | member name =>
              have keys : key ≠ name := fun same => differs (congrArg Step.member same)
              simp [put, at?, member?, Members.get?_insert, keys]
          | element index => rfl
      | _ => rfl
  | element index =>
      cases tree with
      | array slots =>
          cases other with
          | member key => rfl
          | element position =>
              have indices : index ≠ position := fun same => differs (congrArg Step.element same)
              simp [put, at?, element?, Slots.get?_insert, indices]
      | _ => rfl

/-- Of two children stored at the end of one step the second stays. -/
theorem put_put (step : Step) (first second tree : Tree) :
    put step second (put step first tree) = put step second tree := by
  cases step with
  | member key =>
      cases tree with
      | object members => simp [put, Members.insert_insert]
      | _ => rfl
  | element index =>
      cases tree with
      | array slots => simp [put, Slots.insert_insert]
      | _ => rfl

theorem put_of_at?_eq {step : Step} {child tree : Tree} (found : tree.at? step = some child) :
    put step child tree = tree := by
  cases step with
  | member key =>
      cases tree with
      | object members =>
          have held : Members.get? key members = some child := found
          rw [put, Members.insert_of_get?_eq held]
      | _ => rfl
  | element index =>
      cases tree with
      | array slots =>
          have held : Slots.get? index slots = some child := found
          rw [put, Slots.insert_of_get?_eq held]
      | _ => rfl

@[simp] theorem at?_empty (step : Step) (kind : ContainerKind) : kind.empty.at? step = none := by
  cases step <;> cases kind <;> rfl

@[simp] theorem at?_absent (step : Step) : absent.at? step = none := by
  cases step <;> rfl

/-- A container of the right kind has the child that the step leads to under each of its names. -/
theorem child?_eq_at? {step : Step} {token : Token} {tree : Tree}
    (named : step.isNamedBy token = true) (accepted : step.container.accepts tree = true) :
    tree.child? token = tree.at? step := by
  cases step with
  | member key =>
      obtain ⟨members, rfl⟩ := exists_members_of_accepts accepted
      have sameText : token.raw = key := by simpa [Step.isNamedBy] using named
      rw [child?, at?, member?, sameText]
  | element index =>
      obtain ⟨slots, rfl⟩ := exists_slots_of_accepts accepted
      cases token with
      | key text => simp [Step.isNamedBy] at named
      | index value text =>
          have sameValue : value = index := by simpa [Step.isNamedBy] using named
          rw [child?, at?, element?, sameValue]

theorem child?_put_of_not_named {step : Step} {token : Token} (child tree : Tree)
    (other : step.isNamedBy token = false) :
    (put step child tree).child? token = tree.child? token := by
  cases step with
  | member key =>
      have differs : key ≠ token.raw := by
        rintro rfl
        simp [Step.isNamedBy] at other
      cases tree with
      | object members => simp [put, child?, Members.get?_insert, differs]
      | _ => rfl
  | element index =>
      cases tree with
      | array slots =>
          cases token with
          | key text => rfl
          | index value text =>
              have differs : index ≠ value := by
                rintro rfl
                simp [Step.isNamedBy] at other
              simp [put, child?, Slots.get?_insert, differs]
      | _ => rfl

@[simp] theorem child?_absent (token : Token) : absent.child? token = none := rfl

@[simp] theorem child?_empty (token : Token) (kind : ContainerKind) :
    kind.empty.child? token = none := by
  cases token <;> cases kind <;> rfl

/-- Opening a vacant node brings no children with it. -/
theorem child?_opened (token : Token) (kind : ContainerKind) (tree : Tree) :
    (tree.opened kind).child? token = tree.child? token := by
  cases tree <;> simp [opened]

theorem at?_opened (step : Step) (kind : ContainerKind) (tree : Tree) :
    (tree.opened kind).at? step = tree.at? step := by
  cases tree <;> simp [opened]

end Tree

end TreePath
