import TreePath.Proofs.Tree.Assignment
import TreePath.Proofs.Tree.Children

set_option autoImplicit false

/-!
# What storing keeps

A check of single nodes may be kept by storing a child. If such a check holds everywhere in a tree
and in the node that is stored, it holds everywhere afterwards. So the keys of objects stay
distinct and plain, and the slots of arrays countable.
-/

namespace TreePath

theorem Members.mem_of_mem_insert {members : Members} {key : String} {value : Tree}
    {entry : String × Tree} (membership : entry ∈ Members.insert key value members) :
    entry = (key, value) ∨ entry ∈ members := by
  induction members with
  | nil => exact Or.inl (List.mem_singleton.mp membership)
  | cons first rest inductionHypothesis =>
      obtain ⟨name, child⟩ := first
      rw [Members.insert] at membership
      split at membership
      · rename_i same
        rw [same] at membership
        rcases List.mem_cons.mp membership with stored | later
        · exact Or.inl stored
        · exact Or.inr (List.mem_cons_of_mem _ later)
      · rcases List.mem_cons.mp membership with rfl | later
        · exact Or.inr List.mem_cons_self
        · exact (inductionHypothesis later).imp_right (List.mem_cons_of_mem _)

/-- The slots that an array must have for the step. -/
def Step.slots : Step → Nat
  | member _ => 0
  | element index => index + 1

namespace Tree

/-- The slots of a node, holes included. Only arrays have any. -/
def extent : Tree → Nat
  | array slots => slots.length
  | _ => 0

@[simp] theorem extent_empty (kind : ContainerKind) : kind.empty.extent = 0 := by
  cases kind <;> rfl

@[simp] theorem extent_opened (kind : ContainerKind) (tree : Tree) :
    (tree.opened kind).extent = tree.extent := by
  cases tree with
  | absent => exact extent_empty kind
  | _ => rfl

/-- Storing a child lengthens an array just as far as the step needs. -/
theorem extent_put {step : Step} {tree : Tree} (child : Tree)
    (accepted : step.container.accepts tree = true) :
    (put step child tree).extent = max tree.extent step.slots := by
  cases step with
  | member key =>
      obtain ⟨members, rfl⟩ := exists_members_of_accepts accepted
      rfl
  | element index =>
      obtain ⟨slots, rfl⟩ := exists_slots_of_accepts accepted
      exact Slots.length_insert index child slots

theorem extent_put_le (step : Step) (child tree : Tree) :
    (put step child tree).extent ≤ max tree.extent step.slots := by
  by_cases accepted : step.container.accepts tree = true
  · exact Nat.le_of_eq (extent_put child accepted)
  · rw [put_of_not_accepts accepted]
    exact Nat.le_max_left tree.extent step.slots

/-- A check that vacant nodes and empty containers pass, and that storing a child along an allowed
step keeps. -/
structure IsStable (allowed : Step → Prop) (check : Tree → Bool) : Prop where
  vacant : check absent = true
  empty : ∀ kind : ContainerKind, check kind.empty = true
  put : ∀ step child tree, allowed step → check tree = true → check (put step child tree) = true

variable {allowed : Step → Prop} {check : Tree → Bool} {node tree child : Tree}

/-- Storing a child brings no other. -/
theorem mem_children_of_mem_children_put {step other : Step} {found : Tree}
    (membership : (other, found) ∈ (put step child tree).children) :
    (other = step ∧ found = child) ∨ (other, found) ∈ tree.children := by
  cases step with
  | member key =>
      cases tree with
      | object members =>
          obtain ⟨name, rfl, listed⟩ := mem_children_object.mp membership
          rcases Members.mem_of_mem_insert listed with stored | before
          · obtain ⟨rfl, rfl⟩ := Prod.mk.inj stored
            exact Or.inl ⟨rfl, rfl⟩
          · exact Or.inr (mem_children_object.mpr ⟨name, rfl, before⟩)
      | _ => exact Or.inr membership
  | element index =>
      cases tree with
      | array slots =>
          obtain ⟨position, rfl, held⟩ := mem_children_array.mp membership
          have got := Slots.get?_eq_some_iff.mpr held
          rw [Slots.get?_insert] at got
          split at got
          · rename_i same
            exact Or.inl ⟨congrArg Step.element same.symm, (Option.some.inj got).symm⟩
          · exact Or.inr (mem_children_array.mpr ⟨position, rfl, Slots.get?_eq_some_iff.mp got⟩)
      | _ => exact Or.inr membership

namespace IsStable

theorem of_imp {fewer : Step → Prop} (stable : IsStable allowed check)
    (implies : ∀ step, fewer step → allowed step) : IsStable fewer check where
  vacant := stable.vacant
  empty := stable.empty
  put step child tree stepAllowed := stable.put step child tree (implies step stepAllowed)

theorem everywhere_put (stable : IsStable allowed check) {step : Step} (stepAllowed : allowed step)
    (childPassed : child.everywhere check = true) (passed : tree.everywhere check = true) :
    (Tree.put step child tree).everywhere check = true := by
  obtain ⟨treePassed, below⟩ := everywhere_iff.mp passed
  apply everywhere_iff.mpr
  refine ⟨stable.put step child tree stepAllowed treePassed, ?_⟩
  intro other found membership
  rcases mem_children_of_mem_children_put membership with ⟨rfl, rfl⟩ | before
  · exact childPassed
  · exact below other found before

theorem everywhere_empty (stable : IsStable allowed check) (kind : ContainerKind) :
    kind.empty.everywhere check = true := by
  apply everywhere_iff.mpr
  refine ⟨stable.empty kind, ?_⟩
  intro step found membership
  cases kind <;> simp [ContainerKind.empty, children] at membership

theorem everywhere_opened (stable : IsStable allowed check) (kind : ContainerKind)
    (passed : tree.everywhere check = true) : (tree.opened kind).everywhere check = true := by
  by_cases vacant : tree = absent
  · rw [vacant, opened_absent]
    exact stable.everywhere_empty kind
  · rw [opened_of_ne_absent kind vacant]
    exact passed

theorem everywhere_at? (stable : IsStable allowed check) (step : Step)
    (passed : tree.everywhere check = true) :
    ((tree.at? step).getD absent).everywhere check = true := by
  cases found : tree.at? step with
  | none => exact stable.vacant
  | some held => exact everywhere_child passed (mem_children_of_at?_eq_some found)

theorem everywhere_assign (stable : IsStable allowed check) {location : List Step} {written : Tree}
    (stepsAllowed : ∀ step ∈ location, allowed step) (nodePassed : node.everywhere check = true)
    (passed : tree.everywhere check = true) (assigned : assign node location tree = .ok written) :
    written.everywhere check = true := by
  induction location generalizing tree written with
  | nil =>
      obtain rfl := Except.ok.inj assigned
      exact nodePassed
  | cons step rest inductionHypothesis =>
      obtain ⟨stepAllowed, restAllowed⟩ := List.forall_mem_cons.mp stepsAllowed
      obtain ⟨-, held, deeper, rfl⟩ := assign_cons_eq_ok_iff.mp assigned
      have heldPassed := inductionHypothesis restAllowed (stable.everywhere_at? step passed) deeper
      exact stable.everywhere_put stepAllowed heldPassed
        (stable.everywhere_opened step.container passed)

end IsStable

theorem isStable_hasDistinctKeys : IsStable allowed hasDistinctKeys where
  vacant := rfl
  empty kind := by cases kind <;> rfl
  put step child tree _ distinct := by
    cases step with
    | member key =>
        cases tree with
        | object members =>
            have keys := hasDistinctKeys_object_iff.mp distinct
            apply hasDistinctKeys_object_iff.mpr
            rw [Members.keys_insert]
            split
            · exact keys
            · rename_i fresh
              refine List.nodup_append.mpr ⟨keys, List.pairwise_singleton _ _, ?_⟩
              rintro name listed other isKey rfl
              rw [List.mem_singleton.mp isKey] at listed
              exact fresh listed
        | _ => rfl
    | element index => cases tree <;> first | rfl | exact distinct

theorem isStable_hasPlainKeys {limit : Nat} :
    IsStable (fun step => step.isWritable limit = true) hasPlainKeys where
  vacant := rfl
  empty kind := by cases kind <;> rfl
  put step child tree writable plain := by
    cases step with
    | member key =>
        cases tree with
        | object members =>
            apply List.all_eq_true.mpr
            rintro ⟨name, held⟩ membership
            rcases Members.mem_of_mem_insert membership with stored | before
            · rw [(Prod.mk.inj stored).1]
              exact writable
            · exact List.all_eq_true.mp plain (name, held) before
        | _ => rfl
    | element index => cases tree <;> first | rfl | exact plain

/-- The slots of an array are at most so many. -/
def hasSlotsUpTo (bound : Nat) (tree : Tree) : Bool :=
  decide (tree.extent ≤ bound)

theorem isStable_hasSlotsUpTo {bound : Nat} :
    IsStable (fun step => step.slots ≤ bound) (hasSlotsUpTo bound) where
  vacant := decide_eq_true (Nat.zero_le bound)
  empty kind := by
    apply decide_eq_true
    rw [extent_empty]
    exact Nat.zero_le bound
  put step child tree fits bounded := by
    have before : tree.extent ≤ bound := of_decide_eq_true bounded
    apply decide_eq_true
    exact Nat.le_trans (extent_put_le step child tree) (Nat.max_le.mpr ⟨before, fits⟩)

theorem isStable_hasCountableSlots : IsStable Step.Fits hasCountableSlots := by
  have same : hasCountableSlots = hasSlotsUpTo maxSlots := by
    funext tree
    cases tree <;> rfl
  rw [same]
  apply isStable_hasSlotsUpTo.of_imp
  intro step fits
  cases step with
  | member key => exact Nat.zero_le maxSlots
  | element index => exact fits

end Tree

end TreePath
