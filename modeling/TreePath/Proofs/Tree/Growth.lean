import TreePath.Proofs.Tree.Locating
import TreePath.Proofs.Tree.Stability

set_option autoImplicit false

/-!
# How storing lengthens arrays

Storing at a location lengthens the arrays on the way there, each as far as the step out of it
needs, and no others. So the slots that come with it, apart from those of the value, are together
no more than the steps need.
-/

namespace TreePath

/-- The slots that all arrays on the way together must have for the steps. -/
def slotsNeeded : List Step → Nat
  | [] => 0
  | step :: rest => step.slots + slotsNeeded rest

namespace Tree

mutual

/-- The slots of all arrays in a tree, holes included. -/
def slotCount : Tree → Nat
  | object members => slotCountMembers members
  | array slots => slotCountSlots slots
  | _ => 0
termination_by structural tree => tree

def slotCountMembers : List (String × Tree) → Nat
  | [] => 0
  | (_, child) :: rest => slotCount child + slotCountMembers rest
termination_by structural members => members

/-- Each slot counts, and with it those inside the node that it holds. -/
def slotCountSlots : List (Option Tree) → Nat
  | [] => 0
  | none :: rest => 1 + slotCountSlots rest
  | some child :: rest => 1 + slotCount child + slotCountSlots rest
termination_by structural slots => slots

end

@[simp] theorem slotCount_absent : absent.slotCount = 0 := rfl

@[simp] theorem slotCount_opened (kind : ContainerKind) (tree : Tree) :
    (tree.opened kind).slotCount = tree.slotCount := by
  cases tree with
  | absent => cases kind <;> rfl
  | _ => rfl

/-! ## Storing a child -/

/-- A stored member replaces the one that its key finds. -/
theorem slotCountMembers_insert (key : String) (value : Tree) (members : Members) :
    slotCountMembers (Members.insert key value members) +
        ((members.get? key).getD absent).slotCount =
      slotCountMembers members + value.slotCount := by
  induction members with
  | nil => simp [Members.insert, slotCountMembers]
  | cons entry rest inductionHypothesis =>
      obtain ⟨name, child⟩ := entry
      by_cases same : name = key
      · simp only [Members.insert, Members.get?_cons, if_pos same, slotCountMembers,
          Option.getD_some]
        omega
      · simp only [Members.insert, Members.get?_cons, if_neg same, slotCountMembers]
        omega

theorem slotCountSlots_holes (holes : Nat) :
    slotCountSlots (List.replicate holes none) = holes := by
  induction holes with
  | zero => rfl
  | succ holes inductionHypothesis =>
      rw [List.replicate_succ, slotCountSlots, inductionHypothesis, Nat.add_comm]

theorem slotCountSlots_append_holes (slots : Slots) (holes : Nat) :
    slotCountSlots (slots ++ List.replicate holes none) = slotCountSlots slots + holes := by
  induction slots with
  | nil => simp [slotCountSlots, slotCountSlots_holes]
  | cons slot rest inductionHypothesis =>
      cases slot <;> simp only [List.cons_append, slotCountSlots, inductionHypothesis] <;> omega

theorem slotCountSlots_set {index : Nat} {slots : Slots} (inRange : index < slots.length)
    (value : Tree) :
    slotCountSlots (slots.set index (some value)) +
        ((slots.get? index).getD absent).slotCount =
      slotCountSlots slots + value.slotCount := by
  induction slots generalizing index with
  | nil => exact absurd inRange (Nat.not_lt_zero index)
  | cons slot rest inductionHypothesis =>
      cases index with
      | zero =>
          cases slot <;> simp [Slots.get?, slotCountSlots] <;> omega
      | succ index =>
          have inner := inductionHypothesis (Nat.lt_of_succ_lt_succ inRange)
          have same : Slots.get? (index + 1) (slot :: rest) = Slots.get? index rest := rfl
          cases slot <;> simp only [List.set_cons_succ, slotCountSlots, same] <;> omega

/-- A stored element replaces what its slot held, and brings the slots up to it if they are not
there yet. -/
theorem slotCountSlots_insert (index : Nat) (value : Tree) (slots : Slots) :
    slotCountSlots (Slots.insert index value slots) +
        ((slots.get? index).getD absent).slotCount =
      slotCountSlots slots + (index + 1 - slots.length) + value.slotCount := by
  have inRange : index < (slots.reach index).length := by
    rw [Slots.length_reach]
    omega
  have stored := slotCountSlots_set inRange value
  rw [Slots.get?_reach, Slots.reach, slotCountSlots_append_holes] at stored
  exact stored

theorem slotCount_put {step : Step} {tree : Tree} (child : Tree)
    (accepted : step.container.accepts tree = true) :
    (put step child tree).slotCount + ((tree.at? step).getD absent).slotCount ≤
      tree.slotCount + child.slotCount + step.slots := by
  cases step with
  | member key =>
      obtain ⟨members, rfl⟩ := exists_members_of_accepts accepted
      exact Nat.le_of_eq (slotCountMembers_insert key child members)
  | element index =>
      obtain ⟨slots, rfl⟩ := exists_slots_of_accepts accepted
      have stored := slotCountSlots_insert index child slots
      simp only [put, at?, element?, slotCount, Step.slots]
      omega

/-! ## Storing at a location -/

variable {value tree written : Tree} {steps : List Step}

/-- An array on the way is as long as before, or just long enough for the step out of it. -/
theorem extent_locate?_assign {passed later : List Step} {step : Step}
    (assigned : assign value (passed ++ step :: later) tree = .ok written) :
    ((written.locate? passed).getD absent).extent =
      max ((tree.locate? passed).getD absent).extent step.slots := by
  obtain ⟨node, nodeAssigned, located⟩ := exists_assign_of_assign_append assigned
  obtain ⟨admitted, child, -, rfl⟩ := assign_cons_eq_ok_iff.mp nodeAssigned
  rw [located, Option.getD_some, extent_put child (accepts_opened admitted), extent_opened]

/-- The slots outside the stored value, against those outside what it replaces. -/
theorem slotCount_assign (assigned : assign value steps tree = .ok written) :
    written.slotCount + ((tree.locate? steps).getD absent).slotCount ≤
      tree.slotCount + value.slotCount + slotsNeeded steps := by
  induction steps generalizing tree written with
  | nil =>
      obtain rfl := Except.ok.inj assigned
      simp only [locate?, Option.getD_some, slotsNeeded]
      omega
  | cons step rest inductionHypothesis =>
      obtain ⟨admitted, child, childAssigned, rfl⟩ := assign_cons_eq_ok_iff.mp assigned
      have inner := inductionHypothesis childAssigned
      have outer := slotCount_put child (accepts_opened admitted)
      rw [at?_opened, slotCount_opened] at outer
      rw [getD_locate?_cons, slotsNeeded]
      omega

/-! ## The slot under the cursor -/

/-- With an index that fits, the cursor comes to a slot that is there, or is stopped by a node of
another kind. -/
theorem withSlot_cases {index : Nat} (fits : index < maxSlots) (stop : Nat) (tree : Tree) :
    (∃ slots, index < slots.length ∧ ∀ edit, tree.withSlot stop index edit = edit slots) ∨
      ∀ edit, tree.withSlot stop index edit =
        .stopped tree (.conflict stop .array tree.kind) := by
  have reachable : ¬ maxSlots ≤ index := Nat.not_le.mpr fits
  have inRange (slots : Slots) : index < (slots.reach index).length := by
    rw [Slots.length_reach]
    omega
  cases tree with
  | absent => exact Or.inl ⟨_, inRange [], fun edit => by simp [withSlot, reachable]⟩
  | array slots => exact Or.inl ⟨_, inRange slots, fun edit => by simp [withSlot, reachable]⟩
  | _ => exact Or.inr fun _ => rfl

end Tree

end TreePath
