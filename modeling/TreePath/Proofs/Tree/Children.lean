import TreePath.Proofs.Tree.Child

set_option autoImplicit false

/-!
# The children of a node, with the steps to them

Objects and arrays differ in how a step finds a child and in nothing else. `children` lists the
children of either with their steps, and `induct_children` proves a statement of every tree from
its instances for them. `everywhere` asks all nodes of a tree a question, such as whether the keys
of an object are distinct.
-/

namespace TreePath

open TreePath.Path

/-- With distinct keys a member is found under its own. -/
theorem Members.get?_eq_some_iff_mem {members : Members} (distinct : (members.map Prod.fst).Nodup)
    {key : String} {child : Tree} : members.get? key = some child ↔ (key, child) ∈ members := by
  induction members with
  | nil => simp
  | cons entry rest inductionHypothesis =>
      obtain ⟨name, first⟩ := entry
      obtain ⟨fresh, restDistinct⟩ := List.nodup_cons.mp distinct
      rw [Members.get?_cons]
      by_cases same : name = key
      · subst name
        have noOther : (key, child) ∉ rest := fun membership =>
          fresh (List.mem_map.mpr ⟨(key, child), membership, rfl⟩)
        simp [noOther, eq_comm]
      · simp [same, Ne.symm same, inductionHypothesis restDistinct]

theorem Members.mem_of_get?_eq_some {members : Members} {key : String} {child : Tree}
    (found : members.get? key = some child) : (key, child) ∈ members := by
  induction members with
  | nil => simp at found
  | cons entry rest inductionHypothesis =>
      obtain ⟨name, first⟩ := entry
      rw [Members.get?_cons] at found
      by_cases same : name = key
      · simp_all
      · rw [if_neg same] at found
        exact List.mem_cons_of_mem _ (inductionHypothesis found)

theorem Slots.get?_eq_some_iff {slots : Slots} {index : Nat} {child : Tree} :
    slots.get? index = some child ↔ slots[index]? = some (some child) := by
  rw [Slots.get?, Option.join_eq_some_iff]

namespace Tree

/-- The children of a node in order, each with the step that leads to it. -/
def children : Tree → List (Step × Tree)
  | object members => members.map fun (key, child) => (.member key, child)
  | array slots =>
      slots.zipIdx.filterMap fun (slot, index) => slot.map fun child => (.element index, child)
  | _ => []

theorem mem_children_object {members : Members} {step : Step} {child : Tree} :
    (step, child) ∈ (object members).children ↔
      ∃ key, step = .member key ∧ (key, child) ∈ members := by
  simp only [children, List.mem_map, Prod.mk.injEq, Prod.exists]
  constructor
  · rintro ⟨key, other, membership, rfl, rfl⟩
    exact ⟨key, rfl, membership⟩
  · rintro ⟨key, rfl, membership⟩
    exact ⟨key, child, membership, rfl, rfl⟩

theorem mem_children_array {slots : Slots} {step : Step} {child : Tree} :
    (step, child) ∈ (array slots).children ↔
      ∃ index, step = .element index ∧ slots[index]? = some (some child) := by
  simp only [children, List.mem_filterMap, Prod.exists, List.mk_mem_zipIdx_iff_getElem?,
    Option.map_eq_some_iff, Prod.mk.injEq]
  constructor
  · rintro ⟨slot, index, held, other, rfl, rfl, rfl⟩
    exact ⟨index, rfl, held⟩
  · rintro ⟨index, rfl, held⟩
    exact ⟨some child, index, held, child, rfl, rfl, rfl⟩

/-- Proves a statement of every tree from its instances for the children of a node. -/
theorem induct_children {motive : Tree → Prop}
    (node : ∀ tree : Tree, (∀ step child, (step, child) ∈ tree.children → motive child) →
      motive tree) (tree : Tree) : motive tree := by
  induction tree using Tree.induct with
  | object members inductionHypothesis =>
      apply node
      intro step child membership
      obtain ⟨key, rfl, listed⟩ := mem_children_object.mp membership
      exact inductionHypothesis (key, child) listed
  | array slots inductionHypothesis =>
      apply node
      intro step child membership
      obtain ⟨index, rfl, held⟩ := mem_children_array.mp membership
      exact inductionHypothesis child (List.mem_of_getElem? held)
  | _ =>
      apply node
      intro step child membership
      simp [children] at membership

theorem accepts_of_mem_children {tree child : Tree} {step : Step}
    (membership : (step, child) ∈ tree.children) : step.container.accepts tree = true := by
  cases tree with
  | object members =>
      obtain ⟨key, rfl, -⟩ := mem_children_object.mp membership
      rfl
  | array slots =>
      obtain ⟨index, rfl, -⟩ := mem_children_array.mp membership
      rfl
  | _ => simp [children] at membership

theorem mem_children_of_at?_eq_some {tree child : Tree} {step : Step}
    (found : tree.at? step = some child) : (step, child) ∈ tree.children := by
  cases step with
  | member key =>
      cases tree with
      | object members =>
          exact mem_children_object.mpr ⟨key, rfl, Members.mem_of_get?_eq_some found⟩
      | _ => simp [at?, member?] at found
  | element index =>
      cases tree with
      | array slots =>
          exact mem_children_array.mpr ⟨index, rfl, Slots.get?_eq_some_iff.mp found⟩
      | _ => simp [at?, element?] at found

theorem sizeOf_lt_of_mem_children {tree child : Tree} {step : Step}
    (membership : (step, child) ∈ tree.children) : sizeOf child < sizeOf tree := by
  cases tree with
  | object members =>
      obtain ⟨key, -, listed⟩ := mem_children_object.mp membership
      have inMembers := List.sizeOf_lt_of_mem listed
      simp only [Prod.mk.sizeOf_spec, object.sizeOf_spec] at inMembers ⊢
      omega
  | array slots =>
      obtain ⟨index, -, held⟩ := mem_children_array.mp membership
      have inSlots := List.sizeOf_lt_of_mem (List.mem_of_getElem? held)
      simp only [Option.some.sizeOf_spec, array.sizeOf_spec] at inSlots ⊢
      omega
  | _ => simp [children] at membership

theorem children_eq_nil_of_isContainer_eq_false {tree : Tree} (leaf : tree.isContainer = false) :
    tree.children = [] := by
  cases tree <;> simp_all [isContainer, isObject, isArray, children]

/-! ## Questions to all nodes -/

mutual

/-- Whether all nodes of a tree, its root included, pass a check. -/
def everywhere (check : Tree → Bool) : Tree → Bool
  | object members => check (object members) && everywhereMembers check members
  | array slots => check (array slots) && everywhereSlots check slots
  | leaf => check leaf
termination_by structural tree => tree

def everywhereMembers (check : Tree → Bool) : List (String × Tree) → Bool
  | [] => true
  | (_, child) :: rest => everywhere check child && everywhereMembers check rest
termination_by structural members => members

def everywhereSlots (check : Tree → Bool) : List (Option Tree) → Bool
  | [] => true
  | none :: rest => everywhereSlots check rest
  | some child :: rest => everywhere check child && everywhereSlots check rest
termination_by structural slots => slots

end

variable {check : Tree → Bool}

theorem everywhereMembers_iff {members : Members} :
    everywhereMembers check members = true ↔
      ∀ entry ∈ members, entry.2.everywhere check = true := by
  induction members with
  | nil => simp [everywhereMembers]
  | cons entry rest inductionHypothesis => simp [everywhereMembers, inductionHypothesis]

theorem everywhereSlots_iff {slots : Slots} :
    everywhereSlots check slots = true ↔
      ∀ child, some child ∈ slots → child.everywhere check = true := by
  induction slots with
  | nil => simp [everywhereSlots]
  | cons slot rest inductionHypothesis =>
      cases slot <;> simp [everywhereSlots, inductionHypothesis]

theorem everywhere_iff {tree : Tree} :
    tree.everywhere check = true ↔
      check tree = true ∧
        ∀ step child, (step, child) ∈ tree.children → child.everywhere check = true := by
  cases tree with
  | object members =>
      rw [everywhere, Bool.and_eq_true, everywhereMembers_iff]
      refine and_congr_right fun _ => ⟨?_, ?_⟩
      · intro passed step child membership
        obtain ⟨key, rfl, listed⟩ := mem_children_object.mp membership
        exact passed (key, child) listed
      · rintro passed ⟨key, child⟩ listed
        exact passed (.member key) child (mem_children_object.mpr ⟨key, rfl, listed⟩)
  | array slots =>
      rw [everywhere, Bool.and_eq_true, everywhereSlots_iff]
      refine and_congr_right fun _ => ⟨?_, ?_⟩
      · intro passed step child membership
        obtain ⟨index, rfl, held⟩ := mem_children_array.mp membership
        exact passed child (List.mem_of_getElem? held)
      · intro passed child held
        obtain ⟨index, found⟩ := List.mem_iff_getElem?.mp held
        exact passed (.element index) child (mem_children_array.mpr ⟨index, rfl, found⟩)
  | _ => simp [everywhere, children]

theorem everywhere_child {tree child : Tree} {step : Step} (passed : tree.everywhere check = true)
    (membership : (step, child) ∈ tree.children) : child.everywhere check = true :=
  (everywhere_iff.mp passed).2 step child membership

/-- The keys of an object are distinct. -/
def hasDistinctKeys : Tree → Bool
  | object members => decide (members.map Prod.fst).Nodup
  | _ => true

/-- The keys of an object are plain. -/
def hasPlainKeys : Tree → Bool
  | object members => members.all fun (key, _) => isPlainKey key
  | _ => true

/-- The slots of an array can be counted in a word. -/
def hasCountableSlots : Tree → Bool
  | array slots => decide (slots.length ≤ maxSlots)
  | _ => true

theorem hasDistinctKeys_object_iff {members : Members} :
    (object members).hasDistinctKeys = true ↔ (members.map Prod.fst).Nodup :=
  decide_eq_true_iff

theorem everywhere_hasDistinctKeys_object_iff {members : Members} :
    (object members).everywhere hasDistinctKeys = true ↔
      (members.map Prod.fst).Nodup ∧
        ∀ entry ∈ members, entry.2.everywhere hasDistinctKeys = true := by
  rw [everywhere, Bool.and_eq_true, hasDistinctKeys_object_iff, everywhereMembers_iff]

theorem everywhere_hasDistinctKeys_array_iff {slots : Slots} :
    (array slots).everywhere hasDistinctKeys = true ↔
      ∀ child, some child ∈ slots → child.everywhere hasDistinctKeys = true := by
  rw [everywhere, Bool.and_eq_true, everywhereSlots_iff]
  exact and_iff_right rfl

section Distinct

variable {tree child : Tree} {step : Step}

theorem at?_of_mem_children (distinct : tree.hasDistinctKeys = true)
    (membership : (step, child) ∈ tree.children) : tree.at? step = some child := by
  cases tree with
  | object members =>
      obtain ⟨key, rfl, listed⟩ := mem_children_object.mp membership
      have keys := hasDistinctKeys_object_iff.mp distinct
      exact (Members.get?_eq_some_iff_mem keys).mpr listed
  | array slots =>
      obtain ⟨index, rfl, held⟩ := mem_children_array.mp membership
      exact Slots.get?_eq_some_iff.mpr held
  | _ => simp [children] at membership

theorem at?_eq_some_iff_mem_children (distinct : tree.hasDistinctKeys = true) :
    tree.at? step = some child ↔ (step, child) ∈ tree.children :=
  ⟨mem_children_of_at?_eq_some, at?_of_mem_children distinct⟩

/-- No two children are at the end of one step. -/
theorem pairwise_steps_children (distinct : tree.hasDistinctKeys = true) :
    tree.children.Pairwise fun one other => one.1 ≠ other.1 := by
  cases tree with
  | object members =>
      have keys : members.Pairwise fun one other => one.1 ≠ other.1 :=
        List.pairwise_map.mp (hasDistinctKeys_object_iff.mp distinct)
      exact List.pairwise_map.mpr (keys.imp fun differs same => differs (Step.member.inj same))
  | array slots =>
      have indices : slots.zipIdx.Pairwise fun one other => one.2 < other.2 := by
        apply List.pairwise_map.mp
        rw [List.zipIdx_map_snd]
        exact List.pairwise_lt_range'
      apply List.pairwise_filterMap.mpr
      refine indices.imp fun {one other} before first found second foundOther => ?_
      obtain ⟨child, -, rfl⟩ := Option.map_eq_some_iff.mp found
      obtain ⟨otherChild, -, rfl⟩ := Option.map_eq_some_iff.mp foundOther
      exact fun same => Nat.ne_of_lt before (Step.element.inj same)
  | _ => exact List.Pairwise.nil

end Distinct

end Tree

end TreePath
