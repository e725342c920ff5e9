import Mathlib.Data.List.Nodup
import Mathlib.Data.List.Perm.Subperm
import TreePath.Proofs.Engine.Reordering
import TreePath.Proofs.Json.Equality
import TreePath.Proofs.Number.Equality
import TreePath.Tree.Equality

set_option autoImplicit false

/-!
# Equal trees

Trees are compared from the left: every member there must have an equal one under its key on the
right. Trees compare as equal if no float in the left one is a NaN and the two differ in the order
of members and in the signs of zeros only. `equal_iff` says so with `canonical`, which drops those
signs. Hence equality is symmetric and transitive, and whatever does not show the order of members
is known of equal trees from `Reordered`.
-/

namespace TreePath.Tree

open TreePath.Path

mutual

/-- A tree with the canonical form of every float. -/
def canonical : Tree → Tree
  | float value => float value.canonical
  | object members => object (canonicalMembers members)
  | array slots => array (canonicalSlots slots)
  | leaf => leaf
termination_by structural tree => tree

def canonicalMembers : List (String × Tree) → Members
  | [] => []
  | (key, child) :: rest => (key, canonical child) :: canonicalMembers rest
termination_by structural members => members

def canonicalSlots : List (Option Tree) → Slots
  | [] => []
  | none :: rest => none :: canonicalSlots rest
  | some child :: rest => some (canonical child) :: canonicalSlots rest
termination_by structural slots => slots

end

/-- The node is not a NaN. -/
def isNotNaN : Tree → Bool
  | float value => !value.isNaN
  | _ => true

variable {tree other third : Tree} {step : Step}

/-! ## Canonical trees -/

theorem canonical_object (members : Members) :
    (object members).canonical =
      object (members.map fun entry => (entry.1, entry.2.canonical)) := by
  rw [canonical]
  apply congrArg object
  induction members with
  | nil => rfl
  | cons entry rest inductionHypothesis =>
      obtain ⟨key, child⟩ := entry
      rw [canonicalMembers, inductionHypothesis, List.map_cons]

theorem canonical_array (slots : Slots) :
    (array slots).canonical = array (slots.map (Option.map canonical)) := by
  rw [canonical]
  apply congrArg array
  induction slots with
  | nil => rfl
  | cons slot rest inductionHypothesis =>
      cases slot <;> simp only [canonicalSlots, inductionHypothesis, List.map_cons, Option.map_none,
        Option.map_some]

theorem at?_canonical (step : Step) (tree : Tree) :
    tree.canonical.at? step = (tree.at? step).map canonical := by
  cases tree with
  | object members =>
      rw [canonical_object]
      cases step with
      | member key => exact Members.get?_map_values (fun _ => canonical) key members
      | element index => rfl
  | array slots =>
      rw [canonical_array]
      cases step with
      | member key => rfl
      | element index =>
          simp only [at?, element?, Slots.get?, List.getElem?_map]
          cases slots[index]? <;> rfl
  | _ => cases step <;> rfl

theorem locate?_canonical (location : List Step) (tree : Tree) :
    tree.canonical.locate? location = (tree.locate? location).map canonical := by
  induction location generalizing tree with
  | nil => rfl
  | cons step rest inductionHypothesis =>
      rw [locate?_cons, locate?_cons, at?_canonical]
      cases tree.at? step with
      | none => rfl
      | some child => exact inductionHypothesis child

theorem isAbsent_canonical (tree : Tree) : tree.canonical.isAbsent = tree.isAbsent := by
  cases tree <;> rfl

theorem isListed_canonical (nulls : Bool) (tree : Tree) :
    tree.canonical.isListed nulls = tree.isListed nulls := by
  cases tree <;> rfl

theorem stepFor?_canonical (token : Token) (tree : Tree) :
    tree.canonical.stepFor? token = tree.stepFor? token := by
  cases tree <;> rfl

theorem hasDistinctKeys_canonical (tree : Tree) :
    tree.canonical.hasDistinctKeys = tree.hasDistinctKeys := by
  cases tree with
  | object members =>
      rw [canonical_object, hasDistinctKeys, List.map_map]
      rfl
  | _ => rfl

theorem isNotNaN_canonical (tree : Tree) : tree.canonical.isNotNaN = tree.isNotNaN := by
  cases tree with
  | float value => exact congrArg not value.isNaN_canonical
  | _ => rfl

theorem everywhere_canonical {check : Tree → Bool}
    (kept : ∀ node : Tree, check node.canonical = check node) (tree : Tree) :
    tree.canonical.everywhere check = tree.everywhere check := by
  have here := kept tree
  induction tree using Tree.induct with
  | object members inductionHypothesis =>
      rw [canonical_object] at here ⊢
      rw [everywhere, everywhere, here, Bool.eq_iff_iff, Bool.and_eq_true, Bool.and_eq_true,
        everywhereMembers_iff, everywhereMembers_iff, List.forall_mem_map]
      refine and_congr_right fun _ => forall₂_congr fun entry listed => ?_
      rw [inductionHypothesis entry listed (kept entry.2)]
  | array slots inductionHypothesis =>
      rw [canonical_array] at here ⊢
      rw [everywhere, everywhere, here, Bool.eq_iff_iff, Bool.and_eq_true, Bool.and_eq_true,
        everywhereSlots_iff, everywhereSlots_iff]
      refine and_congr_right fun _ => ⟨?_, ?_⟩
      · intro passed child held
        rw [← inductionHypothesis child held (kept child)]
        exact passed child.canonical (List.mem_map.mpr ⟨some child, held, rfl⟩)
      · intro passed child held
        obtain ⟨slot, listed, filled⟩ := List.mem_map.mp held
        obtain ⟨original, rfl, rfl⟩ := Option.map_eq_some_iff.mp filled
        rw [inductionHypothesis original listed (kept original)]
        exact passed original listed
  | _ => exact here

theorem presentMembers_map_canonical (members : Members) :
    presentMembers (members.map fun entry => (entry.1, entry.2.canonical)) =
      (presentMembers members).map fun entry => (entry.1, entry.2.canonical) := by
  simp only [presentMembers, List.filter_map, Function.comp_def, isAbsent_canonical]

/-- A canonical tree converts to a canonical value. -/
theorem toJson_canonical (distinct : tree.everywhere hasDistinctKeys = true) :
    tree.canonical.toJson = tree.toJson.canonical := by
  induction tree using Tree.induct with
  | object members inductionHypothesis =>
      obtain ⟨keys, below⟩ := everywhere_hasDistinctKeys_object_iff.mp distinct
      rw [canonical_object, toJson_object (by rw [List.map_map]; exact keys), toJson_object keys,
        Json.canonical, Json.canonicalMembers_eq, map_insertionSort_values,
        presentMembers_map_canonical, List.map_map, List.map_map]
      congr 2
      apply List.map_congr_left
      intro entry membership
      have listed := (mem_presentMembers.mp membership).1
      exact congrArg (Prod.mk entry.1) (inductionHypothesis entry listed (below entry listed))
  | array slots inductionHypothesis =>
      have below := everywhere_hasDistinctKeys_array_iff.mp distinct
      rw [canonical_array, toJson_array, toJson_array, Json.canonical, Json.canonicalItems_eq,
        List.map_map, List.map_map]
      apply congrArg Json.array
      apply List.map_congr_left
      intro slot held
      cases slot with
      | none => rfl
      | some child => exact inductionHypothesis child held (below child held)
  | float value =>
      rw [canonical]
      by_cases finite : value.isFinite = true
      · rw [toJson_float_of_finite finite,
          toJson_float_of_finite (value.isFinite_canonical.trans finite)]
        rfl
      · rw [toJson_float_of_not_finite finite,
          toJson_float_of_not_finite (by rw [value.isFinite_canonical]; exact finite)]
        rfl
  | _ => rfl

/-! ## One node -/

theorem membersEqual_iff {members others : Members} :
    membersEqual members others = true ↔
      ∀ entry ∈ members,
        ∃ child, others.get? entry.1 = some child ∧ entry.2.equal child = true := by
  induction members with
  | nil => simp [membersEqual]
  | cons entry rest inductionHypothesis =>
      obtain ⟨key, child⟩ := entry
      rw [membersEqual, List.forall_mem_cons, ← inductionHypothesis]
      cases others.get? key <;> simp

theorem slotsEqual_iff {slots others : Slots} :
    slotsEqual slots others = true ↔
      List.Forall₂ (Option.Rel fun child otherChild => child.equal otherChild = true)
        slots others := by
  induction slots generalizing others with
  | nil => cases others <;> simp [slotsEqual]
  | cons slot rest inductionHypothesis =>
      cases others with
      | nil => cases slot <;> simp [slotsEqual]
      | cons otherSlot others =>
          cases slot <;> cases otherSlot <;> simp [slotsEqual, inductionHypothesis]

theorem sameSurface_object_iff {members others : Members} :
    SameSurface (object members) (object others) ↔
      (members.map Prod.fst).Perm (others.map Prod.fst) := by
  constructor
  · intro same
    cases same with
    | leaf noContainer => cases noContainer
    | object keys => exact keys
  · exact .object

theorem sameSurface_array_iff {slots others : Slots} :
    SameSurface (array slots) (array others) ↔
      slots.map Option.isSome = others.map Option.isSome := by
  constructor
  · intro same
    cases same with
    | leaf noContainer => cases noContainer
    | array shape => exact shape
  · exact .array

theorem sameSurface_leaf_iff (leaf : tree.isContainer = false) :
    SameSurface tree other ↔ tree = other := by
  constructor
  · intro same
    cases same with
    | leaf => rfl
    | object keys => cases leaf
    | array shape => cases leaf
  · rintro rfl
    exact .leaf leaf

theorem equal_leaf_iff (leaf : tree.isContainer = false) :
    tree.equal other = true ↔ tree.isNotNaN = true ∧ tree.canonical = other.canonical := by
  cases tree with
  | object members => cases leaf
  | array slots => cases leaf
  | float value =>
      cases other <;> simp [equal, isNotNaN, canonical, Binary64.equal_iff]
  | _ => cases other <;> simp [equal, isNotNaN, canonical]

/-- If each of the keys on the left, which are distinct, is one of as many on the right, then the
keys on both sides are the same. -/
theorem equal_object_iff {members others : Members} (distinct : (members.map Prod.fst).Nodup) :
    (object members).equal (object others) = true ↔
      (members.map Prod.fst).Perm (others.map Prod.fst) ∧
        ∀ key child otherChild, members.get? key = some child → others.get? key = some otherChild →
          child.equal otherChild = true := by
  rw [equal, Bool.and_eq_true, beq_iff_eq, membersEqual_iff]
  constructor
  · rintro ⟨lengths, alike⟩
    refine ⟨?_, ?_⟩
    · have known : members.map Prod.fst ⊆ others.map Prod.fst := by
        intro key membership
        obtain ⟨entry, listed, rfl⟩ := List.mem_map.mp membership
        obtain ⟨child, found, -⟩ := alike entry listed
        exact Members.isSome_get?_iff.mp (by rw [found]; rfl)
      refine (List.subperm_of_subset distinct known).perm_of_length_le ?_
      rw [List.length_map, List.length_map, lengths]
    · intro key child otherChild found otherFound
      obtain ⟨value, valueFound, same⟩ := alike (key, child) (Members.mem_of_get?_eq_some found)
      obtain rfl := Option.some.inj (valueFound.symm.trans otherFound)
      exact same
  · rintro ⟨keys, below⟩
    refine ⟨by simpa using keys.length_eq, ?_⟩
    rintro ⟨key, child⟩ listed
    have known := keys.mem_iff.mp (List.mem_map.mpr ⟨(key, child), listed, rfl⟩)
    obtain ⟨otherChild, found⟩ := Option.isSome_iff_exists.mp (Members.isSome_get?_iff.mpr known)
    have here := (Members.get?_eq_some_iff_mem distinct).mpr listed
    exact ⟨otherChild, found, below key child otherChild here found⟩

theorem equal_array_iff {slots others : Slots} :
    (array slots).equal (array others) = true ↔
      slots.map Option.isSome = others.map Option.isSome ∧
        ∀ index child otherChild, slots.get? index = some child →
          others.get? index = some otherChild → child.equal otherChild = true := by
  rw [equal, slotsEqual_iff, Slots.forall₂_rel_iff]

/-- Equal nodes are no NaN, differ in the order of members and in the sign of a zero at most, and
have equal children. -/
theorem equal_iff_surface (distinct : tree.hasDistinctKeys = true) :
    tree.equal other = true ↔
      tree.isNotNaN = true ∧ SameSurface tree.canonical other.canonical ∧
        ∀ step child otherChild, tree.at? step = some child → other.at? step = some otherChild →
          child.equal otherChild = true := by
  cases tree with
  | object members =>
      cases other with
      | object others =>
          rw [equal_object_iff (hasDistinctKeys_object_iff.mp distinct), canonical_object,
            canonical_object, sameSurface_object_iff, List.map_map, List.map_map]
          refine (and_congr_right fun _ => ⟨?_, ?_⟩).trans (and_iff_right rfl).symm
          · rintro below (key | index) child otherChild found otherFound
            · exact below key child otherChild found otherFound
            · simp [at?, element?] at found
          · intro below key
            exact below (.member key)
      | _ => exact iff_of_false (fun same => by cases same) fun both => by cases both.2.1.kind_eq
  | array slots =>
      cases other with
      | array others =>
          rw [equal_array_iff, canonical_array, canonical_array, sameSurface_array_iff,
            List.map_map, List.map_map]
          simp only [Function.comp_def, Option.isSome_map]
          refine (and_congr_right fun _ => ⟨?_, ?_⟩).trans (and_iff_right rfl).symm
          · rintro below (key | index) child otherChild found otherFound
            · simp [at?, member?] at found
            · exact below index child otherChild found otherFound
          · intro below index
            exact below (.element index)
      | _ => exact iff_of_false (fun same => by cases same) fun both => by cases both.2.1.kind_eq
  | _ =>
      rw [equal_leaf_iff rfl, sameSurface_leaf_iff rfl]
      refine and_congr_right fun _ => (and_iff_left ?_).symm
      intro step child otherChild found
      cases step <;> cases found

/-! ## The whole tree -/

theorem isSome_at?_of_sameSurface_canonical
    (surface : SameSurface tree.canonical other.canonical) (step : Step) :
    (tree.at? step).isSome = (other.at? step).isSome := by
  have both := surface.isSome_at? step
  rwa [at?_canonical, at?_canonical, Option.isSome_map, Option.isSome_map] at both

/-- Trees are equal if they hold no NaN and differ in the order of members and in the signs of zeros
at most. -/
theorem equal_iff (distinct : tree.everywhere hasDistinctKeys = true) :
    tree.equal other = true ↔
      tree.everywhere isNotNaN = true ∧ Reordered tree.canonical other.canonical := by
  induction tree using induct_children generalizing other with
  | node tree inductionHypothesis =>
      have here := (everywhere_iff.mp distinct).1
      have below (step : Step) (child otherChild : Tree)
          (membership : (step, child) ∈ tree.children) :=
        @inductionHypothesis step child membership otherChild (everywhere_child distinct membership)
      rw [equal_iff_surface here, everywhere_iff]
      constructor
      · rintro ⟨number, surface, equal⟩
        refine ⟨⟨number, ?_⟩, .node surface ?_⟩
        · intro step child membership
          have found := at?_of_mem_children here membership
          have reached := isSome_at?_of_sameSurface_canonical surface step
          rw [found, Option.isSome_some, eq_comm, Option.isSome_iff_exists] at reached
          obtain ⟨otherChild, otherFound⟩ := reached
          exact ((below step child otherChild membership).mp
            (equal step child otherChild found otherFound)).1
        · intro step child otherChild found otherFound
          rw [at?_canonical, Option.map_eq_some_iff] at found otherFound
          obtain ⟨child, found, rfl⟩ := found
          obtain ⟨otherChild, otherFound, rfl⟩ := otherFound
          exact ((below step child otherChild (mem_children_of_at?_eq_some found)).mp
            (equal step child otherChild found otherFound)).2
      · rintro ⟨⟨number, numbers⟩, same⟩
        cases same with
        | node surface reordered =>
            refine ⟨number, surface, ?_⟩
            intro step child otherChild found otherFound
            have membership := mem_children_of_at?_eq_some found
            refine (below step child otherChild membership).mpr
              ⟨numbers step child membership, ?_⟩
            apply reordered step
            · rw [at?_canonical, found, Option.map_some]
            · rw [at?_canonical, otherFound, Option.map_some]

/-! ## Laws -/

theorem SameSurface.isNotNaN_eq (same : SameSurface tree other) :
    tree.isNotNaN = other.isNotNaN := by
  cases same <;> rfl

theorem everywhere_of_reordered_canonical {check : Tree → Bool}
    (kept : ∀ node : Tree, check node.canonical = check node)
    (alike : ∀ node otherNode, SameSurface node otherNode → check node = check otherNode)
    (same : Reordered tree.canonical other.canonical)
    (distinct : tree.everywhere hasDistinctKeys = true) (passed : tree.everywhere check = true) :
    other.everywhere check = true := by
  rw [← everywhere_canonical hasDistinctKeys_canonical] at distinct
  rw [← everywhere_canonical kept] at passed ⊢
  exact same.everywhere alike distinct passed

theorem everywhere_hasDistinctKeys_of_equal (distinct : tree.everywhere hasDistinctKeys = true)
    (same : tree.equal other = true) : other.everywhere hasDistinctKeys = true :=
  everywhere_of_reordered_canonical hasDistinctKeys_canonical
    (fun _ _ surface => surface.hasDistinctKeys_eq) ((equal_iff distinct).mp same).2 distinct
    distinct

theorem equal_symm (distinct : tree.everywhere hasDistinctKeys = true)
    (same : tree.equal other = true) : other.equal tree = true := by
  obtain ⟨numbers, reordered⟩ := (equal_iff distinct).mp same
  have otherNumbers : other.everywhere isNotNaN = true :=
    everywhere_of_reordered_canonical isNotNaN_canonical (fun _ _ surface => surface.isNotNaN_eq)
      reordered distinct numbers
  exact (equal_iff (everywhere_hasDistinctKeys_of_equal distinct same)).mpr
    ⟨otherNumbers, reordered.symm⟩

theorem equal_trans (distinct : tree.everywhere hasDistinctKeys = true)
    (first : tree.equal other = true) (second : other.equal third = true) :
    tree.equal third = true := by
  obtain ⟨numbers, reordered⟩ := (equal_iff distinct).mp first
  have otherDistinct := everywhere_hasDistinctKeys_of_equal distinct first
  exact (equal_iff distinct).mpr
    ⟨numbers, reordered.trans ((equal_iff otherDistinct).mp second).2⟩

theorem equal_self_iff (distinct : tree.everywhere hasDistinctKeys = true) :
    tree.equal tree = true ↔ tree.everywhere isNotNaN = true := by
  rw [equal_iff distinct]
  exact and_iff_left (.refl _)

/-! ## What is known of equal trees -/

/-- Looking up in equal trees finds equal nodes, or nothing in both. -/
theorem rel_follow?_of_equal (distinct : tree.everywhere hasDistinctKeys = true)
    (same : tree.equal other = true) (tokens : List Token) :
    Option.Rel (fun node otherNode => node.equal otherNode = true) (tree.follow? tokens)
      (other.follow? tokens) := by
  induction tokens generalizing tree other with
  | nil => exact .some same
  | cons token rest inductionHypothesis =>
      obtain ⟨-, surface, below⟩ := (equal_iff_surface (everywhere_iff.mp distinct).1).mp same
      have steps : tree.stepFor? token = other.stepFor? token := by
        rw [← stepFor?_canonical, surface.stepFor?_eq token, stepFor?_canonical]
      rw [follow?_cons, follow?_cons, child?_eq_bind_stepFor?, child?_eq_bind_stepFor?, steps]
      cases other.stepFor? token with
      | none => exact .none
      | some step =>
          have children := rel_of_isSome_eq (isSome_at?_of_sameSurface_canonical surface step)
            fun child otherChild found otherFound =>
              And.intro (everywhere_child distinct (mem_children_of_at?_eq_some found))
                (below step child otherChild found otherFound)
          apply rel_bind children
          rintro child otherChild ⟨childDistinct, childSame⟩
          exact inductionHypothesis childDistinct childSame

theorem lists_canonical_iff {nulls : Bool} {location : List Step} :
    tree.canonical.Lists nulls location ↔ tree.Lists nulls location := by
  simp [Lists, locate?_canonical, isListed_canonical]

theorem paths_perm_of_equal (distinct : tree.everywhere hasDistinctKeys = true)
    (same : tree.equal other = true) (nulls : Bool) :
    (other.paths nulls).Perm (tree.paths nulls) := by
  have reordered := ((equal_iff distinct).mp same).2
  apply paths_perm_of_lists_iff (everywhere_hasDistinctKeys_of_equal distinct same) distinct
  intro location
  rw [← lists_canonical_iff, ← @lists_canonical_iff tree]
  exact ⟨reordered.symm.lists, reordered.lists⟩

theorem toJson_equal_of_equal (distinct : tree.everywhere hasDistinctKeys = true)
    (same : tree.equal other = true) : tree.toJson.equal other.toJson = true := by
  have otherDistinct := everywhere_hasDistinctKeys_of_equal distinct same
  have reordered := ((equal_iff distinct).mp same).2
  apply Json.equal_of_canonical_eq
  calc tree.toJson.canonical
    _ = tree.canonical.toJson := (toJson_canonical distinct).symm
    _ = other.canonical.toJson := by
      rw [← everywhere_canonical hasDistinctKeys_canonical] at distinct
      exact (reordered.convertAlike distinct).toJson_eq
    _ = other.toJson.canonical := toJson_canonical otherDistinct

/-- Equality is symmetric and transitive, and only NaNs keep a tree from being equal to itself.
Looking up, listing and converting do not tell equal trees apart. -/
theorem equal_symm_trans_and_observed (engine : Engine) (tree : Tree)
    (distinct : tree.everywhere hasDistinctKeys = true) :
    ((tree == tree) = true ↔ tree.everywhere isNotNaN = true) ∧
      ∀ other : Tree, (tree == other) = true →
        (other == tree) = true ∧
          (∀ third : Tree, (other == third) = true → (tree == third) = true) ∧
          (∀ path, Option.Rel (fun node otherNode => (node == otherNode) = true)
            (engine.read? path tree) (engine.read? path other)) ∧
          (engine.paths other).Perm (engine.paths tree) ∧
          (tree.toJson == other.toJson) = true := by
  refine ⟨equal_self_iff distinct, ?_⟩
  intro other same
  refine ⟨equal_symm distinct same, ?_, ?_, ?_, toJson_equal_of_equal distinct same⟩
  · intro third
    exact equal_trans distinct same
  · intro path
    exact rel_follow?_of_equal distinct same (Path.tokens path)
  · exact paths_perm_of_equal distinct same engine.config.enumerateNulls

theorem equal_symm_trans_and_observed_of_signed_zeros_and_nan :
    (object [("l", array [none, some (object [("n", float ⟨0x7ff8000000000000⟩)])])]).everywhere
        hasDistinctKeys = true ∧
      (object [("x", float ⟨0⟩), ("l", array [none, some (int 7)])]).everywhere
        hasDistinctKeys = true ∧
      (object [("x", float ⟨0⟩), ("l", array [none, some (int 7)])] ==
        object [("l", array [none, some (int 7)]), ("x", float ⟨0x8000000000000000⟩)]) = true ∧
      ¬ (object [("l", array [none, some (object [("n", float ⟨0x7ff8000000000000⟩)])])] ==
        object [("l", array [none, some (object [("n", float ⟨0x7ff8000000000000⟩)])])]) = true ∧
      (object [("l", array [none, some (int 7)]), ("x", float ⟨0x8000000000000000⟩)] ==
        object [("x", float ⟨0⟩), ("l", array [none, some (int 7)])]) = true ∧
      (object [("l", array [none, some (int 7)]), ("x", float ⟨0x8000000000000000⟩)] ==
          object [("x", float ⟨0x8000000000000000⟩), ("l", array [none, some (int 7)])] →
        object [("x", float ⟨0⟩), ("l", array [none, some (int 7)])] ==
          object [("x", float ⟨0x8000000000000000⟩), ("l", array [none, some (int 7)])]) ∧
      Option.Rel (fun node otherNode => (node == otherNode) = true) (some (float ⟨0⟩))
        (some (float ⟨0x8000000000000000⟩)) ∧
      ["l[1]", "l", "x"].Perm ["x", "l[1]", "l"] ∧
      ((object [("x", float ⟨0⟩), ("l", array [none, some (int 7)])]).toJson ==
        (object [("l", array [none, some (int 7)]),
          ("x", float ⟨0x8000000000000000⟩)]).toJson) = true := by
  have nan := equal_symm_trans_and_observed .standard
    (object [("l", array [none, some (object [("n", float ⟨0x7ff8000000000000⟩)])])]) (by decide)
  have zero := equal_symm_trans_and_observed .standard
    (object [("x", float ⟨0⟩), ("l", array [none, some (int 7)])]) (by decide)
  have same : (object [("x", float ⟨0⟩), ("l", array [none, some (int 7)])] ==
      object [("l", array [none, some (int 7)]),
        ("x", float ⟨0x8000000000000000⟩)]) = true := by decide
  obtain ⟨symmetric, transitive, reads, listed, converted⟩ := zero.2 _ same
  refine ⟨by decide, by decide, same, ?_, symmetric, transitive _, ?_, listed, converted⟩
  · rw [nan.1]
    decide
  · have found := reads "x"
    have word : Path.tokens "x" = [.key "x"] := by decide
    simp only [Engine.read?, read?, word] at found
    exact found

end TreePath.Tree
