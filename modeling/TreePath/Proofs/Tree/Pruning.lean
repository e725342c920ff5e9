import TreePath.Proofs.Tree.Assembly

set_option autoImplicit false

/-!
# The tree of the listed leaves

Pruning keeps the listed leaves of a tree and the containers on the way to them, each leaf at its
location. Storing nothing but the leaves assembles the pruned tree: containers come into being
with the first leaf below them, in the order of the listing, and as short as the leaves allow.
-/

namespace TreePath.Tree

mutual

/-- Whether a tree is a listed leaf or has one anywhere below. -/
def bearsLeaf (nulls : Bool) : Tree → Bool
  | object members => membersBearLeaf nulls members
  | array slots => slotsBearLeaf nulls slots
  | leaf => leaf.isListed nulls
termination_by structural tree => tree

def membersBearLeaf (nulls : Bool) : List (String × Tree) → Bool
  | [] => false
  | (_, child) :: rest => bearsLeaf nulls child || membersBearLeaf nulls rest
termination_by structural members => members

def slotsBearLeaf (nulls : Bool) : List (Option Tree) → Bool
  | [] => false
  | none :: rest => slotsBearLeaf nulls rest
  | some child :: rest => bearsLeaf nulls child || slotsBearLeaf nulls rest
termination_by structural slots => slots

end

mutual

/-- A tree without the children that bear no listed leaf. Objects keep the order of their members.
Arrays keep the places of their elements, with holes for what is gone and none at the end. -/
def prune (nulls : Bool) : Tree → Tree
  | object members => object (pruneMembers nulls members)
  | array slots => array ((pruneSlots nulls slots).rdropWhile Option.isNone)
  | leaf => leaf
termination_by structural tree => tree

def pruneMembers (nulls : Bool) : List (String × Tree) → List (String × Tree)
  | [] => []
  | (key, child) :: rest =>
      if child.bearsLeaf nulls then (key, prune nulls child) :: pruneMembers nulls rest
      else pruneMembers nulls rest
termination_by structural members => members

def pruneSlots (nulls : Bool) : List (Option Tree) → List (Option Tree)
  | [] => []
  | none :: rest => none :: pruneSlots nulls rest
  | some child :: rest =>
      (if child.bearsLeaf nulls then some (prune nulls child) else none) :: pruneSlots nulls rest
termination_by structural slots => slots

end

def bearingChildren (nulls : Bool) (tree : Tree) : List (Step × Tree) :=
  tree.children.filter fun (_, child) => child.bearsLeaf nulls

/-- The places of the leaves of a tree, which may be its root. -/
def leafPlaces (nulls : Bool) (tree : Tree) : List Place :=
  (tree.placesWithin nulls).filter fun (_, node) => !node.isContainer

variable {nulls : Bool} {tree : Tree}

theorem mem_bearingChildren {child : Tree} {step : Step} :
    (step, child) ∈ tree.bearingChildren nulls ↔
      (step, child) ∈ tree.children ∧ child.bearsLeaf nulls = true :=
  List.mem_filter

/-! ## Where leaves are -/

theorem membersBearLeaf_iff {members : Members} :
    membersBearLeaf nulls members = true ↔
      ∃ entry ∈ members, entry.2.bearsLeaf nulls = true := by
  induction members with
  | nil => simp [membersBearLeaf]
  | cons entry rest inductionHypothesis => simp [membersBearLeaf, inductionHypothesis]

theorem slotsBearLeaf_iff {slots : Slots} :
    slotsBearLeaf nulls slots = true ↔
      ∃ child, some child ∈ slots ∧ child.bearsLeaf nulls = true := by
  induction slots with
  | nil => simp [slotsBearLeaf]
  | cons slot rest inductionHypothesis =>
      cases slot with
      | none => simp [slotsBearLeaf, inductionHypothesis]
      | some child => simp [slotsBearLeaf, inductionHypothesis, or_and_right, exists_or]

theorem bearsLeaf_iff_of_isContainer (container : tree.isContainer = true) :
    tree.bearsLeaf nulls = true ↔
      ∃ step child, (step, child) ∈ tree.children ∧ child.bearsLeaf nulls = true := by
  cases tree with
  | object members =>
      rw [bearsLeaf, membersBearLeaf_iff]
      constructor
      · rintro ⟨⟨key, child⟩, listed, bears⟩
        exact ⟨.member key, child, mem_children_object.mpr ⟨key, rfl, listed⟩, bears⟩
      · rintro ⟨step, child, membership, bears⟩
        obtain ⟨key, -, listed⟩ := mem_children_object.mp membership
        exact ⟨(key, child), listed, bears⟩
  | array slots =>
      rw [bearsLeaf, slotsBearLeaf_iff]
      constructor
      · rintro ⟨child, held, bears⟩
        obtain ⟨index, found⟩ := List.mem_iff_getElem?.mp held
        exact ⟨.element index, child, mem_children_array.mpr ⟨index, rfl, found⟩, bears⟩
      · rintro ⟨step, child, membership, bears⟩
        obtain ⟨index, -, found⟩ := mem_children_array.mp membership
        exact ⟨child, List.mem_of_getElem? found, bears⟩
  | _ => cases container

theorem bearsLeaf_of_isContainer_eq_false (leaf : tree.isContainer = false) :
    tree.bearsLeaf nulls = tree.isListed nulls := by
  cases tree <;> first | rfl | cases leaf

theorem isListed_of_bearsLeaf (bears : tree.bearsLeaf nulls = true) :
    tree.isListed nulls = true := by
  cases tree <;> first | rfl | exact bears

theorem leafPlaces_of_isContainer_eq_false (leaf : tree.isContainer = false) :
    tree.leafPlaces nulls = [([], tree)] := by
  rw [leafPlaces, placesWithin, places_eq_flatMap, listedChildren,
    children_eq_nil_of_isContainer_eq_false leaf]
  simp [leaf]

theorem leafPlaces_eq_flatMap_listedChildren (container : tree.isContainer = true) :
    tree.leafPlaces nulls = (tree.listedChildren nulls).flatMap fun (step, child) =>
      (child.leafPlaces nulls).map (.under step) := by
  rw [leafPlaces, placesWithin, List.filter_append, places_eq_flatMap, List.filter_flatMap]
  simp only [List.filter_map, List.filter_cons, container, Bool.not_true, Bool.false_eq_true,
    if_false, List.filter_nil, List.append_nil]
  rfl

theorem mem_places_of_mem_leafPlaces {place : Place} (container : tree.isContainer = true)
    (visited : place ∈ tree.leafPlaces nulls) :
    place ∈ tree.places nulls ∧ place.2.isContainer = false := by
  obtain ⟨within, leaf⟩ := List.mem_filter.mp visited
  rcases mem_placesWithin_iff.mp within with below | ⟨-, isRoot⟩
  · exact ⟨below, by simpa using leaf⟩
  · rw [← isRoot] at container
    simp [container] at leaf

theorem leafPlaces_eq_nil_iff (listed : tree.isListed nulls = true) :
    tree.leafPlaces nulls = [] ↔ tree.bearsLeaf nulls = false := by
  induction tree using induct_children with
  | node tree inductionHypothesis =>
      cases container : tree.isContainer with
      | false =>
          rw [leafPlaces_of_isContainer_eq_false container,
            bearsLeaf_of_isContainer_eq_false container]
          simp [listed]
      | true =>
          rw [leafPlaces_eq_flatMap_listedChildren container, ← Bool.not_eq_true,
            bearsLeaf_iff_of_isContainer container, List.flatMap_eq_nil_iff]
          constructor
          · rintro barren ⟨step, child, membership, bears⟩
            have childListed := isListed_of_bearsLeaf bears
            have empty := barren (step, child) (mem_listedChildren.mpr ⟨membership, childListed⟩)
            rw [List.map_eq_nil_iff, inductionHypothesis step child membership childListed,
              bears] at empty
            cases empty
          · rintro barren ⟨step, child⟩ membership
            obtain ⟨below, childListed⟩ := mem_listedChildren.mp membership
            rw [List.map_eq_nil_iff, inductionHypothesis step child below childListed]
            exact Bool.eq_false_iff.mpr fun bears => barren ⟨step, child, below, bears⟩

theorem leafPlaces_ne_nil (bears : tree.bearsLeaf nulls = true) : tree.leafPlaces nulls ≠ [] := by
  rw [Ne, leafPlaces_eq_nil_iff (isListed_of_bearsLeaf bears), bears]
  exact Bool.noConfusion

theorem filter_bearsLeaf_listedChildren :
    ((tree.listedChildren nulls).filter fun (_, child) => child.bearsLeaf nulls) =
      tree.bearingChildren nulls := by
  rw [listedChildren, bearingChildren, List.filter_filter]
  apply List.filter_congr
  rintro ⟨step, child⟩ -
  change (child.bearsLeaf nulls && child.isListed nulls) = child.bearsLeaf nulls
  cases bears : child.bearsLeaf nulls with
  | false => rfl
  | true => rw [isListed_of_bearsLeaf bears, Bool.and_true]

/-- The leaves of a container are those of its children that bear any. -/
theorem leafPlaces_eq_flatMap (container : tree.isContainer = true) :
    tree.leafPlaces nulls = (tree.bearingChildren nulls).flatMap fun (step, child) =>
      (child.leafPlaces nulls).map (.under step) := by
  rw [leafPlaces_eq_flatMap_listedChildren container, ← filter_bearsLeaf_listedChildren]
  have listed : ∀ entry ∈ tree.listedChildren nulls, entry.2.isListed nulls = true :=
    fun entry membership => (mem_listedChildren.mp membership).2
  generalize tree.listedChildren nulls = entries at listed
  induction entries with
  | nil => rfl
  | cons entry rest inductionHypothesis =>
      obtain ⟨step, child⟩ := entry
      obtain ⟨childListed, restListed⟩ := List.forall_mem_cons.mp listed
      rw [List.flatMap_cons, inductionHypothesis restListed, List.filter_cons]
      cases bears : child.bearsLeaf nulls with
      | true => rw [if_pos bears, List.flatMap_cons]
      | false =>
          rw [if_neg (Bool.eq_false_iff.mp bears)]
          simp [(leafPlaces_eq_nil_iff childListed).mpr bears]

/-! ## What the leaves assemble -/

theorem prune_of_isContainer_eq_false (leaf : tree.isContainer = false) :
    tree.prune nulls = tree := by
  cases tree <;> first | rfl | cases leaf

theorem pruneMembers_eq_map (members : Members) :
    pruneMembers nulls members = (members.filter fun (_, child) => child.bearsLeaf nulls).map
      fun (key, child) => (key, child.prune nulls) := by
  induction members with
  | nil => rfl
  | cons entry rest inductionHypothesis =>
      obtain ⟨key, child⟩ := entry
      simp only [pruneMembers, List.filter_cons, inductionHypothesis]
      split <;> rfl

theorem nodup_keys_pruneMembers {members : Members} (distinct : (members.map Prod.fst).Nodup) :
    ((pruneMembers nulls members).map Prod.fst).Nodup := by
  rw [pruneMembers_eq_map, List.map_map]
  exact distinct.sublist (List.filter_sublist.map Prod.fst)

theorem children_pruneMembers (members : Members) :
    (object (pruneMembers nulls members)).children =
      ((object members).bearingChildren nulls).map fun (step, child) =>
        (step, child.prune nulls) := by
  simp only [children, bearingChildren, pruneMembers_eq_map, List.filter_map, List.map_map]
  rfl

theorem children_pruneSlots (slots : Slots) :
    (array (pruneSlots nulls slots)).children =
      ((array slots).bearingChildren nulls).map fun (step, child) =>
        (step, child.prune nulls) := by
  simp only [children, bearingChildren]
  generalize 0 = index
  induction slots generalizing index with
  | nil => rfl
  | cons slot rest inductionHypothesis =>
      cases slot with
      | none =>
          rw [pruneSlots, List.zipIdx_cons, List.zipIdx_cons]
          exact inductionHypothesis (index + 1)
      | some child =>
          have later := inductionHypothesis (index + 1)
          cases bears : child.bearsLeaf nulls <;>
            simp [pruneSlots, List.zipIdx_cons, bears, later]

theorem putAll_bearingChildren {kind : ContainerKind} (accepted : kind.accepts tree = true)
    (distinct : tree.hasDistinctKeys = true) :
    putAll ((tree.bearingChildren nulls).map fun (step, child) => (step, child.prune nulls))
      kind.empty = tree.prune nulls := by
  cases kind with
  | object =>
      obtain ⟨members, rfl⟩ := exists_members_of_accepts accepted
      rw [← children_pruneMembers]
      exact putAll_children_object
        (nodup_keys_pruneMembers (hasDistinctKeys_object_iff.mp distinct))
  | array =>
      obtain ⟨slots, rfl⟩ := exists_slots_of_accepts accepted
      rw [← children_pruneSlots]
      exact putAll_children_array _

/-- Storing the leaves of a tree gives the pruned tree. -/
theorem assignAll_leafPlaces (distinct : tree.everywhere hasDistinctKeys = true)
    (bears : tree.bearsLeaf nulls = true) :
    assignAll (tree.leafPlaces nulls) absent = .ok (tree.prune nulls) := by
  induction tree using induct_children with
  | node tree inductionHypothesis =>
      cases container : tree.isContainer with
      | false =>
          rw [leafPlaces_of_isContainer_eq_false container, prune_of_isContainer_eq_false container]
          rfl
      | true =>
          obtain ⟨step, child, membership, childBears⟩ :=
            (bearsLeaf_iff_of_isContainer container).mp bears
          have accepted := accepts_of_mem_children membership
          have treeDistinct := (everywhere_iff.mp distinct).1
          have kept : (tree.bearingChildren nulls).Sublist tree.children := List.filter_sublist
          have nonempty : tree.bearingChildren nulls ≠ [] :=
            List.ne_nil_of_mem (mem_bearingChildren.mpr ⟨membership, childBears⟩)
          rw [leafPlaces_eq_flatMap container, assignAll_children_of_ne_nil (leafPlaces nulls)
            (prune nulls) treeDistinct accepted kept nonempty]
          · rw [putAll_bearingChildren accepted treeDistinct]
          · rintro ⟨other, grandchild⟩ bearing
            obtain ⟨below, deeper⟩ := mem_bearingChildren.mp bearing
            exact ⟨leafPlaces_ne_nil deeper,
              inductionHypothesis other grandchild below (everywhere_child distinct below) deeper⟩

/-- It is the same from an empty container, even for a container that bears no leaf. -/
theorem assignAll_leafPlaces_of_accepts {kind : ContainerKind}
    (distinct : tree.everywhere hasDistinctKeys = true) (accepted : kind.accepts tree = true) :
    assignAll (tree.leafPlaces nulls) kind.empty = .ok (tree.prune nulls) := by
  have treeDistinct := (everywhere_iff.mp distinct).1
  have kept : (tree.bearingChildren nulls).Sublist tree.children := List.filter_sublist
  rw [leafPlaces_eq_flatMap (isContainer_of_accepts accepted),
    assignAll_children (leafPlaces nulls) (prune nulls) treeDistinct accepted kept]
  · rw [putAll_bearingChildren accepted treeDistinct]
  · rintro ⟨step, child⟩ bearing
    obtain ⟨below, bears⟩ := mem_bearingChildren.mp bearing
    exact ⟨leafPlaces_ne_nil bears, assignAll_leafPlaces (everywhere_child distinct below) bears⟩

end TreePath.Tree
