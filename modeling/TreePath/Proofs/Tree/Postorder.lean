import Mathlib.Data.List.Flatten
import TreePath.Proofs.Tree.Locating

set_option autoImplicit false

/-!
# The order of a listing

A listing is the concatenation, over the listed children of a node in turn, of what is listed below
the child and the child itself. So the places at and below a node stand together and the node is the
last of them, and the children of a node come in their order.
-/

namespace TreePath

namespace Place

/-- A place below the node at a location, as a place of the whole tree. -/
def inside (location : List Step) (place : Place) : Place :=
  (location ++ place.1, place.2)

theorem map_inside_nil (places : List Place) : places.map (inside []) = places :=
  List.map_id places

theorem map_inside_cons (step : Step) (rest : List Step) (places : List Place) :
    places.map (inside (step :: rest)) = (places.map (inside rest)).map (under step) := by
  rw [List.map_map]
  rfl

/-- The places at a location and below it stand together among those visited, in this order. -/
def IsBlock (location : List Step) (block visited : List Place) : Prop :=
  ∃ before after, visited = before ++ block ++ after ∧
    (∀ place ∈ block, location <+: place.1) ∧ ∀ place ∈ before ++ after, ¬ location <+: place.1

variable {outer location : List Step} {block middle visited : List Place}

theorem IsBlock.sublist (together : IsBlock location block visited) : block.Sublist visited := by
  obtain ⟨before, after, rfl, -, -⟩ := together
  exact (List.infix_append before block after).sublist

theorem IsBlock.trans (begins : outer <+: location) (around : IsBlock outer middle visited)
    (together : IsBlock location block middle) : IsBlock location block visited := by
  obtain ⟨farBefore, farAfter, rfl, -, farBeside⟩ := around
  obtain ⟨before, after, rfl, within, beside⟩ := together
  refine ⟨farBefore ++ before, after ++ farAfter, by simp, within, ?_⟩
  intro place membership deeper
  have near : place ∈ before ++ after ∨ place ∈ farBefore ++ farAfter := by
    simp only [List.mem_append] at membership ⊢
    tauto
  rcases near with near | far
  · exact beside place near deeper
  · exact farBeside place far (begins.trans deeper)

theorem IsBlock.under (step : Step) (together : IsBlock location block visited) :
    IsBlock (step :: location) (block.map (under step)) (visited.map (under step)) := by
  obtain ⟨before, after, rfl, within, beside⟩ := together
  refine ⟨before.map (Place.under step), after.map (Place.under step), by simp, ?_, ?_⟩
  · intro place membership
    obtain ⟨deeper, inBlock, rfl⟩ := List.mem_map.mp membership
    exact List.cons_prefix_cons.mpr ⟨rfl, within deeper inBlock⟩
  · intro place membership begins
    rw [← List.map_append] at membership
    obtain ⟨deeper, outside, rfl⟩ := List.mem_map.mp membership
    exact beside deeper outside (List.cons_prefix_cons.mp begins).2

theorem IsBlock.concat (together : IsBlock location block visited) {place : Place}
    (beside : ¬ location <+: place.1) : IsBlock location block (visited ++ [place]) := by
  obtain ⟨before, after, rfl, within, outside⟩ := together
  refine ⟨before, after ++ [place], by simp, within, ?_⟩
  intro other membership
  rw [← List.append_assoc, List.mem_append, List.mem_singleton] at membership
  rcases membership with there | rfl
  · exact outside other there
  · exact beside

end Place

namespace Tree

/-! ## The order as a recursion over listed children -/

/-- The entries below the node at a path: for each listed child in turn, those below the child and
then the child itself. -/
def postorder (nulls : Bool) (path : String) (tree : Tree) : List Entry :=
  (tree.listedChildren nulls).attach.flatMap fun ⟨(step, child), _⟩ =>
    postorder nulls (step.extend path) child ++ [(step.extend path, child)]
termination_by tree
decreasing_by
  rename_i membership
  exact sizeOf_lt_of_mem_children (mem_listedChildren.mp membership).1

theorem postorder_eq_flatMap (nulls : Bool) (path : String) (tree : Tree) :
    tree.postorder nulls path = (tree.listedChildren nulls).flatMap fun (step, child) =>
      child.postorder nulls (step.extend path) ++ [(step.extend path, child)] := by
  rw [postorder, List.flatMap_subtype, List.unattach_attach]
  rintro ⟨step, child⟩ membership
  rfl

theorem postorder_eq_map_places (nulls : Bool) (path : String) (tree : Tree) :
    tree.postorder nulls path = (tree.places nulls).map fun (location, node) =>
      (location.foldl Step.extend path, node) := by
  induction tree using induct_children generalizing path with
  | node tree inductionHypothesis =>
      rw [postorder_eq_flatMap, places_eq_flatMap, List.map_flatMap]
      apply List.flatMap_congr
      rintro ⟨step, child⟩ membership
      have below := inductionHypothesis step child (mem_listedChildren.mp membership).1
      simp [below, placesWithin, Place.under, Function.comp_def]

variable {nulls : Bool} {tree node child : Tree} {location rest : List Step} {step : Step}

/-! ## The places of a node among those of the tree -/

theorem isBlock_child (distinct : tree.hasDistinctKeys = true)
    (membership : (step, child) ∈ tree.listedChildren nulls) :
    Place.IsBlock [step] ((child.placesWithin nulls).map (Place.under step))
      (tree.places nulls) := by
  obtain ⟨front, back, split⟩ := List.append_of_mem membership
  have differ := pairwise_steps_listedChildren nulls distinct
  rw [split] at differ
  obtain ⟨-, fromBack, fromFront⟩ := List.pairwise_append.mp differ
  have visitedInTurn := places_eq_flatMap nulls tree
  rw [split, List.flatMap_append, List.flatMap_cons, ← List.append_assoc] at visitedInTurn
  refine ⟨_, _, visitedInTurn, ?_, ?_⟩
  · intro place visited
    obtain ⟨deeper, -, rfl⟩ := List.mem_map.mp visited
    exact List.cons_prefix_cons.mpr ⟨rfl, List.nil_prefix⟩
  · intro place visited begins
    rw [← List.flatMap_append, List.mem_flatMap] at visited
    obtain ⟨⟨other, sibling⟩, beside, under⟩ := visited
    obtain ⟨deeper, -, rfl⟩ := List.mem_map.mp under
    have same : step = other := (List.cons_prefix_cons.mp begins).1
    rcases List.mem_append.mp beside with inFront | inBack
    · exact fromFront _ inFront _ List.mem_cons_self same.symm
    · exact (List.pairwise_cons.mp fromBack).1 _ inBack same

theorem isListed_of_locate?_eq_some (located : tree.locate? location = some node)
    (listed : node.isListed nulls = true) : tree.isListed nulls = true := by
  cases location with
  | nil =>
      obtain rfl := Option.some.inj located
      exact listed
  | cons step rest =>
      obtain ⟨child, found, -⟩ := locate?_cons_eq_some_iff.mp located
      exact isListed_of_mem_children (mem_children_of_at?_eq_some found)

theorem isBlock_cons (distinct : tree.everywhere hasDistinctKeys = true)
    (found : tree.at? step = some child) (listed : child.isListed nulls = true)
    {block : List Place} (deeper : Place.IsBlock rest block (child.placesWithin nulls)) :
    Place.IsBlock (step :: rest) (block.map (Place.under step)) (tree.places nulls) := by
  have membership := mem_listedChildren.mpr ⟨mem_children_of_at?_eq_some found, listed⟩
  have around := isBlock_child (everywhere_iff.mp distinct).1 membership
  have begins : [step] <+: step :: rest := List.cons_prefix_cons.mpr ⟨rfl, List.nil_prefix⟩
  exact around.trans begins (deeper.under step)

theorem isBlock_root (nulls : Bool) (tree : Tree) :
    Place.IsBlock [] ((tree.placesWithin nulls).map (Place.inside [])) (tree.placesWithin nulls) := by
  rw [Place.map_inside_nil]
  exact ⟨[], [], by simp, fun _ _ => List.nil_prefix, by simp⟩

/-- The places at and below a listed node stand together, that of the node after all below it. -/
theorem isBlock_places (distinct : tree.everywhere hasDistinctKeys = true)
    (belowRoot : location ≠ []) (located : tree.locate? location = some node)
    (listed : node.isListed nulls = true) :
    Place.IsBlock location ((node.placesWithin nulls).map (Place.inside location))
      (tree.places nulls) := by
  induction location generalizing tree with
  | nil => exact absurd rfl belowRoot
  | cons step rest inductionHypothesis =>
      obtain ⟨child, found, childLocated⟩ := locate?_cons_eq_some_iff.mp located
      have childListed := isListed_of_locate?_eq_some childLocated listed
      rw [Place.map_inside_cons]
      apply isBlock_cons distinct found childListed
      cases rest with
      | nil =>
          obtain rfl := Option.some.inj childLocated
          exact isBlock_root nulls child
      | cons next later =>
          have childDistinct := everywhere_child distinct (mem_children_of_at?_eq_some found)
          have inChild := inductionHypothesis childDistinct (List.cons_ne_nil _ _) childLocated
          exact inChild.concat (by simp)

theorem listedChildren_sublist_places (nulls : Bool) (tree : Tree) :
    ((tree.listedChildren nulls).map fun (step, child) => ([step], child)).Sublist
      (tree.places nulls) := by
  rw [places_eq_flatMap, List.map_eq_flatMap]
  apply List.Sublist.flatMap_right
  rintro ⟨step, child⟩ -
  apply List.singleton_sublist.mpr
  exact List.mem_map.mpr ⟨([], child), mem_placesWithin_iff.mpr (Or.inr ⟨rfl, rfl⟩), rfl⟩

theorem siblings_sublist_places (distinct : tree.everywhere hasDistinctKeys = true)
    (located : tree.locate? location = some node) :
    ((node.listedChildren nulls).map fun (step, child) => (location ++ [step], child)).Sublist
      (tree.places nulls) := by
  by_cases belowRoot : location = []
  · subst location
    obtain rfl := Option.some.inj located
    exact listedChildren_sublist_places nulls tree
  · by_cases listed : node.isListed nulls = true
    · have inNode := (listedChildren_sublist_places nulls node).map (Place.inside location)
      rw [List.map_map] at inNode
      have within : (node.places nulls).Sublist (node.placesWithin nulls) :=
        List.sublist_append_left _ _
      have together := isBlock_places distinct belowRoot located listed
      exact (inNode.trans (within.map _)).trans together.sublist
    · have childless : node.listedChildren nulls = [] := by
        apply List.eq_nil_iff_forall_not_mem.mpr
        rintro ⟨step, child⟩ membership
        exact listed (isListed_of_mem_children (mem_listedChildren.mp membership).1)
      rw [childless]
      exact List.nil_sublist _

/-- The order in which a listing visits a tree: every listed node below the root once, what is below
a node directly before it, and the children of a node in turn. -/
structure IsPostorder (nulls : Bool) (tree : Tree) (visited : List Place) : Prop where
  mem_iff (location : List Step) (node : Tree) :
    (location, node) ∈ visited ↔
      location ≠ [] ∧ tree.locate? location = some node ∧ node.isListed nulls = true
  once : visited.Pairwise fun one other => one.1 ≠ other.1
  isBlock (location : List Step) (node : Tree) : (location, node) ∈ visited →
    ∃ below, Place.IsBlock location (below ++ [(location, node)]) visited
  siblings (location : List Step) (container : Tree) : tree.locate? location = some container →
    ((container.listedChildren nulls).map fun (step, child) => (location ++ [step], child)).Sublist
      visited

/-- The listing is the concatenation over listed children, whatever the keys are. Its places are in
postorder. -/
theorem entries_eq_postorder (nulls : Bool) (tree : Tree) :
    tree.entries nulls = tree.postorder nulls "" ∧
    tree.paths nulls = (tree.postorder nulls "").map Prod.fst ∧
    tree.postorder nulls "" = (tree.places nulls).map Place.entry ∧
    (tree.everywhere hasDistinctKeys = true → tree.IsPostorder nulls (tree.places nulls)) := by
  have inOrder : tree.postorder nulls "" = (tree.places nulls).map Place.entry :=
    postorder_eq_map_places nulls "" tree
  have listing : tree.entries nulls = tree.postorder nulls "" := by
    rw [entries_eq_map_places, inOrder]
  refine ⟨listing, by rw [paths_eq_map_entries, listing], inOrder, fun distinct => ?_⟩
  refine ⟨fun location node => mem_places_iff distinct, pairwise_places distinct, ?_, ?_⟩
  · intro location node visited
    obtain ⟨belowRoot, located, listed⟩ := (mem_places_iff distinct).mp visited
    have together := isBlock_places distinct belowRoot located listed
    rw [placesWithin, List.map_append, List.map_singleton, Place.inside, List.append_nil] at together
    exact ⟨_, together⟩
  · intro location container located
    exact siblings_sublist_places distinct located

theorem isPostorder_of_empty_and_marked_keys :
    (object [("", .object [("a", .bool true)]), ("g", .absent),
        ("x.y", .array [none, some .null, some (.object [("]", .array [])])])]).everywhere
          hasDistinctKeys = true ∧
      (object [("", .object [("a", .bool true)]), ("g", .absent),
        ("x.y", .array [none, some .null, some (.object [("]", .array [])])])]).paths true =
          ["a", "", "x.y[1]", "x.y[2].]", "x.y[2]", "x.y"] ∧
      ∃ visited, (object [("", .object [("a", .bool true)]), ("g", .absent),
        ("x.y", .array [none, some .null, some (.object [("]", .array [])])])]).IsPostorder true
          visited := by
  have distinct : (object [("", .object [("a", .bool true)]), ("g", .absent),
      ("x.y", .array [none, some .null, some (.object [("]", .array [])])])]).everywhere
        hasDistinctKeys = true := by decide
  obtain ⟨-, -, -, ordered⟩ := entries_eq_postorder true (object [("", .object [("a", .bool true)]),
    ("g", .absent), ("x.y", .array [none, some .null, some (.object [("]", .array [])])])])
  exact ⟨distinct, by decide, _, ordered distinct⟩

end Tree

end TreePath
