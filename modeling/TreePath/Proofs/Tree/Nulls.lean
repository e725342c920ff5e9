import Mathlib.Data.List.Basic
import TreePath.Proofs.Tree.Places

set_option autoImplicit false

/-!
# Listing nulls

Whether nulls are listed decides about them and nothing else: the listing without them is the one
with them after the nulls have been taken out. Neither lists a hole or a stored `absent`.
-/

namespace TreePath.Tree

variable {nulls : Bool} {tree node : Tree} {location : List Step}

theorem isListed_false_eq (tree : Tree) :
    tree.isListed false = (!tree.isNull && tree.isListed true) := by
  cases tree <;> rfl

theorem isAbsent_eq_false_of_isListed (listed : tree.isListed nulls = true) :
    tree.isAbsent = false := by
  cases tree with
  | absent => cases listed
  | _ => rfl

theorem eq_null_of_isNull (isNull : tree.isNull = true) : tree = null := by
  cases tree with
  | null => rfl
  | _ => cases isNull

/-- The places of nodes that are not null. -/
def withoutNulls (places : List Place) : List Place :=
  places.filter fun place => !place.2.isNull

theorem withoutNulls_map_under (step : Step) (places : List Place) :
    withoutNulls (places.map (.under step)) = (withoutNulls places).map (.under step) := by
  rw [withoutNulls, withoutNulls, List.filter_map]
  rfl

theorem withoutNulls_placesWithin_of_isNull (isNull : tree.isNull = true) :
    withoutNulls (tree.placesWithin true) = [] := by
  rw [eq_null_of_isNull isNull]
  rfl

/-- Without nulls the listing goes to the same children but the null ones. -/
theorem listedChildren_false (tree : Tree) :
    tree.listedChildren false =
      (tree.listedChildren true).filter fun entry => !entry.2.isNull := by
  rw [listedChildren, listedChildren, List.filter_filter]
  refine List.filter_congr ?_
  rintro ⟨step, child⟩ -
  exact isListed_false_eq child

theorem not_isNull_of_mem_listedChildren {step : Step} {child : Tree}
    (membership : (step, child) ∈ tree.listedChildren false) : child.isNull = false := by
  rw [listedChildren_false, List.mem_filter] at membership
  simpa using membership.2

/-- What the listing without nulls visits, it visits as the listing with them does. -/
theorem places_false_eq_withoutNulls (tree : Tree) :
    tree.places false = withoutNulls (tree.places true) := by
  induction tree using induct_children with
  | node tree inductionHypothesis =>
      calc tree.places false
        _ = (tree.listedChildren false).flatMap fun entry =>
              (entry.2.placesWithin false).map (.under entry.1) := places_eq_flatMap false tree
        _ = (tree.listedChildren false).flatMap fun entry =>
              (withoutNulls (entry.2.placesWithin true)).map (.under entry.1) := by
          apply List.flatMap_congr
          rintro ⟨step, child⟩ membership
          have below := inductionHypothesis step child (mem_listedChildren.mp membership).1
          have notNull := not_isNull_of_mem_listedChildren membership
          simp [placesWithin, withoutNulls, below, notNull]
        _ = (tree.listedChildren true).flatMap fun entry =>
              (withoutNulls (entry.2.placesWithin true)).map (.under entry.1) := by
          rw [listedChildren_false]
          apply flatMap_filter_of_eq_nil
          rintro ⟨step, child⟩ dropped
          rw [withoutNulls_placesWithin_of_isNull (by simpa using dropped), List.map_nil]
        _ = withoutNulls (tree.places true) := by
          rw [places_eq_flatMap true tree, withoutNulls, List.filter_flatMap]
          apply List.flatMap_congr
          rintro ⟨step, child⟩ -
          exact (withoutNulls_map_under step (child.placesWithin true)).symm

/-- The locations of stored nulls. -/
def nullLocations (tree : Tree) : List (List Step) :=
  ((tree.places true).filter fun place => place.2.isNull).map Prod.fst

theorem mem_nullLocations_iff (distinct : tree.everywhere hasDistinctKeys = true) :
    location ∈ tree.nullLocations ↔ location ≠ [] ∧ tree.locate? location = some null := by
  rw [nullLocations, List.mem_map]
  constructor
  · rintro ⟨⟨location, node⟩, visited, rfl⟩
    obtain ⟨inPlaces, isNull⟩ := List.mem_filter.mp visited
    obtain ⟨below, located, -⟩ := (mem_places_iff distinct).mp inPlaces
    rw [← eq_null_of_isNull isNull]
    exact ⟨below, located⟩
  · rintro ⟨below, located⟩
    have visited := (@mem_places_iff true _ _ _ distinct).mpr ⟨below, located, rfl⟩
    exact ⟨(location, null), List.mem_filter.mpr ⟨visited, rfl⟩, rfl⟩

theorem nodup_nullLocations (distinct : tree.everywhere hasDistinctKeys = true) :
    tree.nullLocations.Nodup :=
  List.pairwise_map.mpr ((pairwise_places distinct).sublist List.filter_sublist)

theorem filter_isNull_entries (tree : Tree) :
    ((tree.entries true).filter fun entry => entry.2.isNull) =
      tree.nullLocations.map fun location => (render location, null) := by
  rw [entries_eq_map_places, List.filter_map, nullLocations, List.map_map]
  apply List.map_congr_left
  rintro ⟨location, node⟩ visited
  have isNull : node.isNull = true := (List.mem_filter.mp visited).2
  rw [eq_null_of_isNull isNull]
  rfl

theorem isListed_of_mem_places (visited : (location, node) ∈ tree.places nulls) :
    node.isListed nulls = true := by
  induction location generalizing tree with
  | nil => exact absurd visited nil_not_mem_places
  | cons step rest inductionHypothesis =>
      obtain ⟨child, -, listed, within⟩ := cons_mem_places_iff.mp visited
      rcases mem_placesWithin_iff.mp within with deeper | ⟨-, rfl⟩
      · exact inductionHypothesis deeper
      · exact listed

theorem hole_not_mem_places (distinct : tree.everywhere hasDistinctKeys = true) {slots : Slots}
    {index : Nat} (located : tree.locate? location = some (array slots))
    (hole : slots[index]? = some none) :
    (location ++ [.element index], node) ∉ tree.places nulls := by
  intro visited
  obtain ⟨-, found, -⟩ := (mem_places_iff distinct).mp visited
  rw [locate?_append, located, Option.bind_some, locate?, at?, element?, Slots.get?, hole] at found
  cases found

/-- The listing without nulls is the one with them after the nulls have been taken out, and what is
taken out is one entry for each stored null below the root. Neither lists an `absent` node or a
hole. -/
theorem entries_false_eq_filter_entries_true (tree : Tree) :
    tree.entries false = ((tree.entries true).filter fun entry => !entry.2.isNull) ∧
    ((tree.entries true).filter fun entry => entry.2.isNull) =
      tree.nullLocations.map (fun location => (render location, null)) ∧
    (∀ nulls, ∀ entry ∈ tree.entries nulls, entry.2.isAbsent = false) ∧
    (tree.everywhere hasDistinctKeys = true →
      tree.nullLocations.Nodup ∧
      (∀ location, location ∈ tree.nullLocations ↔
        location ≠ [] ∧ tree.locate? location = some null) ∧
      ∀ nulls, tree.entries nulls = (tree.places nulls).map Place.entry ∧
        ∀ (location : List Step) (slots : Slots) (index : Nat),
          tree.locate? location = some (array slots) → slots[index]? = some none →
            ∀ node, (location ++ [.element index], node) ∉ tree.places nulls) := by
  refine ⟨?_, filter_isNull_entries tree, ?_, fun distinct => ?_⟩
  · rw [entries_eq_map_places, entries_eq_map_places, places_false_eq_withoutNulls,
      List.filter_map]
    rfl
  · intro nulls entry listed
    rw [entries_eq_map_places] at listed
    obtain ⟨⟨location, node⟩, visited, rfl⟩ := List.mem_map.mp listed
    exact isAbsent_eq_false_of_isListed (isListed_of_mem_places visited)
  · refine ⟨nodup_nullLocations distinct, fun location => mem_nullLocations_iff distinct, ?_⟩
    intro nulls
    refine ⟨entries_eq_map_places nulls tree, ?_⟩
    intro location slots index located hole node
    exact hole_not_mem_places distinct located hole

theorem nullLocations_beside_holes_and_marked_keys :
    (object [("", .null), ("x.y", .array [none, some .null, some .absent,
        some (.object [("", .null)])])]).everywhere hasDistinctKeys = true ∧
      (object [("", .null), ("x.y", .array [none, some .null, some .absent,
        some (.object [("", .null)])])]).paths false = ["x.y[3]", "x.y"] ∧
      ([.member "x.y", .element 3, .member ""] ∈ (object [("", .null), ("x.y", .array [none,
        some .null, some .absent, some (.object [("", .null)])])]).nullLocations ↔
          [Step.member "x.y", .element 3, .member ""] ≠ [] ∧
          (object [("", .null), ("x.y", .array [none, some .null, some .absent,
            some (.object [("", .null)])])]).locate? [.member "x.y", .element 3, .member ""] =
              some null) ∧
      ∀ node, ([.member "x.y"] ++ [.element 0], node) ∉ (object [("", .null), ("x.y", .array [none,
        some .null, some .absent, some (.object [("", .null)])])]).places true := by
  have distinct : (object [("", .null), ("x.y", .array [none, some .null, some .absent,
      some (.object [("", .null)])])]).everywhere hasDistinctKeys = true := by decide
  obtain ⟨without, -, -, located⟩ := entries_false_eq_filter_entries_true (object [("", .null),
    ("x.y", .array [none, some .null, some .absent, some (.object [("", .null)])])])
  obtain ⟨-, nullsLocated, listing⟩ := located distinct
  refine ⟨distinct, ?_, nullsLocated _, ?_⟩
  · rw [paths_eq_map_entries, without]
    decide
  · exact (listing true).2 [.member "x.y"] _ 0 rfl rfl

end TreePath.Tree
