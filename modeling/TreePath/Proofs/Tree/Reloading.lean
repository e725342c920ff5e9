import Mathlib.Data.List.Perm.Basic
import TreePath.Proofs.Tree.Addressable
import TreePath.Proofs.Tree.Normalization

set_option autoImplicit false

/-!
# The listing of a tree that goes through JSON

JSON fills holes with nulls, drops members that are `absent` and sorts the others. None of this
moves a listed node to another path or brings a new one, where nulls are not listed. So the listing
of the tree that comes back is that of the tree, but for the order of members and for the floats
that are not finite, which come back as nulls.
-/

namespace TreePath.Tree

open scoped List

/-- A float is finite. -/
def hasFiniteFloat : Tree → Bool
  | float value => value.isFinite
  | _ => true

variable {tree node : Tree}

theorem isListed_normalize (tree : Tree) :
    tree.normalize.isListed false = (tree.isListed false && tree.hasFiniteFloat) := by
  cases tree with
  | float value =>
      rw [normalize]
      cases finite : value.isFinite <;> simp [isListed, hasFiniteFloat, finite]
  | _ => rfl

/-! ## The children of one node -/

/-- The children that are listed once they are normal, as they are then. -/
def lastingChildren (tree : Tree) : List (Step × Tree) :=
  ((tree.listedChildren false).filter fun entry => entry.2.hasFiniteFloat).map fun entry =>
    (entry.1, entry.2.normalize)

theorem listedChildren_normalize_object (members : Members) :
    ((object members).normalize.listedChildren false).Perm (object members).lastingChildren := by
  have sorted := List.perm_insertionSort KeysInOrder
    ((presentMembers members).map fun entry => (entry.1, entry.2.normalize))
  have lasting : (fun entry : String × Tree =>
      entry.2.normalize.isListed false && !entry.2.isAbsent) =
        fun entry => entry.2.hasFiniteFloat && entry.2.isListed false := by
    funext entry
    rw [isListed_normalize]
    cases entry.2 <;> simp [isListed, isAbsent]
  rw [normalize_object]
  refine ((sorted.map _).filter _).trans (.of_eq ?_)
  simp only [lastingChildren, listedChildren, children, presentMembers, List.filter_map,
    List.filter_filter, List.map_map]
  exact congrArg (fun check => (members.filter check).map fun entry =>
    (Step.member entry.1, entry.2.normalize)) lasting

/-- Every slot is held once the array is normal, but what fills a hole is not listed. -/
theorem listedChildren_normalize_array (slots : Slots) :
    (array slots).normalize.listedChildren false = (array slots).lastingChildren := by
  rw [normalize_array]
  simp only [lastingChildren, listedChildren, children]
  rw [List.zipIdx_map]
  simp only [List.filterMap_map, List.filter_filterMap, List.map_filterMap]
  apply List.filterMap_congr
  rintro ⟨slot, index⟩ -
  cases slot with
  | none => rfl
  | some child =>
      have listed := isListed_normalize child
      cases childListed : child.isListed false <;> cases finite : child.hasFiniteFloat <;>
        simp_all [Option.filter]

theorem listedChildren_normalize_perm (tree : Tree) :
    (tree.normalize.listedChildren false).Perm tree.lastingChildren := by
  cases tree with
  | object members => exact listedChildren_normalize_object members
  | array slots => exact .of_eq (listedChildren_normalize_array slots)
  | float value =>
      rw [normalize]
      split <;> exact .nil
  | _ => exact .nil

/-! ## All places -/

/-- Places as they are once the tree is normal, without those of floats that are not finite. -/
def reloaded (places : List Place) : List Place :=
  (places.filter fun place => place.2.hasFiniteFloat).map fun place =>
    (place.1, place.2.normalize)

theorem reloaded_map_under (step : Step) (places : List Place) :
    reloaded (places.map (.under step)) = (reloaded places).map (.under step) := by
  simp only [reloaded, List.filter_map, List.map_map]
  rfl

theorem reloaded_flatMap {Index : Type} (indices : List Index) (places : Index → List Place) :
    reloaded (indices.flatMap places) = indices.flatMap fun index => reloaded (places index) := by
  simp only [reloaded, List.filter_flatMap, List.map_flatMap]

theorem reloaded_placesWithin_of_finite (finite : tree.hasFiniteFloat = true) :
    reloaded (tree.placesWithin false) =
      reloaded (tree.places false) ++ [([], tree.normalize)] := by
  simp [reloaded, placesWithin, finite]

theorem reloaded_placesWithin_of_infinite (infinite : tree.hasFiniteFloat = false) :
    reloaded (tree.placesWithin false) = [] := by
  cases tree with
  | float value => simp [reloaded, placesWithin, places, infinite]
  | _ => cases infinite

/-- The places of a normal tree are those of the tree. -/
theorem places_normalize_perm (tree : Tree) :
    (tree.normalize.places false).Perm (reloaded (tree.places false)) := by
  induction tree using induct_children with
  | node tree inductionHypothesis =>
      have within : ∀ entry ∈ (tree.listedChildren false).filter fun entry =>
          entry.2.hasFiniteFloat,
            (entry.2.normalize.placesWithin false).map (Place.under entry.1) ~
              (reloaded (entry.2.placesWithin false)).map (Place.under entry.1) := by
        intro entry membership
        obtain ⟨listed, finite⟩ := List.mem_filter.mp membership
        have below := (mem_listedChildren.mp listed).1
        rw [reloaded_placesWithin_of_finite finite]
        exact ((inductionHypothesis entry.1 entry.2 below).append_right _).map _
      calc tree.normalize.places false
        _ = (tree.normalize.listedChildren false).flatMap fun entry =>
              (entry.2.placesWithin false).map (.under entry.1) :=
          places_eq_flatMap false tree.normalize
        _ ~ tree.lastingChildren.flatMap fun entry =>
              (entry.2.placesWithin false).map (.under entry.1) :=
          (listedChildren_normalize_perm tree).flatMap_right _
        _ = ((tree.listedChildren false).filter fun entry => entry.2.hasFiniteFloat).flatMap
              fun entry => (entry.2.normalize.placesWithin false).map (.under entry.1) :=
          List.flatMap_map _ _ _
        _ ~ ((tree.listedChildren false).filter fun entry => entry.2.hasFiniteFloat).flatMap
              fun entry => (reloaded (entry.2.placesWithin false)).map (.under entry.1) :=
          List.Perm.flatMap_left _ within
        _ = (tree.listedChildren false).flatMap fun entry =>
              (reloaded (entry.2.placesWithin false)).map (.under entry.1) :=
          flatMap_filter_of_eq_nil fun entry infinite => by
            rw [reloaded_placesWithin_of_infinite infinite, List.map_nil]
        _ = reloaded (tree.places false) := by
          rw [places_eq_flatMap, reloaded_flatMap]
          simp only [reloaded_map_under]

/-- The listing of the tree that comes back from JSON: each entry but those of infinite floats and
NaNs, at its path, with what its node has become. If all floats are finite, the paths are the
same. -/
theorem entries_ofJson_toJson_perm (distinct : tree.everywhere hasDistinctKeys = true) :
    ((ofJson tree.toJson).entries false).Perm
        (((tree.entries false).filter fun entry => entry.2.hasFiniteFloat).map fun entry =>
          (entry.1, ofJson entry.2.toJson)) ∧
      (tree.everywhere hasFiniteFloat = true →
        ((ofJson tree.toJson).paths false).Perm (tree.paths false)) := by
  have node {place : Place} (visited : place ∈ tree.places false) :
      tree.locate? place.1 = some place.2 := ((mem_places_iff distinct).mp visited).2.1
  have converted : (reloaded (tree.places false)).map Place.entry =
      ((tree.entries false).filter fun entry => entry.2.hasFiniteFloat).map fun entry =>
        (entry.1, ofJson entry.2.toJson) := by
    rw [entries_eq_map_places, reloaded, List.filter_map, List.map_map, List.map_map]
    apply List.map_congr_left
    intro place kept
    have visited := (List.mem_filter.mp kept).1
    have below := everywhere_of_locate? distinct (node visited)
    simp only [Function.comp_apply, Place.entry, ofJson_toJson_of_distinct below]
  have entries : ((ofJson tree.toJson).entries false).Perm
      (((tree.entries false).filter fun entry => entry.2.hasFiniteFloat).map fun entry =>
        (entry.1, ofJson entry.2.toJson)) := by
    rw [← converted, entries_eq_map_places, ofJson_toJson_of_distinct distinct]
    exact (places_normalize_perm tree).map Place.entry
  refine ⟨entries, fun finite => ?_⟩
  have all : (tree.entries false).filter (fun entry => entry.2.hasFiniteFloat) =
      tree.entries false := by
    apply List.filter_eq_self.mpr
    intro entry listed
    rw [entries_eq_map_places] at listed
    obtain ⟨place, visited, rfl⟩ := List.mem_map.mp listed
    exact (everywhere_iff.mp (everywhere_of_locate? finite (node visited))).1
  rw [all] at entries
  have paths := entries.map Prod.fst
  rw [List.map_map] at paths
  rw [paths_eq_map_entries, paths_eq_map_entries]
  exact paths

theorem entries_ofJson_toJson_of_holes_and_infinity :
    (object [("b.", array [none, some (float ⟨0x7ff0000000000000⟩), some (int 7)]),
        ("gone", absent), ("a", object [])]).everywhere hasDistinctKeys = true ∧
      ((object [("a", object []), ("b.", array [some null, some null, some (int 7)])]).entries
        false).Perm
          [("b.[2]", int 7), ("b.", array [some null, some null, some (int 7)]),
            ("a", object [])] ∧
      (object [("z", absent), ("", array [some absent])]).everywhere hasFiniteFloat = true ∧
      ((ofJson (object [("z", absent), ("", array [some absent])]).toJson).paths false).Perm
        [""] := by
  have distinct : (object [("b.", array [none, some (float ⟨0x7ff0000000000000⟩), some (int 7)]),
      ("gone", absent), ("a", object [])]).everywhere hasDistinctKeys = true := by decide
  obtain ⟨entries, -⟩ := entries_ofJson_toJson_perm distinct
  obtain ⟨-, paths⟩ := @entries_ofJson_toJson_perm
    (object [("z", absent), ("", array [some absent])]) (by decide)
  exact ⟨distinct, entries, by decide, paths (by decide)⟩

end TreePath.Tree
