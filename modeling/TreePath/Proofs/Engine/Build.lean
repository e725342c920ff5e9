import TreePath.Proofs.Engine.Write
import TreePath.Proofs.Tree.Addressing
import TreePath.Proofs.Tree.Pruning

set_option autoImplicit false

/-!
# Building a tree from its own entries

The entries of a tree with plain keys store the places they were taken from. Building from all of
them gives the tree back, but for what is not listed at the top: everything further below returns
with the container around it. Building from those of the leaves gives the pruned tree.
-/

namespace TreePath.Engine

open TreePath.Tree

variable {engine : Engine} {members : Members} {tree built : Tree} {places : List Place}

/-- Storing at a rendered location is assigning at that location. -/
theorem write_render_of_assign {location : List Step} {node written : Tree}
    (nonempty : location ≠ [])
    (writable : ∀ step ∈ location, step.isWritable engine.config.maxArrayIndex = true)
    (assigned : assign node location tree = .ok written) :
    engine.write (render location) node tree = .done written := by
  have bounded : engine.config.maxArrayIndex < Path.indexBound :=
    Nat.lt_of_le_of_lt engine.valid.2 (by decide)
  obtain ⟨plan, planned, steps⟩ := Plan.exists_ofPath_render bounded nonempty writable
  rw [write_eq_assign planned, steps, assigned]

/-- Storing the entries of places is assigning the places. -/
theorem writeAll_entries (nonempty : ∀ place ∈ places, place.1 ≠ [])
    (writable : ∀ place ∈ places, ∀ step ∈ place.1,
      step.isWritable engine.config.maxArrayIndex = true)
    (assembled : assignAll places tree = .ok built) :
    engine.writeAll (places.map Place.entry) tree = .ok built := by
  induction places generalizing tree with
  | nil =>
      obtain rfl := Except.ok.inj assembled
      rfl
  | cons place rest inductionHypothesis =>
      obtain ⟨location, node⟩ := place
      obtain ⟨placeNonempty, restNonempty⟩ := List.forall_mem_cons.mp nonempty
      obtain ⟨placeWritable, restWritable⟩ := List.forall_mem_cons.mp writable
      rw [assignAll] at assembled
      cases assigned : assign node location tree with
      | error obstacle => simp [assigned] at assembled
      | ok written =>
          rw [assigned] at assembled
          have stored := write_render_of_assign placeNonempty placeWritable assigned
          simp only [List.map_cons, Place.entry, writeAll, stored, Edit.toExcept_done]
          exact inductionHypothesis restNonempty restWritable assembled

/-- Some places of a tree with plain keys, as far as a path can store at them, are stored as their
entries. -/
theorem build_entries_of_assignAll (distinct : tree.everywhere hasDistinctKeys = true)
    (plain : tree.everywhere hasPlainKeys = true)
    (visited : ∀ place ∈ places, place ∈ tree.places engine.config.enumerateNulls)
    (within : ∀ place ∈ places, place.isWithin engine.config.maxArrayIndex = true)
    (assembled : assignAll places ContainerKind.object.empty = .ok built) :
    engine.build (places.map Place.entry) = .ok built := by
  refine writeAll_entries ?_ ?_ assembled
  · rintro ⟨location, node⟩ membership
    exact ((mem_places_iff distinct).mp (visited _ membership)).1
  · rintro ⟨location, node⟩ membership step taken
    obtain ⟨-, located, -⟩ := (mem_places_iff distinct).mp (visited _ membership)
    cases step with
    | member key => exact isPlainKey_of_locate? plain located taken
    | element index => exact decide_eq_true (Place.index_le_of_isWithin (within _ membership) taken)

/-- Building from the entries of an object gives back the object without the members that are not
listed. The members that are keep their order, and everything below them is as it was. -/
theorem build_entries_eq_filter_isListed
    (distinct : (object members).everywhere hasDistinctKeys = true)
    (plain : (object members).everywhere hasPlainKeys = true)
    (within : ∀ place ∈ (object members).places engine.config.enumerateNulls,
      place.isWithin engine.config.maxArrayIndex = true) :
    engine.build (engine.entries (object members)) =
        .ok (object (members.filter fun (_, child) =>
          child.isListed engine.config.enumerateNulls)) ∧
      ((∀ entry ∈ members, entry.2.isListed engine.config.enumerateNulls = true) →
        engine.build (engine.entries (object members)) = .ok (object members)) := by
  have kept : ((members.filter fun (_, child) =>
      child.isListed engine.config.enumerateNulls).map Prod.fst).Nodup :=
    (hasDistinctKeys_object_iff.mp (everywhere_iff.mp distinct).1).sublist
      (List.filter_sublist.map Prod.fst)
  have returned : engine.build (engine.entries (object members)) =
      .ok (object (members.filter fun (_, child) =>
        child.isListed engine.config.enumerateNulls)) := by
    rw [entries, entries_eq_map_places]
    refine build_entries_of_assignAll distinct plain (fun _ visited => visited) within ?_
    rw [assignAll_places distinct rfl, listedChildren_object]
    exact congrArg Except.ok (putAll_children_object kept)
  refine ⟨returned, fun allListed => ?_⟩
  rw [returned, List.filter_eq_self.mpr allListed]

theorem build_entries_with_unlisted_inside :
    (object [("n", .null),
        ("l", .array [some .null, some (.object []), some .absent, none])]).everywhere
          hasDistinctKeys = true ∧
      (object [("n", .null),
        ("l", .array [some .null, some (.object []), some .absent, none])]).everywhere
          hasPlainKeys = true ∧
      (∀ place ∈ (object [("n", .null),
          ("l", .array [some .null, some (.object []), some .absent, none])]).places
            standard.config.enumerateNulls,
        place.isWithin standard.config.maxArrayIndex = true) ∧
      standard.build (standard.entries (object [("n", .null),
          ("l", .array [some .null, some (.object []), some .absent, none])])) =
        .ok (object [("l", .array [some .null, some (.object []), some .absent, none])]) ∧
      (∀ entry ∈ [("l", Tree.array [none])],
        entry.2.isListed standard.config.enumerateNulls = true) ∧
      standard.build (standard.entries (object [("l", .array [none])])) =
        .ok (object [("l", .array [none])]) := by
  refine ⟨by decide, by decide, by decide, ?_, by decide, ?_⟩
  · exact (build_entries_eq_filter_isListed (by decide) (by decide) (by decide)).1
  · exact (build_entries_eq_filter_isListed (by decide) (by decide) (by decide)).2 (by decide)

/-- The entries of leaves are those of the places of leaves. -/
theorem leafEntries_entries (container : tree.isContainer = true) :
    leafEntries (engine.entries tree) =
      (tree.leafPlaces engine.config.enumerateNulls).map Place.entry := by
  rw [leafEntries, entries, entries_eq_map_places, List.filter_map, leafPlaces, placesWithin,
    List.filter_append]
  simp [container]
  rfl

/-- Building from the entries of the leaves of an object gives the pruned object, which is the
object itself if pruning takes nothing away, and only then. -/
theorem build_leafEntries_eq_prune (distinct : (object members).everywhere hasDistinctKeys = true)
    (plain : (object members).everywhere hasPlainKeys = true)
    (within : ∀ place ∈ (object members).places engine.config.enumerateNulls,
      place.2.isContainer = false → place.isWithin engine.config.maxArrayIndex = true) :
    engine.build (leafEntries (engine.entries (object members))) =
        .ok ((object members).prune engine.config.enumerateNulls) ∧
      (engine.build (leafEntries (engine.entries (object members))) = .ok (object members) ↔
        (object members).prune engine.config.enumerateNulls = object members) := by
  have below (place : Place)
      (visited : place ∈ (object members).leafPlaces engine.config.enumerateNulls) :=
    mem_places_of_mem_leafPlaces rfl visited
  have returned : engine.build (leafEntries (engine.entries (object members))) =
      .ok ((object members).prune engine.config.enumerateNulls) := by
    rw [leafEntries_entries rfl]
    refine build_entries_of_assignAll distinct plain (fun place visited => (below place visited).1)
      (fun place visited => within place (below place visited).1 (below place visited).2) ?_
    exact assignAll_leafPlaces_of_accepts distinct rfl
  refine ⟨returned, ?_⟩
  rw [returned, Except.ok.injEq]

theorem build_leafEntries_of_holes_and_barren_containers :
    (object [("o", .object [("n", .null)]),
        ("l", .array [some .null, some (.bool true), none])]).everywhere
          hasDistinctKeys = true ∧
      (object [("o", .object [("n", .null)]),
        ("l", .array [some .null, some (.bool true), none])]).everywhere
          hasPlainKeys = true ∧
      (∀ place ∈ (object [("o", .object [("n", .null)]),
          ("l", .array [some .null, some (.bool true), none])]).places
            standard.config.enumerateNulls,
        place.2.isContainer = false → place.isWithin standard.config.maxArrayIndex = true) ∧
      standard.build (leafEntries (standard.entries (object [("o", .object [("n", .null)]),
          ("l", .array [some .null, some (.bool true), none])]))) =
        .ok (object [("l", .array [none, some (.bool true)])]) ∧
      standard.build (leafEntries (standard.entries (object [("l", .array [none])]))) ≠
        .ok (object [("l", .array [none])]) := by
  refine ⟨by decide, by decide, by decide, ?_, ?_⟩
  · exact (build_leafEntries_eq_prune (by decide) (by decide) (by decide)).1
  · intro returned
    have same := (build_leafEntries_eq_prune (by decide) (by decide) (by decide)).2.mp returned
    exact absurd (Tree.object.inj same) (List.cons_ne_nil _ _).symm

end TreePath.Engine
