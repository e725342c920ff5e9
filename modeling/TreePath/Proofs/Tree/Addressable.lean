import TreePath.Proofs.Tree.Locating
import TreePath.Proofs.Tree.Stability

set_option autoImplicit false

/-!
# Trees all of whose listed paths lead back

In a tree with distinct and plain keys, and with slots that can be counted, every location can be
written as a path, which leads back to it. The listed paths of such a tree are the paths of its
listed locations, each once. Storing in such a tree gives such a tree, and what it lists then is
what was stored and what is not below that.
-/

namespace TreePath.Tree

open TreePath.Path

/-- The keys of objects are distinct and plain, and the slots of arrays countable. -/
structure IsAddressable (tree : Tree) : Prop where
  distinct : tree.everywhere hasDistinctKeys = true
  countable : tree.everywhere hasCountableSlots = true
  plain : tree.everywhere hasPlainKeys = true

/-- A listed node is at a location below the root. -/
def Lists (nulls : Bool) (tree : Tree) (location : List Step) : Prop :=
  location ≠ [] ∧ ∃ node, tree.locate? location = some node ∧ node.isListed nulls = true

variable {nulls : Bool} {value tree other written node : Tree} {location steps : List Step}

/-- The locations of listed nodes, in order. -/
def listedLocations (nulls : Bool) (tree : Tree) : List (List Step) :=
  (tree.places nulls).map Prod.fst

theorem mem_listedLocations_iff (distinct : tree.everywhere hasDistinctKeys = true) :
    location ∈ tree.listedLocations nulls ↔ tree.Lists nulls location := by
  rw [listedLocations, List.mem_map]
  constructor
  · rintro ⟨⟨location, node⟩, visited, rfl⟩
    obtain ⟨below, located, listed⟩ := (mem_places_iff distinct).mp visited
    exact ⟨below, node, located, listed⟩
  · rintro ⟨below, node, located, listed⟩
    exact ⟨(location, node), (mem_places_iff distinct).mpr ⟨below, located, listed⟩, rfl⟩

theorem nodup_listedLocations (distinct : tree.everywhere hasDistinctKeys = true) :
    (tree.listedLocations nulls).Nodup :=
  List.pairwise_map.mpr (pairwise_places distinct)

theorem paths_eq_map_render (nulls : Bool) (tree : Tree) :
    tree.paths nulls = (tree.listedLocations nulls).map render := by
  rw [paths_eq_map_entries, entries_eq_map_places, listedLocations, List.map_map, List.map_map]
  rfl

/-- Trees that list the same locations have the same paths, each as often. -/
theorem paths_perm_of_lists_iff (distinct : tree.everywhere hasDistinctKeys = true)
    (otherDistinct : other.everywhere hasDistinctKeys = true)
    (alike : ∀ location, tree.Lists nulls location ↔ other.Lists nulls location) :
    (tree.paths nulls).Perm (other.paths nulls) := by
  have same : (tree.listedLocations nulls).Perm (other.listedLocations nulls) := by
    apply (List.perm_ext_iff_of_nodup (nodup_listedLocations distinct)
      (nodup_listedLocations otherDistinct)).mpr
    intro location
    rw [mem_listedLocations_iff distinct, mem_listedLocations_iff otherDistinct]
    exact alike location
  rw [paths_eq_map_render, paths_eq_map_render]
  exact same.map render

namespace IsAddressable

theorem isWritable (addressable : tree.IsAddressable)
    (located : tree.locate? location = some node) :
    ∀ step ∈ location, step.isWritable (indexBound - 1) = true := by
  apply isWritable_of_locate? addressable.countable located
  intro key taken
  exact isPlainKey_of_locate? addressable.plain located taken

theorem arrival?_render (addressable : tree.IsAddressable)
    (located : tree.locate? location = some node) :
    tree.arrival? (tokens (render location)) = some location :=
  arrival?_tokens_render located (addressable.isWritable located)

theorem read?_render (addressable : tree.IsAddressable)
    (located : tree.locate? location = some node) : tree.read? (render location) = some node := by
  rw [read?, follow?_eq_bind_arrival?, addressable.arrival?_render located]
  exact located

theorem mem_paths_iff (addressable : tree.IsAddressable) {path : String} :
    path ∈ tree.paths nulls ↔ ∃ location, tree.Lists nulls location ∧ path = render location := by
  rw [paths_eq_map_render, List.mem_map]
  simp only [mem_listedLocations_iff addressable.distinct, eq_comm]

theorem nodup_paths (addressable : tree.IsAddressable) : (tree.paths nulls).Nodup := by
  rw [paths_eq_map_render]
  apply List.pairwise_map.mpr
  refine List.Pairwise.imp_of_mem ?_ (nodup_listedLocations addressable.distinct)
  intro location other visited otherVisited differs same
  obtain ⟨below, node, located, -⟩ :=
    (mem_listedLocations_iff addressable.distinct).mp visited
  obtain ⟨otherBelow, otherNode, otherLocated, -⟩ :=
    (mem_listedLocations_iff addressable.distinct).mp otherVisited
  exact differs (render_injective (by decide) below otherBelow (addressable.isWritable located)
    (addressable.isWritable otherLocated) same)

/-- The path of a location tells whether it is at or below another one. -/
theorem not_prefix_iff (addressable : tree.IsAddressable)
    (located : tree.locate? location = some node) (below : location ≠ []) (nonempty : steps ≠ [])
    (writable : ∀ step ∈ steps, step.isWritable (indexBound - 1) = true) :
    ¬ steps <+: location ↔
      render location ≠ render steps ∧
        ∀ deeper, deeper ≠ [] →
          tree.arrival? (tokens (render location)) ≠ some (steps ++ deeper) := by
  rw [addressable.arrival?_render located]
  constructor
  · intro notBelow
    refine ⟨?_, ?_⟩
    · intro same
      have atTarget := render_injective (by decide) below nonempty (addressable.isWritable located)
        writable same
      exact notBelow (atTarget ▸ List.prefix_rfl)
    · intro deeper _ arrived
      exact notBelow ⟨deeper, (Option.some.inj arrived).symm⟩
  · rintro ⟨differs, notBelow⟩ ⟨deeper, rfl⟩
    by_cases atTarget : deeper = []
    · rw [atTarget, List.append_nil] at differs
      exact differs rfl
    · exact notBelow deeper atTarget rfl

theorem of_assign (addressable : tree.IsAddressable) (valueAddressable : value.IsAddressable)
    (fits : ∀ step ∈ location, step.Fits)
    (writable : ∀ step ∈ location, step.isWritable (indexBound - 1) = true)
    (assigned : assign value location tree = .ok written) : written.IsAddressable where
  distinct := (@isStable_hasDistinctKeys fun _ => True).everywhere_assign (fun _ _ => trivial)
    valueAddressable.distinct addressable.distinct assigned
  countable := isStable_hasCountableSlots.everywhere_assign fits valueAddressable.countable
    addressable.countable assigned
  plain := isStable_hasPlainKeys.everywhere_assign writable valueAddressable.plain
    addressable.plain assigned

end IsAddressable

/-! ## What is listed after storing -/

theorem lists_assign_append_iff (assigned : assign value steps tree = .ok written)
    (nonempty : steps ≠ []) {rest : List Step} :
    written.Lists nulls (steps ++ rest) ↔
      (rest = [] ∧ value.isListed nulls = true) ∨ value.Lists nulls rest := by
  rw [Lists, locate?_assign_append assigned, Lists]
  cases rest with
  | nil => simp [nonempty, locate?]
  | cons step later => simp

theorem lists_assign_of_append (assigned : assign value steps tree = .ok written)
    {later : List Step} (below : location ≠ []) (further : later ≠ [])
    (split : steps = location ++ later) : written.Lists nulls location := by
  obtain ⟨next, others, rfl⟩ := List.exists_cons_of_ne_nil further
  rw [split] at assigned
  obtain ⟨node, located, accepted⟩ := exists_locate?_assign_eq_container assigned
  exact ⟨below, node, located, isListed_of_accepts accepted⟩

/-- What is listed after storing: what was and is not at the location or below, the containers on
the way, the value, and what is listed in it. -/
theorem lists_assign_iff (assigned : assign value steps tree = .ok written)
    (nonempty : steps ≠ []) :
    written.Lists nulls location ↔
      (tree.Lists nulls location ∧ ¬ steps <+: location) ∨
        (location ≠ [] ∧ ∃ later, later ≠ [] ∧ steps = location ++ later) ∨
        (location = steps ∧ value.isListed nulls = true) ∨
        ∃ rest, value.Lists nulls rest ∧ location = steps ++ rest := by
  constructor
  · intro listed
    by_cases below : steps <+: location
    · obtain ⟨rest, rfl⟩ := below
      rcases (lists_assign_append_iff assigned nonempty).mp listed with ⟨rfl, valueListed⟩ | inside
      · exact Or.inr (Or.inr (Or.inl ⟨List.append_nil steps, valueListed⟩))
      · exact Or.inr (Or.inr (Or.inr ⟨rest, inside, rfl⟩))
    · by_cases above : location <+: steps
      · obtain ⟨later, rfl⟩ := above
        refine Or.inr (Or.inl ⟨listed.1, later, ?_, rfl⟩)
        rintro rfl
        simp at below
      · refine Or.inl ⟨?_, below⟩
        rw [Lists, ← locate?_assign_beside below above assigned]
        exact listed
  · rintro (⟨listed, notBelow⟩ | ⟨below, later, further, split⟩ | ⟨rfl, listed⟩ |
      ⟨rest, inside, rfl⟩)
    · by_cases above : location <+: steps
      · obtain ⟨later, rfl⟩ := above
        refine lists_assign_of_append assigned listed.1 ?_ rfl
        rintro rfl
        simp at notBelow
      · rw [Lists, locate?_assign_beside notBelow above assigned]
        exact listed
    · exact lists_assign_of_append assigned below further split
    · rw [← List.append_nil location]
      exact (lists_assign_append_iff assigned nonempty).mpr (Or.inl ⟨rfl, listed⟩)
    · exact (lists_assign_append_iff assigned nonempty).mpr (Or.inr inside)

end TreePath.Tree
