import TreePath.Proofs.Tree.Children
import TreePath.Proofs.Tree.Walking

set_option autoImplicit false

/-!
# The places that a listing visits

A place is a location with the node there. `places` lists those that have an entry, in order, and
an entry is a place with its location written as a path. In a tree whose keys are distinct the
places are exactly the locations of listed nodes below the root, each once.
-/

namespace TreePath

/-- A location in a tree and the node there. -/
abbrev Place := List Step × Tree

namespace Place

/-- A place of a child, as a place of its container. -/
def under (step : Step) (place : Place) : Place :=
  (step :: place.1, place.2)

/-- The place with its location written as a path. -/
def entry (place : Place) : Entry :=
  (render place.1, place.2)

/-- Whether the location has no index above `limit`. -/
def isWithin (limit : Nat) (place : Place) : Bool :=
  place.1.all fun
    | .member _ => true
    | .element index => index ≤ limit

theorem index_le_of_isWithin {limit index : Nat} {place : Place}
    (within : place.isWithin limit = true) (taken : .element index ∈ place.1) : index ≤ limit :=
  of_decide_eq_true (List.all_eq_true.mp within (.element index) taken)

end Place

namespace Tree

mutual

/-- The places of the listed nodes below the root, those below a child before the child. -/
def places (nulls : Bool) : Tree → List Place
  | object members => placesOfMembers nulls members
  | array slots => placesOfSlots nulls 0 slots
  | _ => []
termination_by structural tree => tree

def placesOfMembers (nulls : Bool) : List (String × Tree) → List Place
  | [] => []
  | (key, child) :: rest =>
      if child.isListed nulls then
        (places nulls child ++ [([], child)]).map (.under (.member key)) ++
          placesOfMembers nulls rest
      else
        placesOfMembers nulls rest
termination_by structural members => members

def placesOfSlots (nulls : Bool) (index : Nat) : List (Option Tree) → List Place
  | [] => []
  | none :: rest => placesOfSlots nulls (index + 1) rest
  | some child :: rest =>
      if child.isListed nulls then
        (places nulls child ++ [([], child)]).map (.under (.element index)) ++
          placesOfSlots nulls (index + 1) rest
      else
        placesOfSlots nulls (index + 1) rest
termination_by structural slots => slots

end

/-- The places of a tree, its root last. -/
def placesWithin (nulls : Bool) (tree : Tree) : List Place :=
  tree.places nulls ++ [([], tree)]

def listedChildren (nulls : Bool) (tree : Tree) : List (Step × Tree) :=
  tree.children.filter fun (_, child) => child.isListed nulls

variable {nulls : Bool}

theorem mem_listedChildren {tree child : Tree} {step : Step} :
    (step, child) ∈ tree.listedChildren nulls ↔
      (step, child) ∈ tree.children ∧ child.isListed nulls = true :=
  List.mem_filter

theorem listedChildren_object (members : Members) :
    (object members).listedChildren nulls =
      (object (members.filter fun (_, child) => child.isListed nulls)).children := by
  simp only [listedChildren, children, List.filter_map]
  rfl

/-- Where an index has nothing, it may be left out. -/
theorem flatMap_filter_of_eq_nil {Index Value : Type} {indices : List Index} {kept : Index → Bool}
    {values : Index → List Value} (nothing : ∀ index, kept index = false → values index = []) :
    (indices.filter kept).flatMap values = indices.flatMap values := by
  induction indices with
  | nil => rfl
  | cons index rest inductionHypothesis =>
      cases keeps : kept index with
      | true => simp [keeps, inductionHypothesis]
      | false => simp [keeps, inductionHypothesis, nothing index keeps]

/-- Objects and arrays visit the places of their listed children in turn. -/
theorem places_eq_flatMap (nulls : Bool) (tree : Tree) :
    tree.places nulls = (tree.listedChildren nulls).flatMap fun (step, child) =>
      (child.placesWithin nulls).map (.under step) := by
  cases tree with
  | object members =>
      simp only [places, listedChildren, children]
      induction members with
      | nil => rfl
      | cons entry rest restHypothesis =>
          obtain ⟨key, child⟩ := entry
          simp only [placesOfMembers, restHypothesis, List.map_cons, List.filter_cons]
          split <;> rfl
  | array slots =>
      simp only [places, listedChildren, children]
      generalize 0 = index
      induction slots generalizing index with
      | nil => rfl
      | cons slot rest restHypothesis =>
          cases slot with
          | none =>
              simp only [placesOfSlots, restHypothesis, List.zipIdx_cons]
              rfl
          | some child =>
              simp only [placesOfSlots, restHypothesis, List.zipIdx_cons, List.filterMap_cons,
                Option.map_some, List.filter_cons]
              split <;> rfl
  | _ => rfl

/-! ## Entries are places -/

theorem collect_eq_foldl (nulls : Bool) (tree : Tree) (path : String) (found : List Entry) :
    tree.collect nulls path found = (tree.listedChildren nulls).foldl (fun found (step, child) =>
      (step.extend path, child) :: child.collect nulls (step.extend path) found) found := by
  cases tree with
  | object members =>
      simp only [collect, listedChildren, children]
      induction members generalizing found with
      | nil => rfl
      | cons entry rest restHypothesis =>
          obtain ⟨key, child⟩ := entry
          simp only [collectMembers, List.map_cons, List.filter_cons]
          split
          · rw [restHypothesis]
            rfl
          · rw [restHypothesis]
  | array slots =>
      simp only [collect, listedChildren, children]
      generalize 0 = index
      induction slots generalizing index found with
      | nil => rfl
      | cons slot rest restHypothesis =>
          cases slot with
          | none =>
              rw [collectSlots, restHypothesis, List.zipIdx_cons]
              rfl
          | some child =>
              simp only [collectSlots, List.zipIdx_cons, List.filterMap_cons, Option.map_some,
                List.filter_cons]
              split
              · rw [restHypothesis]
                rfl
              · rw [restHypothesis]
  | _ => rfl

/-- Below the node at a path the listing finds the places there, with their paths. -/
theorem collect_eq_map_places (nulls : Bool) (tree : Tree) (path : String) (found : List Entry) :
    tree.collect nulls path found = ((tree.places nulls).map fun (location, node) =>
      (location.foldl Step.extend path, node)).reverse ++ found := by
  induction tree using induct_children generalizing path found with
  | node tree inductionHypothesis =>
      rw [collect_eq_foldl, places_eq_flatMap]
      have below : ∀ entry ∈ tree.listedChildren nulls, entry ∈ tree.children :=
        fun entry membership => (mem_listedChildren.mp membership).1
      generalize tree.listedChildren nulls = listed at below ⊢
      -- Inside the induction on the tree, the children are taken in turn.
      induction listed generalizing found with
      | nil => rfl
      | cons entry rest restHypothesis =>
          obtain ⟨step, child⟩ := entry
          obtain ⟨childBelow, restBelow⟩ := List.forall_mem_cons.mp below
          rw [List.foldl_cons, restHypothesis _ restBelow]
          simp [inductionHypothesis step child childBelow, placesWithin, Place.under,
            Function.comp_def]

/-- The listing visits the places of a tree in turn. -/
theorem entries_eq_map_places (nulls : Bool) (tree : Tree) :
    tree.entries nulls = (tree.places nulls).map Place.entry := by
  rw [entries_eq_reverse_collect, collect_eq_map_places, List.append_nil, List.reverse_reverse]
  rfl

/-! ## Which places there are -/

variable {tree node : Tree} {location : List Step}

/-- Containers are listed in any case. -/
theorem isListed_of_accepts {kind : ContainerKind} (accepted : kind.accepts tree = true) :
    tree.isListed nulls = true := by
  cases tree <;> cases kind <;> first | rfl | cases accepted

theorem isListed_of_mem_children {tree child : Tree} {step : Step}
    (membership : (step, child) ∈ tree.children) : tree.isListed nulls = true :=
  isListed_of_accepts (accepts_of_mem_children membership)

theorem nil_not_mem_places : ([], node) ∉ tree.places nulls := by
  rw [places_eq_flatMap]
  simp [Place.under]

theorem cons_mem_places_iff {step : Step} {rest : List Step} :
    (step :: rest, node) ∈ tree.places nulls ↔
      ∃ child, (step, child) ∈ tree.children ∧ child.isListed nulls = true ∧
        (rest, node) ∈ child.placesWithin nulls := by
  rw [places_eq_flatMap, List.mem_flatMap]
  simp only [listedChildren, List.mem_filter, List.mem_map, Place.under, Prod.exists, Prod.mk.injEq,
    List.cons.injEq]
  constructor
  · rintro ⟨first, child, ⟨membership, listed⟩, location, other, within, ⟨rfl, rfl⟩, rfl⟩
    exact ⟨child, membership, listed, within⟩
  · rintro ⟨child, membership, listed, within⟩
    exact ⟨step, child, ⟨membership, listed⟩, rest, node, within, ⟨rfl, rfl⟩, rfl⟩

theorem mem_placesWithin_iff :
    (location, node) ∈ tree.placesWithin nulls ↔
      (location, node) ∈ tree.places nulls ∨ location = [] ∧ node = tree := by
  simp [placesWithin]

/-- The places below the root are the locations of listed nodes: what is above them is listed,
as it has children. -/
theorem mem_places_iff (distinct : tree.everywhere hasDistinctKeys = true) :
    (location, node) ∈ tree.places nulls ↔
      location ≠ [] ∧ tree.locate? location = some node ∧ node.isListed nulls = true := by
  induction location generalizing tree with
  | nil => simp [nil_not_mem_places]
  | cons step rest inductionHypothesis =>
      rw [cons_mem_places_iff, locate?]
      have found (child : Tree) := @at?_eq_some_iff_mem_children tree child step
        (everywhere_iff.mp distinct).1
      constructor
      · rintro ⟨child, membership, listed, within⟩
        rw [(found child).mpr membership]
        refine ⟨List.cons_ne_nil step rest, ?_⟩
        rcases mem_placesWithin_iff.mp within with deeper | ⟨rfl, rfl⟩
        · exact ((inductionHypothesis (everywhere_child distinct membership)).mp deeper).2
        · exact ⟨rfl, listed⟩
      · rintro ⟨-, located, listed⟩
        cases reached : tree.at? step with
        | none => simp [reached] at located
        | some child =>
            rw [reached] at located
            have membership := (found child).mp reached
            cases rest with
            | nil =>
                obtain rfl := Option.some.inj located
                exact ⟨child, membership, listed, mem_placesWithin_iff.mpr (Or.inr ⟨rfl, rfl⟩)⟩
            | cons next later =>
                have deeper := (inductionHypothesis (everywhere_child distinct membership)).mpr
                  ⟨List.cons_ne_nil next later, located, listed⟩
                obtain ⟨grandchild, below, -⟩ := cons_mem_places_iff.mp deeper
                exact ⟨child, membership, isListed_of_mem_children below,
                  mem_placesWithin_iff.mpr (Or.inl deeper)⟩

theorem pairwise_steps_listedChildren (nulls : Bool) (distinct : tree.hasDistinctKeys = true) :
    (tree.listedChildren nulls).Pairwise fun one other => one.1 ≠ other.1 :=
  (pairwise_steps_children distinct).sublist List.filter_sublist

/-- No location is visited twice. -/
theorem pairwise_places (distinct : tree.everywhere hasDistinctKeys = true) :
    (tree.places nulls).Pairwise fun one other => one.1 ≠ other.1 := by
  induction tree using induct_children with
  | node tree inductionHypothesis =>
      rw [places_eq_flatMap, List.pairwise_flatMap]
      constructor
      · rintro ⟨step, child⟩ membership
        have below := (mem_listedChildren.mp membership).1
        have deeper := inductionHypothesis step child below (everywhere_child distinct below)
        have within : (child.placesWithin nulls).Pairwise fun one other => one.1 ≠ other.1 := by
          refine List.pairwise_append.mpr ⟨deeper, List.pairwise_singleton _ _, ?_⟩
          rintro ⟨location, node⟩ visited root isRoot rfl
          obtain rfl := List.mem_singleton.mp isRoot
          exact nil_not_mem_places visited
        exact List.pairwise_map.mpr (within.imp fun differs same => differs (List.cons.inj same).2)
      · have steps := pairwise_steps_listedChildren nulls (everywhere_iff.mp distinct).1
        refine steps.imp fun {one other} differs => ?_
        intro place visited otherPlace otherVisited same
        obtain ⟨deeper, -, rfl⟩ := List.mem_map.mp visited
        obtain ⟨otherDeeper, -, rfl⟩ := List.mem_map.mp otherVisited
        exact differs (List.cons.inj same).1

end Tree

end TreePath
