import Mathlib.Data.List.DropRight
import TreePath.Proofs.Tree.Assignment
import TreePath.Proofs.Tree.Places

set_option autoImplicit false

/-!
# Storing the places of a tree one after the other

The places of a container come child by child, and what is stored below one child is not seen
from below the others. So storing places assembles each child on its own from a vacant node, and
the container from its children. In particular the places of a tree, with its root last, assemble
the tree.
-/

namespace TreePath.Tree

/-- Stores the nodes of places in turn, up to the first obstacle. -/
def assignAll : List Place → Tree → Except Obstacle Tree
  | [], tree => .ok tree
  | (location, node) :: rest, tree =>
      match assign node location tree with
      | .error obstacle => .error obstacle
      | .ok written => assignAll rest written

/-- Stores children in turn. -/
def putAll (children : List (Step × Tree)) (tree : Tree) : Tree :=
  children.foldl (fun tree (step, child) => put step child tree) tree

variable {nulls : Bool} {kind : ContainerKind} {tree : Tree}

theorem assignAll_append (before after : List Place) (tree : Tree) :
    assignAll (before ++ after) tree = (assignAll before tree).bind (assignAll after) := by
  induction before generalizing tree with
  | nil => rfl
  | cons place rest inductionHypothesis =>
      simp only [List.cons_append, assignAll]
      cases assign place.2 place.1 tree with
      | error obstacle => rfl
      | ok written => exact inductionHypothesis written

/-- What is stored below one child assembles that child. -/
theorem assignAll_under {step : Step} {places : List Place} {child : Tree} (nonempty : places ≠ [])
    (admitted : step.container.admits tree = true)
    (assembled : assignAll places ((tree.at? step).getD absent) = .ok child) :
    assignAll (places.map (.under step)) tree =
      .ok (put step child (tree.opened step.container)) := by
  induction places generalizing tree with
  | nil => exact absurd rfl nonempty
  | cons place rest inductionHypothesis =>
      obtain ⟨location, node⟩ := place
      rw [assignAll] at assembled
      cases assigned : assign node location ((tree.at? step).getD absent) with
      | error obstacle => simp [assigned] at assembled
      | ok written =>
          rw [assigned] at assembled
          have stored : assign node (step :: location) tree =
              .ok (put step written (tree.opened step.container)) :=
            assign_cons_eq_ok_iff.mpr ⟨admitted, written, assigned, rfl⟩
          simp only [List.map_cons, Place.under, assignAll, stored]
          have accepted := accepts_opened admitted
          -- The first place opens the container, and all others find it so: only then do the two
          -- sides of the induction hypothesis have the same node below `step`.
          cases rest with
          | nil =>
              obtain rfl := Except.ok.inj assembled
              rfl
          | cons next later =>
              have acceptedAfter : step.container.accepts
                  (put step written (tree.opened step.container)) = true := by
                rw [accepts_put]
                exact accepted
              rw [inductionHypothesis (List.cons_ne_nil next later)
                (ContainerKind.admits_of_accepts acceptedAfter), opened_of_accepts acceptedAfter,
                put_put]
              rw [at?_put written accepted]
              exact assembled

theorem assign_cons_absent (node : Tree) (step : Step) (location : List Step) :
    assign node (step :: location) absent =
      assign node (step :: location) step.container.empty := by
  have accepted := step.container.accepts_empty
  simp only [assign, ContainerKind.admits_of_accepts accepted, opened_of_accepts accepted,
    ContainerKind.admits_absent, opened_absent, at?_absent, at?_empty, if_true]

section Children

variable {children : List (Step × Tree)} (group : Tree → List Place) (result : Tree → Tree)

/-- Children that are missing so far are assembled one beside the other. -/
theorem assignAll_flatMap (sorts : ∀ entry ∈ children, entry.1.container = kind)
    (apart : children.Pairwise fun one other => one.1 ≠ other.1)
    (assembled : ∀ entry ∈ children,
      group entry.2 ≠ [] ∧ assignAll (group entry.2) absent = .ok (result entry.2))
    (accepted : kind.accepts tree = true)
    (missing : ∀ entry ∈ children, tree.at? entry.1 = none) :
    assignAll (children.flatMap fun (step, child) => (group child).map (.under step)) tree =
      .ok (putAll (children.map fun (step, child) => (step, result child)) tree) := by
  induction children generalizing tree with
  | nil => rfl
  | cons entry rest inductionHypothesis =>
      obtain ⟨step, child⟩ := entry
      obtain ⟨sort, restSorts⟩ := List.forall_mem_cons.mp sorts
      obtain ⟨differ, restApart⟩ := List.pairwise_cons.mp apart
      obtain ⟨⟨nonempty, childAssembled⟩, restAssembled⟩ := List.forall_mem_cons.mp assembled
      obtain ⟨childMissing, restMissing⟩ := List.forall_mem_cons.mp missing
      obtain rfl : step.container = kind := sort
      have admitted := ContainerKind.admits_of_accepts accepted
      have first : assignAll ((group child).map (.under step)) tree =
          .ok (put step (result child) tree) := by
        have found : assignAll (group child) ((tree.at? step).getD absent) =
            .ok (result child) := by
          rw [childMissing]
          exact childAssembled
        rw [assignAll_under nonempty admitted found, opened_of_accepts accepted]
      rw [List.flatMap_cons, assignAll_append, first]
      apply inductionHypothesis restSorts restApart restAssembled
      · rw [accepts_put]
        exact accepted
      · intro other later
        rw [at?_put_of_ne (differ other later)]
        exact restMissing other later

/-- From an empty container, some children of a node are assembled in the same way. -/
theorem assignAll_children (distinct : tree.hasDistinctKeys = true)
    (accepted : kind.accepts tree = true) (kept : children.Sublist tree.children)
    (assembled : ∀ entry ∈ children,
      group entry.2 ≠ [] ∧ assignAll (group entry.2) absent = .ok (result entry.2)) :
    assignAll (children.flatMap fun (step, child) => (group child).map (.under step)) kind.empty =
      .ok (putAll (children.map fun (step, child) => (step, result child)) kind.empty) := by
  refine assignAll_flatMap group result ?_ ?_ assembled kind.accepts_empty ?_
  · intro entry membership
    have sort := accepts_of_mem_children (kept.subset membership)
    exact ContainerKind.eq_of_accepts sort accepted
  · exact (pairwise_steps_children distinct).sublist kept
  · intro entry _
    exact at?_empty entry.1 kind

/-- It is the same from a vacant node, as the first step makes that the container. -/
theorem assignAll_children_of_ne_nil (distinct : tree.hasDistinctKeys = true)
    (accepted : kind.accepts tree = true) (kept : children.Sublist tree.children)
    (nonempty : children ≠ [])
    (assembled : ∀ entry ∈ children,
      group entry.2 ≠ [] ∧ assignAll (group entry.2) absent = .ok (result entry.2)) :
    assignAll (children.flatMap fun (step, child) => (group child).map (.under step)) absent =
      .ok (putAll (children.map fun (step, child) => (step, result child)) kind.empty) := by
  rw [← assignAll_children group result distinct accepted kept assembled]
  obtain ⟨⟨step, child⟩, rest, rfl⟩ := List.exists_cons_of_ne_nil nonempty
  have firstChild : (step, child) ∈ (step, child) :: rest := List.mem_cons_self
  obtain ⟨⟨location, node⟩, places, shape⟩ :=
    List.exists_cons_of_ne_nil (assembled (step, child) firstChild).1
  obtain rfl : step.container = kind :=
    ContainerKind.eq_of_accepts (accepts_of_mem_children (kept.subset firstChild)) accepted
  simp only [List.flatMap_cons, shape, List.map_cons, Place.under, List.cons_append, assignAll,
    assign_cons_absent]

end Children

/-- Storing all places of a tree, its root last, gives the tree. -/
theorem assignAll_placesWithin (distinct : tree.everywhere hasDistinctKeys = true) :
    assignAll (tree.placesWithin nulls) absent = .ok tree := by
  induction tree using induct_children with
  | node tree inductionHypothesis =>
      rw [placesWithin, places_eq_flatMap, assignAll_append]
      by_cases childless : tree.listedChildren nulls = []
      · rw [childless]
        rfl
      · obtain ⟨⟨step, child⟩, membership⟩ := List.exists_mem_of_ne_nil _ childless
        have accepted := accepts_of_mem_children (mem_listedChildren.mp membership).1
        have kept : (tree.listedChildren nulls).Sublist tree.children := List.filter_sublist
        rw [assignAll_children_of_ne_nil (placesWithin nulls) id (everywhere_iff.mp distinct).1
          accepted kept childless]
        · rfl
        · rintro ⟨step, child⟩ membership
          have below := (mem_listedChildren.mp membership).1
          refine ⟨by simp [placesWithin], ?_⟩
          exact inductionHypothesis step child below (everywhere_child distinct below)

/-- Storing the places below the root of a container makes it of its listed children. -/
theorem assignAll_places (distinct : tree.everywhere hasDistinctKeys = true)
    (accepted : kind.accepts tree = true) :
    assignAll (tree.places nulls) kind.empty =
      .ok (putAll (tree.listedChildren nulls) kind.empty) := by
  have kept : (tree.listedChildren nulls).Sublist tree.children := List.filter_sublist
  rw [places_eq_flatMap, assignAll_children (placesWithin nulls) id (everywhere_iff.mp distinct).1
    accepted kept]
  · simp
  · rintro ⟨step, child⟩ membership
    have below := (mem_listedChildren.mp membership).1
    exact ⟨by simp [placesWithin], assignAll_placesWithin (everywhere_child distinct below)⟩

/-! ## Containers from their children -/

theorem putAll_concat (children : List (Step × Tree)) (step : Step) (child tree : Tree) :
    putAll (children ++ [(step, child)]) tree = put step child (putAll children tree) :=
  List.foldl_append

theorem putAll_children_object {members : Members} (distinct : (members.map Prod.fst).Nodup) :
    putAll (object members).children (object []) = object members := by
  induction members using List.reverseRecOn with
  | nil => rfl
  | append_singleton before entry inductionHypothesis =>
      obtain ⟨key, child⟩ := entry
      rw [List.map_append, List.nodup_append] at distinct
      obtain ⟨beforeDistinct, -, apart⟩ := distinct
      have fresh : key ∉ before.map Prod.fst := fun membership =>
        apart key membership key List.mem_cons_self rfl
      have later : (object (before ++ [(key, child)])).children =
          (object before).children ++ [(.member key, child)] := by simp [children]
      rw [later, putAll_concat, inductionHypothesis beforeDistinct]
      simp only [put, Members.insert_of_not_mem fresh]

theorem exists_eq_rdropWhile_append_replicate (slots : Slots) :
    ∃ holes, slots = slots.rdropWhile Option.isNone ++ List.replicate holes none := by
  refine ⟨(slots.rtakeWhile Option.isNone).length, ?_⟩
  have noneLeft : slots.rtakeWhile Option.isNone =
      List.replicate (slots.rtakeWhile Option.isNone).length none := by
    apply List.eq_replicate_iff.mpr
    refine ⟨rfl, fun slot membership => ?_⟩
    exact Option.isNone_iff_eq_none.mp (List.mem_rtakeWhile_imp membership)
  rw [← noneLeft]
  exact List.rdropWhile_append_rtakeWhile.symm

/-- Holes at the end are lost. -/
theorem putAll_children_array (slots : Slots) :
    putAll (array slots).children (array []) = array (slots.rdropWhile Option.isNone) := by
  induction slots using List.reverseRecOn with
  | nil => rfl
  | append_singleton before slot inductionHypothesis =>
      cases slot with
      | none =>
          have same : (array (before ++ [none])).children = (array before).children := by
            simp [children, List.zipIdx_append]
          rw [same, inductionHypothesis, List.rdropWhile_concat_pos _ _ _ rfl]
      | some child =>
          have later : (array (before ++ [some child])).children =
              (array before).children ++ [(.element before.length, child)] := by
            simp [children, List.zipIdx_append]
          -- The holes that were dropped from `before` come back, as the new slot lies behind them.
          obtain ⟨holes, shape⟩ := exists_eq_rdropWhile_append_replicate before
          have size : (before.rdropWhile Option.isNone).length + holes = before.length := by
            have sizes := congrArg List.length shape
            rw [List.length_append, List.length_replicate] at sizes
            exact sizes.symm
          rw [later, putAll_concat, inductionHypothesis,
            List.rdropWhile_concat_neg _ _ _ Bool.false_ne_true]
          simp only [put, ← size, Slots.insert_length_add, ← shape]

end TreePath.Tree
