import Mathlib.Data.List.Nodup
import TreePath.Proofs.Tree.Assignment
import TreePath.Proofs.Tree.Children

set_option autoImplicit false

/-!
# Trees that differ in the order of members

An object keeps its members in the order in which their keys were first stored, so storing in
another order may leave them in another order. `Reordered` relates trees that differ in nothing
else. Storing in such trees meets the same obstacles and leaves such trees.
-/

namespace TreePath

/-- What is found on both sides or on neither is related if what is found on both is. -/
theorem rel_of_isSome_eq {Value Other : Type} {related : Value → Other → Prop}
    {found : Option Value} {otherFound : Option Other} (both : found.isSome = otherFound.isSome)
    (alike : ∀ value other, found = some value → otherFound = some other → related value other) :
    Option.Rel related found otherFound := by
  cases found with
  | none =>
      cases otherFound with
      | none => exact .none
      | some other => cases both
  | some value =>
      cases otherFound with
      | none => cases both
      | some other => exact .some (alike value other rfl rfl)

namespace Members

theorem isSome_get?_iff {key : String} {members : Members} :
    (members.get? key).isSome = true ↔ key ∈ members.map Prod.fst := by
  induction members with
  | nil => simp
  | cons entry rest inductionHypothesis =>
      obtain ⟨name, child⟩ := entry
      rw [get?_cons]
      by_cases same : name = key
      · simp [same]
      · rw [if_neg same, inductionHypothesis]
        simp [Ne.symm same]

/-- Members with distinct keys are the same in some order if the same is found under each key. -/
theorem perm_iff_get?_eq {members others : Members} (distinct : (members.map Prod.fst).Nodup)
    (otherDistinct : (others.map Prod.fst).Nodup) :
    members.Perm others ↔ ∀ key, members.get? key = others.get? key := by
  rw [List.perm_ext_iff_of_nodup distinct.of_map otherDistinct.of_map]
  constructor
  · intro same key
    apply Option.ext
    intro child
    rw [get?_eq_some_iff_mem distinct, get?_eq_some_iff_mem otherDistinct]
    exact same (key, child)
  · rintro same ⟨key, child⟩
    rw [← get?_eq_some_iff_mem distinct, ← get?_eq_some_iff_mem otherDistinct, same key]

theorem get?_map_values (convert : String → Tree → Tree) (key : String) (members : Members) :
    get? key (members.map fun entry => (entry.1, convert entry.1 entry.2)) =
      (members.get? key).map (convert key) := by
  induction members with
  | nil => rfl
  | cons entry rest inductionHypothesis =>
      obtain ⟨name, child⟩ := entry
      rw [List.map_cons, get?_cons, get?_cons, inductionHypothesis]
      by_cases same : name = key
      · simp [same]
      · simp [same]

theorem keys_insert_perm {members others : Members}
    (keys : (members.map Prod.fst).Perm (others.map Prod.fst)) (key : String)
    (value other : Tree) :
    ((insert key value members).map Prod.fst).Perm ((insert key other others).map Prod.fst) := by
  rw [keys_insert, keys_insert]
  by_cases known : key ∈ members.map Prod.fst
  · rw [if_pos known, if_pos (keys.mem_iff.mp known)]
    exact keys
  · rw [if_neg known, if_neg fun membership => known (keys.mem_iff.mpr membership)]
    exact keys.append_right [key]

/-- Of two new keys the one that is stored first comes first. -/
theorem keys_insert_insert_perm (key name : String) (value other : Tree) (members : Members) :
    ((insert key value (insert name other members)).map Prod.fst).Perm
      ((insert name other (insert key value members)).map Prod.fst) := by
  have swapped : (members.map Prod.fst ++ [name] ++ [key]).Perm
      (members.map Prod.fst ++ [key] ++ [name]) := by
    rw [List.append_assoc, List.append_assoc]
    exact (List.Perm.swap key name []).append_left _
  by_cases same : key = name
  · subst name
    simp only [keys_insert]
    grind
  · simp only [keys_insert]
    grind

end Members

namespace Slots

theorem map_isSome_insert (index : Nat) (value : Tree) (slots : Slots) :
    (insert index value slots).map Option.isSome =
      (slots.map Option.isSome ++ List.replicate (index + 1 - slots.length) false).set index
        true := by
  simp [insert, reach, List.map_set]

theorem map_isSome_insert_insert (index position : Nat) (value other : Tree) (slots : Slots) :
    (insert index value (insert position other slots)).map Option.isSome =
      (insert position other (insert index value slots)).map Option.isSome := by
  apply List.ext_getElem?
  intro place
  simp only [insert, reach, List.getElem?_map, List.getElem?_set, List.getElem?_append,
    List.getElem?_replicate, List.length_append, List.length_replicate, List.length_set]
  grind

theorem isSome_get?_of_map_isSome_eq {slots others : Slots}
    (shape : slots.map Option.isSome = others.map Option.isSome) (index : Nat) :
    (slots.get? index).isSome = (others.get? index).isSome := by
  have filled := congrArg (fun shapes : List Bool => shapes[index]?) shape
  simp only [List.getElem?_map] at filled
  rw [get?, get?]
  cases found : slots[index]? <;> cases otherFound : others[index]? <;>
    simp_all only [Option.map_none, Option.map_some, Option.some.injEq, reduceCtorEq,
      Option.join_some]

/-- Slots that are related in turn, holes to holes. -/
theorem forall₂_rel_iff {related : Tree → Tree → Prop} {slots others : Slots} :
    List.Forall₂ (Option.Rel related) slots others ↔
      slots.map Option.isSome = others.map Option.isSome ∧
        ∀ index child otherChild, slots.get? index = some child →
          others.get? index = some otherChild → related child otherChild := by
  constructor
  · intro alike
    refine ⟨?_, ?_⟩
    · rw [← List.forall₂_eq_eq_eq, List.forall₂_map_left_iff, List.forall₂_map_right_iff]
      refine alike.imp ?_
      rintro _ _ (both | both) <;> rfl
    · intro index child otherChild found otherFound
      obtain ⟨inRange, here⟩ := List.getElem?_eq_some_iff.mp (get?_eq_some_iff.mp found)
      obtain ⟨otherInRange, otherHere⟩ :=
        List.getElem?_eq_some_iff.mp (get?_eq_some_iff.mp otherFound)
      have slot := alike.get inRange otherInRange
      rw [List.get_eq_getElem, List.get_eq_getElem, here, otherHere] at slot
      cases slot with
      | some below => exact below
  · rintro ⟨shape, below⟩
    refine List.forall₂_iff_get.mpr ⟨by simpa using congrArg List.length shape, ?_⟩
    intro index inRange otherInRange
    have slot := rel_of_isSome_eq (isSome_get?_of_map_isSome_eq shape index) (below index)
    simpa [get?, inRange, otherInRange] using slot

end Slots

namespace Tree

/-- Nodes that differ in nothing but their children: objects with the same keys in any order,
arrays of one length with holes in the same places, or equal leaves. -/
inductive SameSurface : Tree → Tree → Prop
  | leaf {tree : Tree} : tree.isContainer = false → SameSurface tree tree
  | object {members others : Members} :
      (members.map Prod.fst).Perm (others.map Prod.fst) →
      SameSurface (object members) (object others)
  | array {slots others : Slots} :
      slots.map Option.isSome = others.map Option.isSome →
      SameSurface (array slots) (array others)

/-- The same tree, but for the order in which the objects in it list their members. -/
inductive Reordered : Tree → Tree → Prop
  | node {tree other : Tree} (surface : SameSurface tree other)
      (below : ∀ step child otherChild, tree.at? step = some child →
        other.at? step = some otherChild → Reordered child otherChild) :
      Reordered tree other

variable {tree other third child otherChild : Tree} {kind : ContainerKind} {step : Step}

namespace SameSurface

theorem refl (tree : Tree) : SameSurface tree tree := by
  cases tree with
  | object members => exact .object (.refl _)
  | array slots => exact .array rfl
  | _ => exact .leaf rfl

theorem symm (same : SameSurface tree other) : SameSurface other tree := by
  cases same with
  | leaf noContainer => exact .leaf noContainer
  | object keys => exact .object keys.symm
  | array shape => exact .array shape.symm

theorem trans (first : SameSurface tree other) (second : SameSurface other third) :
    SameSurface tree third := by
  cases first with
  | leaf => exact second
  | object keys =>
      cases second with
      | leaf noContainer => cases noContainer
      | object otherKeys => exact .object (keys.trans otherKeys)
  | array shape =>
      cases second with
      | leaf noContainer => cases noContainer
      | array otherShape => exact .array (shape.trans otherShape)

theorem kind_eq (same : SameSurface tree other) : tree.kind = other.kind := by
  cases same <;> rfl

theorem accepts_eq (same : SameSurface tree other) (kind : ContainerKind) :
    kind.accepts tree = kind.accepts other := by
  cases same <;> cases kind <;> rfl

theorem admits_eq (same : SameSurface tree other) (kind : ContainerKind) :
    kind.admits tree = kind.admits other := by
  cases same <;> cases kind <;> rfl

theorem opened (same : SameSurface tree other) (kind : ContainerKind) :
    SameSurface (tree.opened kind) (other.opened kind) := by
  cases same with
  | leaf => exact .refl _
  | object keys => exact .object keys
  | array shape => exact .array shape

theorem isSome_at? (same : SameSurface tree other) (step : Step) :
    (tree.at? step).isSome = (other.at? step).isSome := by
  cases same with
  | leaf => rfl
  | object keys =>
      cases step with
      | member key =>
          rw [Bool.eq_iff_iff, at?, at?, member?, member?, Members.isSome_get?_iff,
            Members.isSome_get?_iff]
          exact keys.mem_iff
      | element index => rfl
  | array shape =>
      cases step with
      | member key => rfl
      | element index =>
          exact Slots.isSome_get?_of_map_isSome_eq shape index

theorem put (same : SameSurface tree other) (step : Step) (child otherChild : Tree) :
    SameSurface (Tree.put step child tree) (Tree.put step otherChild other) := by
  cases same with
  | @leaf tree noContainer =>
      cases step <;> cases tree <;> first | exact .leaf noContainer | cases noContainer
  | object keys =>
      cases step with
      | member key => exact .object (Members.keys_insert_perm keys key child otherChild)
      | element index => exact .object keys
  | @array slots others shape =>
      cases step with
      | member key => exact .array shape
      | element index =>
          have lengths : slots.length = others.length := by simpa using congrArg List.length shape
          refine .array ?_
          rw [Slots.map_isSome_insert, Slots.map_isSome_insert, shape, lengths]

theorem put_comm (step other : Step) (child otherChild tree : Tree) :
    SameSurface (Tree.put step child (Tree.put other otherChild tree))
      (Tree.put other otherChild (Tree.put step child tree)) := by
  cases step with
  | member key =>
      cases tree with
      | object members =>
          cases other with
          | member name =>
              exact .object (Members.keys_insert_insert_perm key name child otherChild members)
          | element index => exact .refl _
      | _ => cases other <;> exact .refl _
  | element index =>
      cases tree with
      | array slots =>
          cases other with
          | member key => exact .refl _
          | element position =>
              exact .array (Slots.map_isSome_insert_insert index position child otherChild slots)
      | _ => cases other <;> exact .refl _

end SameSurface

namespace Reordered

theorem surface (same : Reordered tree other) : SameSurface tree other := by
  cases same with
  | node surface below => exact surface

theorem refl (tree : Tree) : Reordered tree tree := by
  induction tree using induct_children with
  | node tree inductionHypothesis =>
      refine .node (.refl tree) ?_
      intro step child otherChild found otherFound
      obtain rfl := Option.some.inj (found.symm.trans otherFound)
      exact inductionHypothesis step child (mem_children_of_at?_eq_some found)

theorem symm (same : Reordered tree other) : Reordered other tree := by
  induction same with
  | node surface below inductionHypothesis =>
      refine .node surface.symm ?_
      intro step otherChild child otherFound found
      exact inductionHypothesis step child otherChild found otherFound

theorem trans (first : Reordered tree other) (second : Reordered other third) :
    Reordered tree third := by
  induction first generalizing third with
  | @node tree other surface below inductionHypothesis =>
      cases second with
      | node otherSurface otherBelow =>
          refine .node (surface.trans otherSurface) ?_
          intro step child lastChild found lastFound
          have reached : (other.at? step).isSome = true := by
            rw [← surface.isSome_at? step, found]
            rfl
          obtain ⟨between, betweenFound⟩ := Option.isSome_iff_exists.mp reached
          exact inductionHypothesis step child between found betweenFound
            (otherBelow step between lastChild betweenFound lastFound)

/-- Both trees have a child at the end of a step, or neither has. -/
theorem rel_at? (same : Reordered tree other) (step : Step) :
    Option.Rel Reordered (tree.at? step) (other.at? step) := by
  obtain ⟨surface, below⟩ := same
  exact rel_of_isSome_eq (surface.isSome_at? step) (below step)

/-- What a step finds, or a vacant node where it finds nothing. -/
theorem getD_at? (same : Reordered tree other) (step : Step) :
    Reordered ((tree.at? step).getD absent) ((other.at? step).getD absent) := by
  have children := same.rel_at? step
  generalize tree.at? step = found at children ⊢
  generalize other.at? step = otherFound at children ⊢
  cases children with
  | none => exact .refl absent
  | some below => exact below

theorem opened (same : Reordered tree other) (kind : ContainerKind) :
    Reordered (tree.opened kind) (other.opened kind) := by
  cases same with
  | node surface below =>
      refine .node (surface.opened kind) ?_
      simp only [at?_opened]
      exact below

theorem put (same : Reordered tree other) (children : Reordered child otherChild)
    (accepted : step.container.accepts tree = true) :
    Reordered (Tree.put step child tree) (Tree.put step otherChild other) := by
  obtain ⟨surface, below⟩ := same
  have otherAccepted : step.container.accepts other = true := by
    rw [← surface.accepts_eq]
    exact accepted
  refine .node (surface.put step child otherChild) ?_
  intro next found otherFound reached otherReached
  by_cases same : step = next
  · subst next
    rw [at?_put child accepted] at reached
    rw [at?_put otherChild otherAccepted] at otherReached
    obtain rfl := Option.some.inj reached
    obtain rfl := Option.some.inj otherReached
    exact children
  · rw [at?_put_of_ne same] at reached otherReached
    exact below next found otherFound reached otherReached

/-- Children at the ends of different steps may be stored in either order. -/
theorem put_comm {next : Step} (differs : step ≠ next)
    (accepted : step.container.accepts tree = true)
    (otherAccepted : next.container.accepts tree = true) (child otherChild : Tree) :
    Reordered (Tree.put step child (Tree.put next otherChild tree))
      (Tree.put next otherChild (Tree.put step child tree)) := by
  refine .node (.put_comm step next child otherChild tree) ?_
  intro last found otherFound reached otherReached
  have same : (Tree.put step child (Tree.put next otherChild tree)).at? last =
      (Tree.put next otherChild (Tree.put step child tree)).at? last := by
    by_cases first : step = last
    · subst last
      rw [at?_put child (by rw [accepts_put]; exact accepted), at?_put_of_ne (Ne.symm differs),
        at?_put child accepted]
    · rw [at?_put_of_ne first]
      by_cases second : next = last
      · subst last
        rw [at?_put otherChild otherAccepted,
          at?_put otherChild (by rw [accepts_put]; exact otherAccepted)]
      · rw [at?_put_of_ne second, at?_put_of_ne second, at?_put_of_ne first]
  rw [same] at reached
  obtain rfl := Option.some.inj (reached.symm.trans otherReached)
  exact .refl found

end Reordered

/-- What is found under a key of members that are alike in turn. -/
theorem rel_get?_of_forall₂ {members others : Members}
    (alike : List.Forall₂ (fun entry other => entry.1 = other.1 ∧ Reordered entry.2 other.2)
      members others) (key : String) :
    Option.Rel Reordered (members.get? key) (others.get? key) := by
  induction alike with
  | nil => exact .none
  | @cons entry other rest otherRest first later inductionHypothesis =>
      obtain ⟨name, child⟩ := entry
      obtain ⟨rfl, below⟩ := first
      rw [Members.get?_cons, Members.get?_cons]
      split
      · exact .some below
      · exact inductionHypothesis

/-- Objects with the same members in another order, each the same but for the order of members. -/
theorem reordered_object_iff {members others : Members}
    (distinct : (members.map Prod.fst).Nodup) (otherDistinct : (others.map Prod.fst).Nodup) :
    Reordered (object members) (object others) ↔
      ∃ aligned : Members, aligned.Perm others ∧ List.Forall₂ (fun entry other =>
        entry.1 = other.1 ∧ Reordered entry.2 other.2) members aligned := by
  constructor
  · intro same
    refine ⟨members.map fun entry => (entry.1, (others.get? entry.1).getD absent), ?_, ?_⟩
    · apply (Members.perm_iff_get?_eq (by rw [List.map_map]; exact distinct) otherDistinct).mpr
      intro key
      have both : Option.Rel Reordered (members.get? key) (others.get? key) :=
        same.rel_at? (.member key)
      rw [Members.get?_map_values fun name _ => (others.get? name).getD absent]
      generalize members.get? key = member at both ⊢
      generalize others.get? key = other at both ⊢
      cases both <;> rfl
    · rw [List.forall₂_map_right_iff, List.forall₂_same]
      rintro ⟨key, child⟩ membership
      have found := (Members.get?_eq_some_iff_mem distinct).mpr membership
      have children := same.getD_at? (.member key)
      rw [at?, member?, found] at children
      exact ⟨rfl, children⟩
  · rintro ⟨aligned, permuted, alike⟩
    have keys : members.map Prod.fst = aligned.map Prod.fst := by
      rw [← List.forall₂_eq_eq_eq, List.forall₂_map_left_iff, List.forall₂_map_right_iff]
      exact alike.imp fun _ _ both => both.1
    have alignedFound := (Members.perm_iff_get?_eq (keys ▸ distinct) otherDistinct).mp permuted
    refine .node (.object (keys ▸ permuted.map Prod.fst)) ?_
    rintro (key | index) child otherChild found otherFound
    · have children := rel_get?_of_forall₂ alike key
      change members.get? key = some child at found
      change others.get? key = some otherChild at otherFound
      rw [alignedFound key, found, otherFound] at children
      cases children with
      | some below => exact below
    · simp [at?, element?] at found

/-- Arrays whose slots hold in turn what is the same but for the order of members. -/
theorem reordered_array_iff {slots others : Slots} :
    Reordered (array slots) (array others) ↔ List.Forall₂ (Option.Rel Reordered) slots others := by
  rw [Slots.forall₂_rel_iff]
  constructor
  · intro same
    cases same with
    | node surface below =>
        cases surface with
        | leaf noContainer => cases noContainer
        | array shape => exact ⟨shape, fun index => below (.element index)⟩
  · rintro ⟨shape, below⟩
    refine .node (.array shape) ?_
    rintro (key | index) child otherChild found otherFound
    · simp [at?, member?] at found
    · exact below index child otherChild found otherFound

/-- The same obstacle, or trees that differ in the order of members. -/
inductive SameResult : Except Obstacle Tree → Except Obstacle Tree → Prop
  | stopped (obstacle : Obstacle) : SameResult (.error obstacle) (.error obstacle)
  | stored {tree other : Tree} (same : Reordered tree other) : SameResult (.ok tree) (.ok other)

/-- Storing in trees that differ in the order of members. -/
theorem Reordered.assign (same : Reordered tree other) (value : Tree) (location : List Step) :
    SameResult (assign value location tree) (assign value location other) := by
  induction location generalizing tree other with
  | nil => exact .stored (.refl value)
  | cons step rest inductionHypothesis =>
      rw [Tree.assign, Tree.assign, ← same.surface.admits_eq, ← same.surface.kind_eq]
      by_cases admitted : step.container.admits tree = true
      · rw [if_pos admitted, if_pos admitted]
        have below := inductionHypothesis (same.getD_at? step)
        generalize Tree.assign value rest ((tree.at? step).getD absent) = stored at below ⊢
        generalize Tree.assign value rest ((other.at? step).getD absent) = otherStored at below ⊢
        cases below with
        | stopped obstacle => exact .stopped obstacle.below
        | stored children =>
            exact .stored ((same.opened step.container).put children (accepts_opened admitted))
      · rw [if_neg admitted, if_neg admitted]
        exact .stopped _

end Tree

end TreePath
