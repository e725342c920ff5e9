import Mathlib.Data.List.Forall2
import TreePath.Proofs.Tree.Assignment

set_option autoImplicit false

/-!
# Looking paths up around a stored value

Tokens that name the steps of a location in turn lead to the stored value and on into it, or to
a container above it. All other tokens lead where they led before. The same tokens tell, before
anything is stored, which node will be in the way.
-/

namespace TreePath

open TreePath.Path

/-- The tokens name the steps, one by one. -/
def NamedInTurn (steps : List Step) (tokens : List Token) : Prop :=
  List.Forall₂ (fun step token => step.isNamedBy token = true) steps tokens

theorem NamedInTurn.exists_getElem?_eq_some {steps : List Step} {tokens : List Token}
    (named : NamedInTurn steps tokens) {position : Nat} {step : Step}
    (taken : steps[position]? = some step) :
    ∃ token, tokens[position]? = some token ∧ step.isNamedBy token = true := by
  induction named generalizing position with
  | nil => simp at taken
  | @cons first token steps tokens firstNamed others inductionHypothesis =>
      cases position with
      | zero =>
          obtain rfl := Option.some.inj taken
          exact ⟨token, rfl, firstNamed⟩
      | succ position => exact inductionHypothesis taken

/-- A step that needs this kind of container can be taken from what was found: from nothing, from
a vacant node, or from such a container. -/
def ContainerKind.Passable (kind : ContainerKind) (found : Option Tree) : Prop :=
  found = none ∨ found = some .absent ∨ ∃ node, found = some node ∧ kind.accepts node = true

theorem ContainerKind.passable_some_iff {kind : ContainerKind} {node : Tree} :
    kind.Passable (some node) ↔ kind.admits node = true := by
  cases node <;> simp [Passable, admits, Tree.isAbsent]

namespace Tree

theorem follow?_cons (token : Token) (rest : List Token) (tree : Tree) :
    tree.follow? (token :: rest) = (tree.child? token).bind (follow? rest) := by
  rw [follow?]
  cases tree.child? token <;> rfl

theorem child?_eq_at?_of_admits {step : Step} {token : Token} {tree : Tree}
    (named : step.isNamedBy token = true) (admitted : step.container.admits tree = true) :
    tree.child? token = tree.at? step := by
  rw [← child?_opened token step.container, ← at?_opened step step.container]
  exact child?_eq_at? named (accepts_opened admitted)

theorem child?_put_opened {step : Step} {token : Token} (child : Tree) {tree : Tree}
    (named : step.isNamedBy token = true) (admitted : step.container.admits tree = true) :
    (put step child (tree.opened step.container)).child? token = some child := by
  have accepted := accepts_opened admitted
  have accepts : step.container.accepts (put step child (tree.opened step.container)) = true := by
    rw [accepts_put]
    exact accepted
  rw [child?_eq_at? named accepts, at?_put child accepted]

variable {value tree written : Tree}

/-! ## After storing -/

theorem follow?_assign_append {steps : List Step} {before : List Token}
    (named : NamedInTurn steps before) (after : List Token)
    (assigned : assign value steps tree = .ok written) :
    written.follow? (before ++ after) = value.follow? after := by
  induction named generalizing tree written with
  | nil =>
      obtain rfl := Except.ok.inj assigned
      rfl
  | @cons step token steps tokens first others inductionHypothesis =>
      obtain ⟨admitted, child, childAssigned, rfl⟩ := assign_cons_eq_ok_iff.mp assigned
      rw [List.cons_append, follow?_cons, child?_put_opened child first admitted]
      exact inductionHypothesis childAssigned

theorem exists_follow?_assign_eq_container {passed : List Step} {next : Step} {later : List Step}
    {tokens : List Token} (named : NamedInTurn passed tokens)
    (assigned : assign value (passed ++ next :: later) tree = .ok written) :
    ∃ node, written.follow? tokens = some node ∧ next.container.accepts node = true := by
  induction named generalizing tree written with
  | nil =>
      obtain ⟨admitted, child, -, rfl⟩ := assign_cons_eq_ok_iff.mp assigned
      refine ⟨_, rfl, ?_⟩
      rw [accepts_put]
      exact accepts_opened admitted
  | @cons step token steps tokens first others inductionHypothesis =>
      obtain ⟨admitted, child, childAssigned, rfl⟩ := assign_cons_eq_ok_iff.mp assigned
      rw [follow?_cons, child?_put_opened child first admitted]
      exact inductionHypothesis childAssigned

theorem follow?_assign_beside {steps : List Step} {tokens : List Token}
    (notThrough : ∀ before, before <+: tokens → ¬ NamedInTurn steps before)
    (notWithin : ∀ passed, passed <+: steps → ¬ NamedInTurn passed tokens)
    (assigned : assign value steps tree = .ok written) :
    written.follow? tokens = tree.follow? tokens := by
  induction steps generalizing tokens tree written with
  | nil => exact absurd .nil (notThrough [] List.nil_prefix)
  | cons step rest inductionHypothesis =>
      cases tokens with
      | nil => exact absurd .nil (notWithin [] List.nil_prefix)
      | cons token others =>
          obtain ⟨admitted, child, childAssigned, rfl⟩ := assign_cons_eq_ok_iff.mp assigned
          rw [follow?_cons, follow?_cons]
          cases named : step.isNamedBy token with
          | false =>
              rw [child?_put_of_not_named child _ named, child?_opened]
          | true =>
              have beside : child.follow? others =
                  ((tree.at? step).getD absent).follow? others := by
                refine inductionHypothesis ?_ ?_ childAssigned
                · intro before begins inTurn
                  apply notThrough (token :: before)
                  · exact List.cons_prefix_cons.mpr ⟨rfl, begins⟩
                  · exact .cons named inTurn
                · intro passed begins inTurn
                  apply notWithin (step :: passed)
                  · exact List.cons_prefix_cons.mpr ⟨rfl, begins⟩
                  · exact .cons named inTurn
              rw [child?_put_opened child named admitted, child?_eq_at?_of_admits named admitted,
                Option.bind_some, beside]
              cases found : tree.at? step with
              | some existing => rfl
              | none =>
                  -- The tokens go on: a child that was only just created has nothing beside it.
                  cases others with
                  | nil =>
                      have within : NamedInTurn [step] [token] := .cons named .nil
                      exact absurd within
                        (notWithin [step] (List.cons_prefix_cons.mpr ⟨rfl, List.nil_prefix⟩))
                  | cons another remaining => rfl

/-! ## Before storing -/

theorem passable_of_assign_eq_ok {steps : List Step} {tokens : List Token}
    (named : NamedInTurn steps tokens) (assigned : assign value steps tree = .ok written)
    {depth : Nat} {step : Step} (taken : steps[depth]? = some step) :
    step.container.Passable (tree.follow? (tokens.take depth)) := by
  induction named generalizing tree written depth with
  | nil => simp at taken
  | @cons first token steps tokens firstNamed others inductionHypothesis =>
      obtain ⟨admitted, child, childAssigned, -⟩ := assign_cons_eq_ok_iff.mp assigned
      cases depth with
      | zero =>
          obtain rfl := Option.some.inj taken
          exact ContainerKind.passable_some_iff.mpr admitted
      | succ depth =>
          rw [List.take_succ_cons, follow?_cons, child?_eq_at?_of_admits firstNamed admitted]
          cases found : tree.at? first with
          | none => exact Or.inl rfl
          | some existing =>
              rw [found] at childAssigned
              exact inductionHypothesis childAssigned taken

/-- An obstacle is the first node that tokens find in the way of a step. -/
theorem exists_of_assign_eq_error {steps : List Step} {tokens : List Token}
    (named : NamedInTurn steps tokens) {obstacle : Obstacle}
    (failed : assign value steps tree = .error obstacle) :
    ∃ step node, steps[obstacle.depth]? = some step ∧
      tree.follow? (tokens.take obstacle.depth) = some node ∧
      ¬ step.container.Passable (some node) ∧
      obstacle = ⟨obstacle.depth, step.container, node.kind⟩ ∧
      ∀ earlier passed, earlier < obstacle.depth → steps[earlier]? = some passed →
        passed.container.Passable (tree.follow? (tokens.take earlier)) := by
  induction named generalizing tree obstacle with
  | nil => simp [assign] at failed
  | @cons first token steps tokens firstNamed others inductionHypothesis =>
      rcases assign_cons_eq_error_iff.mp failed with
        ⟨refused, rfl⟩ | ⟨admitted, deeper, childFailed, rfl⟩
      · refine ⟨first, tree, rfl, rfl, ?_, rfl, ?_⟩
        · rw [ContainerKind.passable_some_iff]
          simp [refused]
        · intro earlier passed before
          exact absurd before (Nat.not_lt_zero earlier)
      · have follow (depth : Nat) : tree.follow? ((token :: tokens).take (depth + 1)) =
            (tree.at? first).bind (follow? (tokens.take depth)) := by
          rw [List.take_succ_cons, follow?_cons, child?_eq_at?_of_admits firstNamed admitted]
        cases found : tree.at? first with
        | none =>
            rw [found] at childFailed
            exact absurd rfl (ne_absent_of_assign_eq_error childFailed)
        | some existing =>
            rw [found] at childFailed
            obtain ⟨step, node, taken, reached, blocked, shape, passable⟩ :=
              inductionHypothesis childFailed
            refine ⟨step, node, taken, ?_, blocked, ?_, ?_⟩
            · rw [Obstacle.below, follow, found]
              exact reached
            · rw [shape]
              rfl
            · intro earlier passed before takenEarlier
              cases earlier with
              | zero =>
                  obtain rfl := Option.some.inj takenEarlier
                  exact ContainerKind.passable_some_iff.mpr admitted
              | succ earlier =>
                  rw [follow, found]
                  exact passable earlier passed (Nat.lt_of_succ_lt_succ before) takenEarlier

end Tree

end TreePath
