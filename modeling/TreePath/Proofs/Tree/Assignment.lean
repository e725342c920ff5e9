import TreePath.Proofs.Tree.Child

set_option autoImplicit false

/-!
# Storing a value in one pass

`assign` goes down a location and puts the changed children back on its way up; an obstacle is
told by its depth. The cursor of `store` comes to the same end. When it is stopped it leaves the
tree as it was: below the first node that it creates everything is vacant, so nothing below can
stop it.
-/

namespace TreePath

/-- A node on the way that is neither vacant nor the container that the next step needs. -/
structure Obstacle where
  depth : Nat
  expected : ContainerKind
  found : Kind
  deriving DecidableEq

def Obstacle.below (obstacle : Obstacle) : Obstacle :=
  { obstacle with depth := obstacle.depth + 1 }

/-- An array can be made long enough for the step. -/
def Step.Fits : Step → Prop
  | member _ => True
  | element index => index < Tree.maxSlots

/-- Each stage leads to the container that the step after it needs. -/
def Plan.IsCoherent (plan : Plan) : Prop :=
  plan.stages.map Stage.kind = plan.steps.tail.map Step.container

theorem Plan.IsCoherent.of_cons {stage : Stage} {rest : List Stage} {target : Step}
    (coherent : (Plan.mk (stage :: rest) target).IsCoherent) :
    (Plan.mk rest target).IsCoherent := by
  cases rest with
  | nil => rfl
  | cons next later => exact (List.cons.inj coherent).2

namespace Tree

def assign (value : Tree) : List Step → Tree → Except Obstacle Tree
  | [], _ => .ok value
  | step :: rest, tree =>
      if step.container.admits tree then
        match assign value rest ((tree.at? step).getD absent) with
        | .ok child => .ok (put step child (tree.opened step.container))
        | .error obstacle => .error obstacle.below
      else
        .error ⟨0, step.container, tree.kind⟩

theorem assign_cons_eq_ok_iff {value tree written : Tree} {step : Step} {rest : List Step} :
    assign value (step :: rest) tree = .ok written ↔
      step.container.admits tree = true ∧
        ∃ child, assign value rest ((tree.at? step).getD absent) = .ok child ∧
          written = put step child (tree.opened step.container) := by
  rw [assign]
  by_cases admitted : step.container.admits tree = true
  · rw [if_pos admitted]
    cases assign value rest ((tree.at? step).getD absent) <;> simp [admitted, eq_comm]
  · simp [admitted]

theorem assign_cons_eq_error_iff {value tree : Tree} {step : Step} {rest : List Step}
    {obstacle : Obstacle} :
    assign value (step :: rest) tree = .error obstacle ↔
      (step.container.admits tree = false ∧ obstacle = ⟨0, step.container, tree.kind⟩) ∨
        (step.container.admits tree = true ∧
          ∃ deeper, assign value rest ((tree.at? step).getD absent) = .error deeper ∧
            obstacle = deeper.below) := by
  rw [assign]
  by_cases admitted : step.container.admits tree = true
  · rw [if_pos admitted]
    cases assign value rest ((tree.at? step).getD absent) <;> simp [admitted, eq_comm]
  · simp [admitted, eq_comm]

/-- Nothing stands in the way below a vacant node. -/
theorem exists_assign_absent (value : Tree) (steps : List Step) :
    ∃ written, assign value steps absent = .ok written := by
  induction steps with
  | nil => exact ⟨value, rfl⟩
  | cons step rest inductionHypothesis =>
      obtain ⟨child, assigned⟩ := inductionHypothesis
      refine ⟨put step child step.container.empty, ?_⟩
      apply assign_cons_eq_ok_iff.mpr
      refine ⟨rfl, child, ?_, rfl⟩
      rw [at?_absent]
      exact assigned

theorem ne_absent_of_assign_eq_error {value tree : Tree} {steps : List Step} {obstacle : Obstacle}
    (failed : assign value steps tree = .error obstacle) : tree ≠ absent := by
  rintro rfl
  obtain ⟨written, assigned⟩ := exists_assign_absent value steps
  simp [assigned] at failed

/-! ## The cursor, one stage at a time -/

theorem ensure_eq (stop : Nat) (kind : ContainerKind) (edit : Tree → Edit Refusal) (tree : Tree) :
    ensure stop kind edit tree =
      if kind.admits tree then edit (tree.opened kind)
      else .stopped tree (.conflict stop kind tree.kind) := by
  cases tree <;> simp [ensure, ContainerKind.admits, isAbsent, opened]

theorem editChild_eq {step : Step} (fits : step.Fits) (stop : Nat) (edit : Tree → Edit Refusal)
    (tree : Tree) :
    editChild stop step edit tree =
      if step.container.admits tree then
        (edit ((tree.at? step).getD absent)).inside fun child =>
          put step child (tree.opened step.container)
      else .stopped tree (.conflict stop step.container tree.kind) := by
  cases step with
  | member key =>
      cases tree <;> rfl
  | element index =>
      have reachable : ¬ maxSlots ≤ index := Nat.not_le.mpr fits
      cases tree <;> simp [editChild, withSlot, reachable, Step.container, ContainerKind.admits,
        ContainerKind.accepts, isAbsent, isArray, at?, element?, opened, ContainerKind.empty, put,
        Slots.insert]

theorem ensure_editChild {step : Step} (fits : step.Fits) (stop : Nat)
    (edit : Tree → Edit Refusal) (tree : Tree) :
    ensure stop step.container (editChild stop step edit) tree = editChild stop step edit tree := by
  rw [ensure_eq]
  by_cases admitted : step.container.admits tree = true
  · rw [if_pos admitted, editChild_eq fits, editChild_eq fits, admits_opened, at?_opened,
      opened_opened, if_pos admitted, if_pos admitted]
  · rw [if_neg admitted, editChild_eq fits, if_neg admitted]

theorem store_cons {value : Tree} {stage : Stage} {rest : List Stage} {target : Step}
    (coherent : (Plan.mk (stage :: rest) target).IsCoherent)
    (fits : ∀ step ∈ (Plan.mk rest target).steps, step.Fits) (stop : Nat) (tree : Tree) :
    store value target (stage :: rest) stop tree =
      editChild stop stage.step (store value target rest stage.stop) tree := by
  have ensured : ensure stage.stop stage.kind (store value target rest stage.stop) =
      store value target rest stage.stop := by
    funext child
    cases rest with
    | nil =>
        have kind : stage.kind = target.container := (List.cons.inj coherent).1
        rw [kind]
        exact ensure_editChild (fits target (by simp [Plan.steps])) _ _ _
    | cons next later =>
        have kind : stage.kind = next.step.container := (List.cons.inj coherent).1
        rw [kind]
        exact ensure_editChild (fits next.step (by simp [Plan.steps])) _ _ _
  rw [store, ensured]

/-- An edit that is stopped in a child leaves the whole tree as it was, if it leaves the child
as it was and the child was there. -/
theorem editChild_eq_stopped {step : Step} (fits : step.Fits) (stop : Nat)
    {edit : Tree → Edit Refusal} {tree : Tree} {refusal : Refusal}
    (admitted : step.container.admits tree = true)
    (held : (tree.at? step).getD absent ≠ absent)
    (stopped : edit ((tree.at? step).getD absent) =
      .stopped ((tree.at? step).getD absent) refusal) :
    editChild stop step edit tree = .stopped tree refusal := by
  rw [editChild_eq fits, if_pos admitted, stopped]
  cases found : tree.at? step with
  | none => simp [found] at held
  | some child =>
      have notAbsent : tree ≠ absent := by
        rintro rfl
        simp at found
      simp [Edit.inside, Edit.stopped, opened_of_ne_absent _ notAbsent, put_of_at?_eq found]

/-- The cursor stores what `assign` does, or is stopped by the same obstacle with the tree left
as it was. -/
theorem store_eq_assign {value : Tree} {target : Step} {stages : List Stage}
    (coherent : (Plan.mk stages target).IsCoherent)
    (fits : ∀ step ∈ (Plan.mk stages target).steps, step.Fits) (stop : Nat) (tree : Tree) :
    match assign value (Plan.mk stages target).steps tree with
    | .ok written => store value target stages stop tree = .done written
    | .error obstacle =>
        ∃ reached, (stop :: stages.map Stage.stop)[obstacle.depth]? = some reached ∧
          store value target stages stop tree =
            .stopped tree (.conflict reached obstacle.expected obstacle.found) := by
  induction stages generalizing stop tree with
  | nil =>
      have targetFits : target.Fits := fits target (by simp [Plan.steps])
      by_cases admitted : target.container.admits tree = true
      · simp [Plan.steps, assign, store, editChild_eq targetFits, admitted, Edit.inside, Edit.done]
      · simp [Plan.steps, assign, store, editChild_eq targetFits, admitted]
  | cons stage rest inductionHypothesis =>
      obtain ⟨stageFits, restFits⟩ := List.forall_mem_cons.mp fits
      rw [store_cons coherent restFits]
      have inner := inductionHypothesis coherent.of_cons restFits stage.stop
        ((tree.at? stage.step).getD absent)
      change match assign value (stage.step :: (Plan.mk rest target).steps) tree with
        | .ok written => _
        | .error obstacle => _
      by_cases admitted : stage.step.container.admits tree = true
      · rw [assign, if_pos admitted]
        cases assigned : assign value (Plan.mk rest target).steps
            ((tree.at? stage.step).getD absent) with
        | ok child =>
            rw [assigned] at inner
            simp only [editChild_eq stageFits, if_pos admitted, inner]
            rfl
        | error obstacle =>
            rw [assigned] at inner
            obtain ⟨reached, passed, stopped⟩ := inner
            have held := ne_absent_of_assign_eq_error assigned
            exact ⟨reached, passed, editChild_eq_stopped stageFits stop admitted held stopped⟩
      · rw [assign, if_neg admitted, editChild_eq stageFits, if_neg admitted]
        exact ⟨stop, rfl, rfl⟩

end Tree

end TreePath
