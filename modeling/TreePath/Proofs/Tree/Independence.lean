import TreePath.Proofs.Tree.Reordering

set_option autoImplicit false

/-!
# Storing at locations that part

Two locations are independent when they part at steps to different children of one container. On
the way to one of them nothing is then seen of what is stored at the other, but that the containers
they share are there. So neither removes an obstacle or puts one in the way, and in either order
the same tree comes out, but for the order of members.
-/

namespace TreePath

/-- Locations with the same first steps, up to steps to different children of one container. -/
inductive Independent : List Step → List Step → Prop
  | fork {step other : Step} (later otherLater : List Step)
      (sorts : step.container = other.container) (differ : step ≠ other) :
      Independent (step :: later) (other :: otherLater)
  | shared (step : Step) {later otherLater : List Step} (below : Independent later otherLater) :
      Independent (step :: later) (step :: otherLater)

theorem Independent.symm {location other : List Step} (independent : Independent location other) :
    Independent other location := by
  induction independent with
  | fork later otherLater sorts differ => exact .fork otherLater later sorts.symm differ.symm
  | shared step below inductionHypothesis => exact .shared step inductionHypothesis

namespace Tree

variable {value otherValue tree written otherWritten : Tree} {location other : List Step}

theorem accepts_put_opened {step next : Step} (child : Tree)
    (sorts : step.container = next.container) (admitted : step.container.admits tree = true) :
    next.container.accepts (put step child (tree.opened step.container)) = true := by
  rw [accepts_put, ← sorts]
  exact accepts_opened admitted

theorem assign_cons_of_accepts {step : Step} {rest : List Step} {child : Tree}
    (accepted : step.container.accepts tree = true)
    (assigned : assign value rest ((tree.at? step).getD absent) = .ok child) :
    assign value (step :: rest) tree = .ok (put step child tree) := by
  apply assign_cons_eq_ok_iff.mpr
  refine ⟨ContainerKind.admits_of_accepts accepted, child, assigned, ?_⟩
  rw [opened_of_accepts accepted]

/-- Storing beside a child that was just stored. -/
theorem assign_cons_put_of_ne {step next : Step} {rest : List Step} {found : Tree} (child : Tree)
    (sorts : step.container = next.container) (differ : step ≠ next)
    (admitted : step.container.admits tree = true)
    (assigned : assign value rest ((tree.at? next).getD absent) = .ok found) :
    assign value (next :: rest) (put step child (tree.opened step.container)) =
      .ok (put next found (put step child (tree.opened step.container))) := by
  apply assign_cons_of_accepts (accepts_put_opened child sorts admitted)
  rw [at?_put_of_ne differ, at?_opened]
  exact assigned

/-- Storing inside a child that was just stored. -/
theorem assign_cons_put {step : Step} {rest : List Step} {child found : Tree}
    (admitted : step.container.admits tree = true)
    (assigned : assign value rest child = .ok found) :
    assign value (step :: rest) (put step child (tree.opened step.container)) =
      .ok (put step found (tree.opened step.container)) := by
  rw [← put_put step child found]
  apply assign_cons_of_accepts (accepts_put_opened child rfl admitted)
  rw [at?_put child (accepts_opened admitted)]
  exact assigned

/-- An obstacle on the way to one location is still there once a value is stored at the other. -/
theorem assign_eq_error_of_independent (independent : Independent location other)
    (assigned : assign value location tree = .ok written) {obstacle : Obstacle}
    (failed : assign otherValue other tree = .error obstacle) :
    assign otherValue other written = .error obstacle := by
  induction independent generalizing tree written obstacle with
  | fork later otherLater sorts differ =>
      obtain ⟨admitted, child, -, rfl⟩ := assign_cons_eq_ok_iff.mp assigned
      apply assign_cons_eq_error_iff.mpr
      rcases assign_cons_eq_error_iff.mp failed with ⟨refused, -⟩ | ⟨-, deeper, below, shape⟩
      · rw [← sorts, admitted] at refused
        cases refused
      · have accepted := accepts_put_opened child sorts admitted
        refine Or.inr ⟨ContainerKind.admits_of_accepts accepted, deeper, ?_, shape⟩
        rw [at?_put_of_ne differ, at?_opened]
        exact below
  | shared step below inductionHypothesis =>
      obtain ⟨admitted, child, childAssigned, rfl⟩ := assign_cons_eq_ok_iff.mp assigned
      apply assign_cons_eq_error_iff.mpr
      rcases assign_cons_eq_error_iff.mp failed with ⟨refused, -⟩ | ⟨-, deeper, below, shape⟩
      · rw [admitted] at refused
        cases refused
      · have accepted := accepts_put_opened child rfl admitted
        refine Or.inr ⟨ContainerKind.admits_of_accepts accepted, deeper, ?_, shape⟩
        rw [at?_put child (accepts_opened admitted)]
        exact inductionHypothesis childAssigned below

/-- Values that can be stored at either location can be stored at both, in either order. -/
theorem exists_assign_assign_of_independent (independent : Independent location other)
    (assigned : assign value location tree = .ok written)
    (otherAssigned : assign otherValue other tree = .ok otherWritten) :
    ∃ both otherBoth, assign otherValue other written = .ok both ∧
      assign value location otherWritten = .ok otherBoth ∧ Reordered both otherBoth := by
  induction independent generalizing tree written otherWritten with
  | fork later otherLater sorts differ =>
      obtain ⟨admitted, child, childAssigned, rfl⟩ := assign_cons_eq_ok_iff.mp assigned
      obtain ⟨otherAdmitted, otherChild, otherChildAssigned, rfl⟩ :=
        assign_cons_eq_ok_iff.mp otherAssigned
      have second := assign_cons_put_of_ne child sorts differ admitted otherChildAssigned
      have otherSecond :=
        assign_cons_put_of_ne otherChild sorts.symm differ.symm otherAdmitted childAssigned
      refine ⟨_, _, second, otherSecond, ?_⟩
      rw [sorts] at admitted ⊢
      have accepted := accepts_opened admitted
      exact .put_comm differ.symm accepted (sorts ▸ accepted) otherChild child
  | shared step below inductionHypothesis =>
      obtain ⟨admitted, child, childAssigned, rfl⟩ := assign_cons_eq_ok_iff.mp assigned
      obtain ⟨-, otherChild, otherChildAssigned, rfl⟩ := assign_cons_eq_ok_iff.mp otherAssigned
      obtain ⟨both, otherBoth, bothAssigned, otherBothAssigned, same⟩ :=
        inductionHypothesis childAssigned otherChildAssigned
      refine ⟨_, _, assign_cons_put admitted bothAssigned,
        assign_cons_put admitted otherBothAssigned, ?_⟩
      exact (Reordered.refl _).put same (accepts_opened admitted)

end Tree

end TreePath
