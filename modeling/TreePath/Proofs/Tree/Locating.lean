import TreePath.Proofs.Tree.Addressing

set_option autoImplicit false

/-!
# What is at which location after storing

Storing at a location puts the value there, with all that is below it, and a container at every
location on the way. All other locations keep what they hold. Storing what a location holds already
changes nothing.
-/

namespace TreePath.Tree

variable {value tree written node : Tree} {location steps : List Step}

/-- Nothing is below a missing child, nor below the vacant node that stands for it. -/
theorem getD_locate?_cons (step : Step) (rest : List Step) (tree : Tree) :
    (tree.locate? (step :: rest)).getD absent =
      (((tree.at? step).getD absent).locate? rest).getD absent := by
  rw [locate?_cons]
  cases tree.at? step with
  | some child => rfl
  | none =>
      cases rest with
      | nil => rfl
      | cons next later =>
          rw [Option.getD_none, locate?_cons, at?_absent]
          rfl

/-- What is stored below a location is stored in the node there. -/
theorem exists_assign_of_assign_append {passed later : List Step}
    (assigned : assign value (passed ++ later) tree = .ok written) :
    ∃ node, assign value later ((tree.locate? passed).getD absent) = .ok node ∧
      written.locate? passed = some node := by
  induction passed generalizing tree written with
  | nil => exact ⟨written, assigned, rfl⟩
  | cons step rest inductionHypothesis =>
      obtain ⟨admitted, child, childAssigned, rfl⟩ := assign_cons_eq_ok_iff.mp assigned
      obtain ⟨node, nodeAssigned, located⟩ := inductionHypothesis childAssigned
      have accepted := accepts_opened admitted
      refine ⟨node, ?_, ?_⟩
      · rw [getD_locate?_cons]
        exact nodeAssigned
      · rw [locate?_cons, at?_put child accepted]
        exact located

theorem locate?_assign_append (assigned : assign value steps tree = .ok written)
    (rest : List Step) : written.locate? (steps ++ rest) = value.locate? rest := by
  rw [← List.append_nil steps] at assigned
  obtain ⟨node, nodeAssigned, located⟩ := exists_assign_of_assign_append assigned
  obtain rfl := Except.ok.inj nodeAssigned
  rw [locate?_append, located]
  rfl

theorem exists_locate?_assign_eq_container {passed later : List Step} {next : Step}
    (assigned : assign value (passed ++ next :: later) tree = .ok written) :
    ∃ node, written.locate? passed = some node ∧ next.container.accepts node = true := by
  obtain ⟨node, nodeAssigned, located⟩ := exists_assign_of_assign_append assigned
  obtain ⟨admitted, child, -, rfl⟩ := assign_cons_eq_ok_iff.mp nodeAssigned
  refine ⟨_, located, ?_⟩
  rw [accepts_put]
  exact accepts_opened admitted

theorem locate?_assign_beside (notBelow : ¬ steps <+: location) (notAbove : ¬ location <+: steps)
    (assigned : assign value steps tree = .ok written) :
    written.locate? location = tree.locate? location := by
  induction steps generalizing location tree written with
  | nil => exact absurd List.nil_prefix notBelow
  | cons step rest inductionHypothesis =>
      cases location with
      | nil => exact absurd List.nil_prefix notAbove
      | cons next others =>
          obtain ⟨admitted, child, childAssigned, rfl⟩ := assign_cons_eq_ok_iff.mp assigned
          rw [locate?_cons, locate?_cons]
          by_cases same : step = next
          · subst next
            have restNotBelow : ¬ rest <+: others :=
              fun begins => notBelow (List.cons_prefix_cons.mpr ⟨rfl, begins⟩)
            have restNotAbove : ¬ others <+: rest :=
              fun begins => notAbove (List.cons_prefix_cons.mpr ⟨rfl, begins⟩)
            rw [at?_put child (accepts_opened admitted), Option.bind_some,
              inductionHypothesis restNotBelow restNotAbove childAssigned]
            cases found : tree.at? step with
            | some held => rfl
            | none =>
                cases others with
                | nil => exact absurd List.nil_prefix restNotAbove
                | cons last remaining => rw [Option.getD_none, locate?_cons, at?_absent]; rfl
          · rw [at?_put_of_ne same, at?_opened]

/-- Storing what a location holds changes nothing. -/
theorem assign_of_locate?_eq (located : tree.locate? location = some node) :
    assign node location tree = .ok tree := by
  induction location generalizing tree with
  | nil => rw [assign, ← Option.some.inj located]
  | cons step rest inductionHypothesis =>
      obtain ⟨child, found, below⟩ := locate?_cons_eq_some_iff.mp located
      have accepted := accepts_of_at?_eq_some found
      apply assign_cons_eq_ok_iff.mpr
      refine ⟨ContainerKind.admits_of_accepts accepted, child, ?_, ?_⟩
      · rw [found]
        exact inductionHypothesis below
      · rw [opened_of_accepts accepted, put_of_at?_eq found]

end TreePath.Tree
