import TreePath.Proofs.Engine.Run
import TreePath.Proofs.Tree.Independence

set_option autoImplicit false

/-!
# Runs of independent writes

Writes at independent paths do not hinder or help each other: each ends as it would on its own, and
in whatever order they are made they leave the same tree, but for the order of members.
-/

namespace TreePath.Engine

open TreePath.Tree

/-- Paths that lead to independent locations, as far as they have plans. -/
def ArePathsIndependent (engine : Engine) (path other : String) : Prop :=
  ∀ plan otherPlan, Plan.ofPath engine.config.maxArrayIndex path = .ok plan →
    Plan.ofPath engine.config.maxArrayIndex other = .ok otherPlan →
      Independent plan.steps otherPlan.steps

variable {engine : Engine} {path otherPath : String} {value otherValue tree other : Tree}
  {entries others : List Entry}

theorem ArePathsIndependent.symm (independent : engine.ArePathsIndependent path otherPath) :
    engine.ArePathsIndependent otherPath path :=
  fun plan otherPlan planned otherPlanned => (independent otherPlan plan otherPlanned planned).symm

theorem arePathsIndependent_of_ofPath {plan otherPlan : Plan}
    (planned : Plan.ofPath engine.config.maxArrayIndex path = .ok plan)
    (otherPlanned : Plan.ofPath engine.config.maxArrayIndex otherPath = .ok otherPlan)
    (independent : Independent plan.steps otherPlan.steps) :
    engine.ArePathsIndependent path otherPath := by
  intro first second firstPlanned secondPlanned
  obtain rfl := Except.ok.inj (planned.symm.trans firstPlanned)
  obtain rfl := Except.ok.inj (otherPlanned.symm.trans secondPlanned)
  exact independent

/-! ## Trees that differ in the order of members -/

theorem write_of_reordered (same : Reordered tree other) (path : String) (value : Tree) :
    (engine.write path value tree).outcome = (engine.write path value other).outcome ∧
      Reordered (engine.write path value tree).tree (engine.write path value other).tree := by
  cases planned : Plan.ofPath engine.config.maxArrayIndex path with
  | error refusal =>
      rw [write_eq_stopped planned, write_eq_stopped planned]
      exact ⟨rfl, same⟩
  | ok plan =>
      have stored := same.assign value plan.steps
      rw [write_eq_assign planned, write_eq_assign planned]
      generalize value.assign plan.steps tree = result at stored ⊢
      generalize value.assign plan.steps other = otherResult at stored ⊢
      cases stored with
      | stopped obstacle => exact ⟨rfl, same⟩
      | stored written => exact ⟨rfl, written⟩

theorem run_of_reordered (same : Reordered tree other) (entries : List Entry) :
    Reordered (engine.run entries tree) (engine.run entries other) := by
  induction entries generalizing tree other with
  | nil => exact same
  | cons entry rest inductionHypothesis =>
      obtain ⟨path, value⟩ := entry
      exact inductionHypothesis (write_of_reordered same path value).2

/-! ## Two writes -/

/-- A write ends as it would have without the independent write before it. -/
theorem outcome_write_write (independent : engine.ArePathsIndependent path otherPath) :
    (engine.write otherPath otherValue (engine.write path value tree).tree).outcome =
      (engine.write otherPath otherValue tree).outcome := by
  rcases write_cases engine path value tree with
    ⟨plan, written, planned, assigned, done⟩ | ⟨error, stopped⟩
  · rw [done]
    cases otherPlanned : Plan.ofPath engine.config.maxArrayIndex otherPath with
    | error refusal => rw [write_eq_stopped otherPlanned, write_eq_stopped otherPlanned]; rfl
    | ok otherPlan =>
        have apart := independent plan otherPlan planned otherPlanned
        rw [write_eq_assign otherPlanned, write_eq_assign otherPlanned]
        cases otherAssigned : otherValue.assign otherPlan.steps tree with
        | error obstacle =>
            have failed := assign_eq_error_of_independent apart assigned otherAssigned
            simp only [Edit.done, failed]
            rfl
        | ok otherWritten =>
            obtain ⟨both, -, bothAssigned, -⟩ :=
              exists_assign_assign_of_independent apart assigned otherAssigned
            simp only [Edit.done, bothAssigned]
  · rw [stopped]
    rfl

/-- A write that is stopped is stopped after an independent write as well, and changes nothing. -/
theorem tree_write_write_of_stopped (independent : engine.ArePathsIndependent path otherPath)
    {error : PathError} (stopped : engine.write otherPath otherValue tree = .stopped tree error) :
    (engine.write otherPath otherValue (engine.write path value tree).tree).tree =
      (engine.write path value tree).tree := by
  have outcome := @outcome_write_write engine path otherPath value otherValue tree independent
  rcases write_cases engine otherPath otherValue (engine.write path value tree).tree with
    ⟨plan, written, -, -, done⟩ | ⟨later, unchanged⟩
  · rw [done, stopped] at outcome
    cases outcome
  · rw [unchanged]
    rfl

/-- Two independent writes may be made in either order. -/
theorem write_write_reordered (independent : engine.ArePathsIndependent path otherPath) :
    Reordered (engine.write otherPath otherValue (engine.write path value tree).tree).tree
      (engine.write path value (engine.write otherPath otherValue tree).tree).tree := by
  rcases write_cases engine path value tree with
    ⟨plan, written, planned, assigned, done⟩ | ⟨error, stopped⟩
  · rcases write_cases engine otherPath otherValue tree with
      ⟨otherPlan, otherWritten, otherPlanned, otherAssigned, otherDone⟩ | ⟨error, otherStopped⟩
    · obtain ⟨both, otherBoth, bothAssigned, otherBothAssigned, same⟩ :=
        exists_assign_assign_of_independent (independent plan otherPlan planned otherPlanned)
          assigned otherAssigned
      rw [done, otherDone, write_eq_assign otherPlanned, write_eq_assign planned]
      simp only [Edit.done, bothAssigned, otherBothAssigned]
      exact same
    · rw [tree_write_write_of_stopped independent otherStopped, otherStopped]
      exact .refl _
  · rw [tree_write_write_of_stopped independent.symm stopped, stopped]
    exact .refl _

/-! ## Runs -/

/-- Each of the writes ends as it would on its own. -/
theorem outcomes_eq_map
    (independent : entries.Pairwise fun one other => engine.ArePathsIndependent one.1 other.1) :
    engine.outcomes entries tree =
      entries.map fun (path, value) => (engine.write path value tree).outcome := by
  induction entries generalizing tree with
  | nil => rfl
  | cons entry rest inductionHypothesis =>
      obtain ⟨path, value⟩ := entry
      obtain ⟨apart, restIndependent⟩ := List.pairwise_cons.mp independent
      rw [outcomes, inductionHypothesis restIndependent, List.map_cons]
      refine congrArg _ (List.map_congr_left ?_)
      rintro ⟨otherPath, otherValue⟩ later
      exact outcome_write_write (apart _ later)

theorem run_reordered
    (independent : entries.Pairwise fun one other => engine.ArePathsIndependent one.1 other.1)
    (permuted : entries.Perm others) :
    Reordered (engine.run entries tree) (engine.run others tree) := by
  induction permuted generalizing tree with
  | nil => exact .refl tree
  | cons entry permuted inductionHypothesis =>
      exact inductionHypothesis (List.pairwise_cons.mp independent).2
  | swap entry next rest =>
      have apart := (List.pairwise_cons.mp independent).1 entry List.mem_cons_self
      exact run_of_reordered (write_write_reordered apart) rest
  | trans first second firstHypothesis secondHypothesis =>
      have between := (first.pairwise_iff ArePathsIndependent.symm).mp independent
      exact (firstHypothesis independent).trans (secondHypothesis between)

/-- Independent writes may be made in any order. Each ends as it would on its own, and the tree
is the same in the end, but for the order of members. -/
theorem outcomes_and_run_of_perm
    (independent : entries.Pairwise fun one other => engine.ArePathsIndependent one.1 other.1)
    (permuted : entries.Perm others) (tree : Tree) :
    engine.outcomes entries tree =
        entries.map (fun (path, value) => (engine.write path value tree).outcome) ∧
      engine.outcomes others tree =
        others.map (fun (path, value) => (engine.write path value tree).outcome) ∧
      Reordered (engine.run entries tree) (engine.run others tree) := by
  refine ⟨outcomes_eq_map independent, outcomes_eq_map ?_, run_reordered independent permuted⟩
  exact (permuted.pairwise_iff ArePathsIndependent.symm).mp independent

theorem outcomes_and_run_around_conflict :
    [("a[1]", Tree.null), ("a[0].b", .bool true), ("c.d", .null)].Pairwise
        (fun one other => standard.ArePathsIndependent one.1 other.1) ∧
      [("a[1]", Tree.null), ("a[0].b", .bool true), ("c.d", .null)].Perm
        [("c.d", .null), ("a[0].b", .bool true), ("a[1]", .null)] ∧
      standard.outcomes [("a[1]", .null), ("a[0].b", .bool true), ("c.d", .null)]
        (.object [("c", .string "")]) = [.ok (), .ok (), .error (.conflict "c" .object .string)] ∧
      standard.outcomes [("c.d", .null), ("a[0].b", .bool true), ("a[1]", .null)]
        (.object [("c", .string "")]) = [.error (.conflict "c" .object .string), .ok (), .ok ()] ∧
      Reordered
        (standard.run [("a[1]", .null), ("a[0].b", .bool true), ("c.d", .null)]
          (.object [("c", .string "")]))
        (standard.run [("c.d", .null), ("a[0].b", .bool true), ("a[1]", .null)]
          (.object [("c", .string "")])) := by
  have plannedElement : Plan.ofPath standard.config.maxArrayIndex "a[1]" =
      .ok ⟨[⟨.member "a", .array, 1⟩], .element 1⟩ :=
    Plan.ofPath_eq_ok_iff.mpr ⟨.key 0 ['a'], [.index ['1']], by decide, by decide, by decide⟩
  have plannedBelow : Plan.ofPath standard.config.maxArrayIndex "a[0].b" =
      .ok ⟨[⟨.member "a", .array, 1⟩, ⟨.element 0, .object, 4⟩], .member "b"⟩ :=
    Plan.ofPath_eq_ok_iff.mpr ⟨.key 0 ['a'], [.index ['0'], .key 1 ['b']],
      by decide, by decide, by decide⟩
  have plannedBeside : Plan.ofPath standard.config.maxArrayIndex "c.d" =
      .ok ⟨[⟨.member "c", .object, 1⟩], .member "d"⟩ :=
    Plan.ofPath_eq_ok_iff.mpr ⟨.key 0 ['c'], [.key 1 ['d']], by decide, by decide, by decide⟩
  have independent : [("a[1]", Tree.null), ("a[0].b", .bool true), ("c.d", .null)].Pairwise
      (fun one other => standard.ArePathsIndependent one.1 other.1) := by
    simp only [List.pairwise_cons, List.forall_mem_cons, List.Pairwise.nil, List.not_mem_nil,
      false_implies, implies_true, and_true]
    refine ⟨⟨?_, ?_⟩, ?_⟩
    · exact arePathsIndependent_of_ofPath plannedElement plannedBelow
        (.shared _ (.fork _ _ rfl (by decide)))
    · exact arePathsIndependent_of_ofPath plannedElement plannedBeside (.fork _ _ rfl (by decide))
    · exact arePathsIndependent_of_ofPath plannedBelow plannedBeside (.fork _ _ rfl (by decide))
  have permuted : [("a[1]", Tree.null), ("a[0].b", .bool true), ("c.d", .null)].Perm
      [("c.d", .null), ("a[0].b", .bool true), ("a[1]", .null)] := List.reverse_perm _ |>.symm
  obtain ⟨outcomes, otherOutcomes, same⟩ :=
    outcomes_and_run_of_perm independent permuted (.object [("c", .string "")])
  refine ⟨independent, permuted, ?_, ?_, same⟩
  · rw [outcomes]
    simp only [List.map_cons, write_eq_assign plannedElement, write_eq_assign plannedBelow,
      write_eq_assign plannedBeside]
    rfl
  · rw [otherOutcomes]
    simp only [List.map_cons, write_eq_assign plannedElement, write_eq_assign plannedBelow,
      write_eq_assign plannedBeside]
    rfl

end TreePath.Engine
