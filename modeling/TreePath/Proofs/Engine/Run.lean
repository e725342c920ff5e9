import TreePath.Proofs.Engine.Write
import TreePath.Proofs.Tree.Stability

set_option autoImplicit false

/-!
# Writes one after the other

A run makes writes in turn and goes on after those that fail. What a write keeps, a run keeps, and
a tree that is built has. Here that is said of the checks that storing keeps everywhere in a tree.
-/

namespace TreePath.Engine

open TreePath.Tree

/-- The tree after a run of writes, whatever becomes of each. -/
def run (engine : Engine) : List Entry → Tree → Tree
  | [], tree => tree
  | (path, value) :: rest, tree => run engine rest (engine.write path value tree).tree

/-- What becomes of the writes of a run, one by one. -/
def outcomes (engine : Engine) : List Entry → Tree → List (Except PathError Unit)
  | [], _ => []
  | (path, value) :: rest, tree =>
      (engine.write path value tree).outcome ::
        outcomes engine rest (engine.write path value tree).tree

variable {engine : Engine} {allowed : Step → Prop} {check : Tree → Bool} {tree : Tree}

/-- Writes that all succeed are a run. -/
theorem run_of_writeAll_eq_ok {entries : List Entry} {written : Tree}
    (stored : engine.writeAll entries tree = .ok written) : engine.run entries tree = written := by
  induction entries generalizing tree with
  | nil => exact Except.ok.inj stored
  | cons entry rest inductionHypothesis =>
      obtain ⟨path, value⟩ := entry
      rw [writeAll] at stored
      cases outcome : (engine.write path value tree).toExcept with
      | error error => simp [outcome] at stored
      | ok next =>
          rw [outcome] at stored
          rw [run, Edit.tree_of_toExcept_eq_ok outcome]
          exact inductionHypothesis stored

/-- A write keeps a stable check, whether it succeeds or not. -/
theorem everywhere_tree_write (stable : IsStable allowed check) {path : String} {value : Tree}
    (stepsAllowed : ∀ plan, Plan.ofPath engine.config.maxArrayIndex path = .ok plan →
      ∀ step ∈ plan.steps, allowed step)
    (valuePassed : value.everywhere check = true) (passed : tree.everywhere check = true) :
    (engine.write path value tree).tree.everywhere check = true := by
  rcases write_cases engine path value tree with
    ⟨plan, written, planned, assigned, done⟩ | ⟨error, stopped⟩
  · rw [done]
    exact stable.everywhere_assign (stepsAllowed plan planned) valuePassed passed assigned
  · rw [stopped]
    exact passed

/-- A run keeps what each of its writes keeps. -/
theorem run_invariant {holds allowedValue : Tree → Prop} {entries : List Entry}
    (kept : ∀ path value tree, allowedValue value → holds tree →
      holds (engine.write path value tree).tree)
    (valuesAllowed : ∀ entry ∈ entries, allowedValue entry.2) (initially : holds tree) :
    holds (engine.run entries tree) := by
  induction entries generalizing tree with
  | nil => exact initially
  | cons entry rest inductionHypothesis =>
      obtain ⟨path, value⟩ := entry
      obtain ⟨valueAllowed, restAllowed⟩ := List.forall_mem_cons.mp valuesAllowed
      exact inductionHypothesis restAllowed (kept path value tree valueAllowed initially)

/-- A run keeps a stable check that all its values pass. -/
theorem everywhere_run (stable : IsStable allowed check)
    (stepsAllowed : ∀ path plan, Plan.ofPath engine.config.maxArrayIndex path = .ok plan →
      ∀ step ∈ plan.steps, allowed step)
    {entries : List Entry} (valuesPassed : ∀ entry ∈ entries, entry.2.everywhere check = true)
    (passed : tree.everywhere check = true) :
    (engine.run entries tree).everywhere check = true := by
  apply @run_invariant engine tree (fun tree => tree.everywhere check = true)
    (fun value => value.everywhere check = true) entries
  · intro path value tree
    exact everywhere_tree_write stable (stepsAllowed path)
  · exact valuesPassed
  · exact passed

theorem everywhere_of_writeAll (stable : IsStable allowed check)
    (stepsAllowed : ∀ path plan, Plan.ofPath engine.config.maxArrayIndex path = .ok plan →
      ∀ step ∈ plan.steps, allowed step)
    {entries : List Entry} {written : Tree}
    (valuesPassed : ∀ entry ∈ entries, entry.2.everywhere check = true)
    (passed : tree.everywhere check = true) (stored : engine.writeAll entries tree = .ok written) :
    written.everywhere check = true := by
  rw [← run_of_writeAll_eq_ok stored]
  exact everywhere_run stable stepsAllowed valuesPassed passed

/-- In a tree built from nodes whose keys are distinct and whose slots are countable, so they are
everywhere. -/
theorem distinct_and_countable_of_build {entries : List Entry} {built : Tree}
    (distinct : ∀ entry ∈ entries, entry.2.everywhere hasDistinctKeys = true)
    (countable : ∀ entry ∈ entries, entry.2.everywhere hasCountableSlots = true)
    (stored : engine.build entries = .ok built) :
    built.everywhere hasDistinctKeys = true ∧ built.everywhere hasCountableSlots = true := by
  constructor
  · exact everywhere_of_writeAll (@isStable_hasDistinctKeys fun _ => True)
      (fun _ _ _ _ _ => trivial) distinct rfl stored
  · exact everywhere_of_writeAll isStable_hasCountableSlots
      (fun _ _ planned => fits_of_ofPath planned) countable rfl stored

end TreePath.Engine
