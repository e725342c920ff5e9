import TreePath.Proofs.Engine.Write
import TreePath.Proofs.Tree.Locating

set_option autoImplicit false

/-!
# Writing as recursive setting

`assign` sets a value at a location by recursion: it opens what is vacant, sets the value in the
child, and puts the child back. A write comes to the same tree, or meets the same obstacle. What
that means for the containers on the way is said here of their members and slots: `TakesIn` has one
case for each place that a child can take.
-/

namespace TreePath

open TreePath.Path

theorem Members.insert_cases (key : String) (value : Tree) (members : Members) :
    (∃ front old back, members = front ++ (key, old) :: back ∧ key ∉ front.map Prod.fst ∧
        members.insert key value = front ++ (key, value) :: back) ∨
      key ∉ members.map Prod.fst ∧ members.insert key value = members ++ [(key, value)] := by
  induction members with
  | nil => exact Or.inr ⟨List.not_mem_nil, rfl⟩
  | cons entry rest inductionHypothesis =>
      obtain ⟨name, child⟩ := entry
      by_cases same : name = key
      · subst name
        refine Or.inl ⟨[], child, rest, rfl, List.not_mem_nil, ?_⟩
        rw [insert, if_pos rfl]
        rfl
      · rw [insert, if_neg same]
        rcases inductionHypothesis with ⟨front, old, back, split, first, stored⟩ | ⟨fresh, stored⟩
        · refine Or.inl ⟨(name, child) :: front, old, back, ?_, ?_, ?_⟩
          · rw [split, List.cons_append]
          · simp [Ne.symm same, first]
          · rw [stored, List.cons_append]
        · refine Or.inr ⟨?_, ?_⟩
          · simp [Ne.symm same, fresh]
          · rw [stored, List.cons_append]

namespace Tree

/-- A container before and after it takes in a child at the end of a step. A member takes the place
of the one with its key or comes after all others. An element takes its slot; where that is past the
end, holes lead up to it. -/
inductive TakesIn (child : Tree) : Step → Tree → Tree → Prop
  | replaced {front back : Members} {key : String} {old : Tree}
      (first : key ∉ front.map Prod.fst) :
      TakesIn child (.member key) (object (front ++ (key, old) :: back))
        (object (front ++ (key, child) :: back))
  | appended {members : Members} {key : String} (fresh : key ∉ members.map Prod.fst) :
      TakesIn child (.member key) (object members) (object (members ++ [(key, child)]))
  | filled {slots : Slots} {index : Nat} (inRange : index < slots.length) :
      TakesIn child (.element index) (array slots) (array (slots.set index (some child)))
  | lengthened {slots : Slots} {holes : Nat} :
      TakesIn child (.element (slots.length + holes)) (array slots)
        (array (slots ++ List.replicate holes none ++ [some child]))

theorem takesIn_put {step : Step} {tree : Tree} (child : Tree)
    (accepted : step.container.accepts tree = true) :
    TakesIn child step tree (put step child tree) := by
  cases step with
  | member key =>
      obtain ⟨members, rfl⟩ := exists_members_of_accepts accepted
      rw [put]
      rcases Members.insert_cases key child members with
        ⟨front, old, back, rfl, first, stored⟩ | ⟨fresh, stored⟩
      · rw [stored]
        exact .replaced first
      · rw [stored]
        exact .appended fresh
  | element index =>
      obtain ⟨slots, rfl⟩ := exists_slots_of_accepts accepted
      rw [put]
      by_cases inRange : index < slots.length
      · rw [Slots.insert, Slots.reach_of_lt_length inRange]
        exact .filled inRange
      · obtain ⟨holes, rfl⟩ := Nat.exists_eq_add_of_le (Nat.le_of_not_lt inRange)
        rw [Slots.insert_length_add]
        exact .lengthened

variable {value tree written : Tree}

/-- Each node on the way takes in the next, where a vacant node counts as an empty container. -/
theorem exists_takesIn_of_assign {passed later : List Step} {step : Step}
    (assigned : assign value (passed ++ step :: later) tree = .ok written) :
    ∃ node child, written.locate? passed = some node ∧
      written.locate? (passed ++ [step]) = some child ∧
      TakesIn child step (((tree.locate? passed).getD absent).opened step.container) node := by
  obtain ⟨node, nodeAssigned, located⟩ := exists_assign_of_assign_append assigned
  obtain ⟨admitted, child, -, rfl⟩ := assign_cons_eq_ok_iff.mp nodeAssigned
  have accepted := accepts_opened admitted
  refine ⟨_, child, located, ?_, takesIn_put child accepted⟩
  rw [locate?_append, located, Option.bind_some, locate?_cons, at?_put child accepted]
  rfl

end Tree

namespace Engine

variable {engine : Engine} {path : String} {plan : Plan}

/-- A planned write is a recursive setting at the steps of the plan, and an obstacle is reported
by the text that leads to it. Each container on the way takes in the next node and keeps all else;
one that stands in for a vacant node holds nothing besides. -/
theorem toExcept_write_eq_assign
    (planned : Plan.ofPath engine.config.maxArrayIndex path = .ok plan) (value tree : Tree) :
    (engine.write path value tree).toExcept =
      (value.assign plan.steps tree).mapError (fun obstacle =>
        .conflict (plan.location path obstacle.depth) obstacle.expected obstacle.found) ∧
    (∀ obstacle, value.assign plan.steps tree = .error obstacle →
      obstacle.depth < plan.steps.length ∧
      (tokens (plan.location path obstacle.depth)).length = obstacle.depth) ∧
    ∀ written, value.assign plan.steps tree = .ok written →
      written.locate? plan.steps = some value ∧
      ∀ passed step later, plan.steps = passed ++ step :: later →
        ∃ node child, written.locate? passed = some node ∧
          written.locate? (passed ++ [step]) = some child ∧
          Tree.TakesIn child step
            (((tree.locate? passed).getD .absent).opened step.container) node := by
  have named := Plan.namedInTurn_tokens planned
  refine ⟨?_, ?_, ?_⟩
  · rw [write_eq_assign planned]
    cases value.assign plan.steps tree <;> rfl
  · intro obstacle failed
    obtain ⟨step, node, taken, -⟩ := Tree.exists_of_assign_eq_error named failed
    obtain ⟨below, -⟩ := List.getElem?_eq_some_iff.mp taken
    refine ⟨below, ?_⟩
    rw [Plan.tokens_location planned, List.length_take, ← named.length_eq]
    exact Nat.min_eq_left (Nat.le_of_lt below)
  · intro written assigned
    refine ⟨?_, ?_⟩
    · have whole := Tree.locate?_assign_append assigned []
      rw [List.append_nil] at whole
      exact whole
    · intro passed step later split
      rw [split] at assigned
      exact Tree.exists_takesIn_of_assign assigned

theorem toExcept_write_past_end_and_at_bool :
    Plan.ofPath standard.config.maxArrayIndex "a[2].b" =
        .ok ⟨[⟨.member "a", .array, 1⟩, ⟨.element 2, .object, 4⟩], .member "b"⟩ ∧
      (standard.write "a[2].b" .null
          (.object [("a", .array [some .null]), ("c", .absent)])).toExcept =
        .ok (.object [("a", .array [some .null, none, some (.object [("b", .null)])]),
          ("c", .absent)]) ∧
      (standard.write "a[2].b" .null (.object [("a", .bool true)])).toExcept =
        .error (.conflict "a" .array .bool) := by
  have planned : Plan.ofPath standard.config.maxArrayIndex "a[2].b" =
      .ok ⟨[⟨.member "a", .array, 1⟩, ⟨.element 2, .object, 4⟩], .member "b"⟩ :=
    Plan.ofPath_eq_ok_iff.mpr ⟨.key 0 ['a'], [.index ['2'], .key 1 ['b']],
      by decide, by decide, by decide⟩
  have setting (tree : Tree) := (toExcept_write_eq_assign planned .null tree).1
  refine ⟨planned, ?_, ?_⟩
  · rw [setting]
    rfl
  · rw [setting]
    rfl

end Engine

end TreePath
