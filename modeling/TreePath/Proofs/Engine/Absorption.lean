import TreePath.Proofs.Engine.Write
import TreePath.Proofs.Tree.Independence
import TreePath.Proofs.Tree.Locating

set_option autoImplicit false

/-!
# Writes that leave no trace

What is stored at a location or below it is gone once another value is stored at the location. What
the first write did on the way stays out of sight as well: the containers that it made are those
that the second would have made, and where the second would have met an obstacle the first met it
before.

Storing what was found at a path changes nothing either. Looking up accepts more texts than storing
does, and finds members under digits; but where storing goes through, both come to the same node.
-/

namespace TreePath

open TreePath.Path

namespace Tree

variable {other tree between : Tree} {steps later : List Step}

/-- A value that was stored at a location or below it leaves no trace under one that is stored at
the location, and has shown that there is no obstacle on the way. -/
theorem exists_assign_of_assign_below (value : Tree)
    (stored : assign other (steps ++ later) tree = .ok between) :
    ∃ written, assign value steps between = .ok written ∧
      assign value steps tree = .ok written := by
  induction steps generalizing tree between with
  | nil => exact ⟨value, rfl, rfl⟩
  | cons step rest inductionHypothesis =>
      obtain ⟨admitted, child, childStored, rfl⟩ := assign_cons_eq_ok_iff.mp stored
      obtain ⟨node, again, alone⟩ := inductionHypothesis childStored
      refine ⟨put step node (tree.opened step.container), assign_cons_put admitted again, ?_⟩
      exact assign_cons_eq_ok_iff.mpr ⟨admitted, node, alone, rfl⟩

/-- Where storing goes through, tokens that name the steps lead to what is at the location. -/
theorem locate?_eq_follow?_of_assign {value written : Tree} {tokens : List Token}
    (named : NamedInTurn steps tokens) (stored : assign value steps tree = .ok written) :
    tree.locate? steps = tree.follow? tokens := by
  induction named generalizing tree written with
  | nil => rfl
  | @cons step token rest others firstNamed _ inductionHypothesis =>
      obtain ⟨admitted, child, childStored, -⟩ := assign_cons_eq_ok_iff.mp stored
      rw [locate?_cons, follow?_cons, child?_eq_at?_of_admits firstNamed admitted]
      cases found : tree.at? step with
      | none => rfl
      | some existing =>
          rw [found] at childStored
          exact inductionHypothesis childStored

end Tree

namespace Engine

variable {engine : Engine} {path otherPath : String} {plan otherPlan : Plan}

/-- A write ends as it would have without a write before it at its location or below, and leaves the
same tree. -/
theorem write_after_write_below
    (planned : Plan.ofPath engine.config.maxArrayIndex path = .ok plan)
    (otherPlanned : Plan.ofPath engine.config.maxArrayIndex otherPath = .ok otherPlan)
    (begins : plan.steps <+: otherPlan.steps) (value otherValue tree : Tree) :
    engine.write path value (engine.write otherPath otherValue tree).tree =
      engine.write path value tree := by
  rcases write_cases engine otherPath otherValue tree with
    ⟨found, between, foundPlanned, stored, done⟩ | ⟨error, stopped⟩
  · obtain rfl := Except.ok.inj (otherPlanned.symm.trans foundPlanned)
    obtain ⟨later, split⟩ := begins
    rw [← split] at stored
    obtain ⟨written, again, alone⟩ := Tree.exists_assign_of_assign_below value stored
    rw [done, write_eq_assign planned, write_eq_assign planned, alone]
    simp only [Edit.done, again]
  · rw [stopped]
    rfl

theorem write_over_write_below_hole :
    Plan.ofPath standard.config.maxArrayIndex "a[2]" =
        .ok ⟨[⟨.member "a", .array, 1⟩], .element 2⟩ ∧
      Plan.ofPath standard.config.maxArrayIndex ".a[02].b[1]" =
        .ok ⟨[⟨.member "a", .array, 2⟩, ⟨.element 2, .object, 6⟩, ⟨.member "b", .array, 8⟩],
          .element 1⟩ ∧
      [Step.member "a", .element 2] <+: [.member "a", .element 2, .member "b", .element 1] ∧
      (standard.write "a[2]" .null (standard.write ".a[02].b[1]" (.bool true)
          (.object [("a", .array [some .null])])).tree).tree =
        .object [("a", .array [some .null, none, some .null])] := by
  have planned : Plan.ofPath standard.config.maxArrayIndex "a[2]" =
      .ok ⟨[⟨.member "a", .array, 1⟩], .element 2⟩ :=
    Plan.ofPath_eq_ok_iff.mpr ⟨.key 0 ['a'], [.index ['2']], by decide, by decide, by decide⟩
  have otherPlanned : Plan.ofPath standard.config.maxArrayIndex ".a[02].b[1]" =
      .ok ⟨[⟨.member "a", .array, 2⟩, ⟨.element 2, .object, 6⟩, ⟨.member "b", .array, 8⟩],
        .element 1⟩ :=
    Plan.ofPath_eq_ok_iff.mpr ⟨.key 1 ['a'], [.index ['0', '2'], .key 1 ['b'], .index ['1']],
      by decide, by decide, by decide⟩
  have begins : [Step.member "a", .element 2] <+:
      [.member "a", .element 2, .member "b", .element 1] := ⟨[.member "b", .element 1], rfl⟩
  refine ⟨planned, otherPlanned, begins, ?_⟩
  rw [write_after_write_below planned otherPlanned begins, write_eq_assign planned]
  rfl

/-- Storing what was found at a path changes nothing, whether the write goes through or is
stopped. -/
theorem tree_write_of_read?_eq_some (engine : Engine) {tree node : Tree}
    (found : tree.read? path = some node) : (engine.write path node tree).tree = tree := by
  rcases write_cases engine path node tree with
    ⟨plan, written, planned, stored, done⟩ | ⟨error, stopped⟩
  · have located : tree.locate? plan.steps = some node := by
      rw [Tree.locate?_eq_follow?_of_assign (Plan.namedInTurn_tokens planned) stored]
      exact found
    have unchanged := Tree.assign_of_locate?_eq located
    rw [done]
    exact Except.ok.inj (stored.symm.trans unchanged)
  · rw [stopped]
    rfl

theorem tree_write_back_of_absent_and_digit_member :
    (Tree.object [("a", .array [none, some (.object [("b", .absent)])])]).read? "..a[01].b" =
        some .absent ∧
      (standard.write "..a[01].b" .absent
          (.object [("a", .array [none, some (.object [("b", .absent)])])])).tree =
        .object [("a", .array [none, some (.object [("b", .absent)])])] ∧
      (Tree.object [("a", .object [("0", .string "x")])]).read? "a[0]" = some (.string "x") ∧
      (standard.write "a[0]" (.string "x") (.object [("a", .object [("0", .string "x")])])).tree =
        .object [("a", .object [("0", .string "x")])] := by
  have names : tokens "..a[01].b" = [.key "a", .index 1 "01", .key "b"] := by decide
  have digitNames : tokens "a[0]" = [.key "a", .index 0 "0"] := by decide
  have found : (Tree.object [("a", .array [none, some (.object [("b", .absent)])])]).read?
      "..a[01].b" = some .absent := by
    rw [Tree.read?, names]
    rfl
  have digitFound : (Tree.object [("a", .object [("0", .string "x")])]).read? "a[0]" =
      some (.string "x") := by
    rw [Tree.read?, digitNames]
    rfl
  exact ⟨found, tree_write_of_read?_eq_some standard found, digitFound,
    tree_write_of_read?_eq_some standard digitFound⟩

end Engine

end TreePath
