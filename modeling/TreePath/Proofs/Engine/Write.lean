import TreePath.Engine.Basic
import TreePath.Proofs.Path.Location

set_option autoImplicit false

/-!
# Storing at a path

A refused path, and a path that meets an obstacle, leave the tree as it was. Otherwise looking up
finds the stored value at its path, containers above it, and all else as before. Whether the path
meets an obstacle can be looked up beforehand.
-/

namespace TreePath.Engine

open TreePath.Path

variable {engine : Engine} {path : String} {plan : Plan} {value tree : Tree}

theorem write_eq_stopped {refusal : Refusal}
    (refused : Plan.ofPath engine.config.maxArrayIndex path = .error refusal) :
    engine.write path value tree = .stopped tree (refusal.report path) := by
  rw [write, Tree.write, refused]

theorem fits_of_ofPath (planned : Plan.ofPath engine.config.maxArrayIndex path = .ok plan) :
    ∀ step ∈ plan.steps, step.Fits := by
  intro step taken
  cases step with
  | member key => trivial
  | element index =>
      have withinLimit := Plan.index_le_of_ofPath planned taken
      have withinCap := engine.valid.2
      have capFits : maxArrayIndexCap < Tree.maxSlots := by decide
      exact Nat.lt_of_le_of_lt (Nat.le_trans withinLimit withinCap) capFits

/-- A planned write is an assignment. An obstacle is reported at the path of its node. -/
theorem write_eq_assign (planned : Plan.ofPath engine.config.maxArrayIndex path = .ok plan) :
    engine.write path value tree =
      match value.assign plan.steps tree with
      | .ok written => .done written
      | .error obstacle =>
          .stopped tree
            (.conflict (plan.location path obstacle.depth) obstacle.expected obstacle.found) := by
  have stored := @Tree.store_eq_assign value _ _ (Plan.isCoherent_ofPath planned)
    (fits_of_ofPath planned) 0 tree
  rw [write, Tree.write, planned]
  cases assigned : value.assign plan.steps tree with
  | ok written =>
      rw [assigned] at stored
      simp only [stored]
      rfl
  | error obstacle =>
      rw [assigned] at stored
      obtain ⟨reached, passed, stopped⟩ := stored
      simp only [stopped, ← Plan.upTo_eq_location passed]
      rfl

theorem outcome_write_eq_ok_iff
    (planned : Plan.ofPath engine.config.maxArrayIndex path = .ok plan) :
    (engine.write path value tree).outcome = .ok () ↔
      ∃ written, value.assign plan.steps tree = .ok written := by
  rw [write_eq_assign planned]
  cases value.assign plan.steps tree <;> simp [Edit.done, Edit.stopped]

theorem assign_of_write_eq_ok {written : Tree}
    (planned : Plan.ofPath engine.config.maxArrayIndex path = .ok plan)
    (stored : (engine.write path value tree).toExcept = .ok written) :
    value.assign plan.steps tree = .ok written := by
  rw [write_eq_assign planned] at stored
  cases assigned : value.assign plan.steps tree with
  | ok other => simpa [assigned] using stored
  | error obstacle => simp [assigned] at stored

/-- A write either assigns at the steps of its plan, or is stopped with the tree as it was. -/
theorem write_cases (engine : Engine) (path : String) (value tree : Tree) :
    (∃ plan written, Plan.ofPath engine.config.maxArrayIndex path = .ok plan ∧
        value.assign plan.steps tree = .ok written ∧
        engine.write path value tree = .done written) ∨
      ∃ error, engine.write path value tree = .stopped tree error := by
  cases planned : Plan.ofPath engine.config.maxArrayIndex path with
  | error refusal => exact Or.inr ⟨_, write_eq_stopped planned⟩
  | ok plan =>
      rw [write_eq_assign planned]
      cases assigned : value.assign plan.steps tree with
      | ok written => exact Or.inl ⟨plan, written, rfl, assigned, rfl⟩
      | error obstacle => exact Or.inr ⟨_, rfl⟩

/-- A write that fails leaves the tree as it was. -/
theorem tree_write_of_outcome_eq_error {error : PathError}
    (failed : (engine.write path value tree).outcome = .error error) :
    (engine.write path value tree).tree = tree := by
  cases planned : Plan.ofPath engine.config.maxArrayIndex path with
  | error refusal =>
      rw [write_eq_stopped planned]
      rfl
  | ok plan =>
      rw [write_eq_assign planned] at failed ⊢
      cases assigned : value.assign plan.steps tree with
      | ok written => simp [assigned, Edit.done] at failed
      | error obstacle => rfl

theorem tree_write_stopped_at_null :
    (standard.write "a[1].x.y" (.bool true)
        (.object [("a", .array [none, some (.object [("x", .null)])])])).outcome =
      .error (.conflict "a[1].x" .object .null) ∧
    (standard.write "a[1].x.y" (.bool true)
        (.object [("a", .array [none, some (.object [("x", .null)])])])).tree =
      .object [("a", .array [none, some (.object [("x", .null)])])] := by
  have planned : Plan.ofPath standard.config.maxArrayIndex "a[1].x.y" =
      .ok ⟨[⟨.member "a", .array, 1⟩, ⟨.element 1, .object, 4⟩, ⟨.member "x", .object, 6⟩],
        .member "y"⟩ :=
    Plan.ofPath_eq_ok_iff.mpr ⟨.key 0 ['a'], [.index ['1'], .key 1 ['x'], .key 1 ['y']],
      by decide, by decide, by decide⟩
  have failed : (standard.write "a[1].x.y" (.bool true)
      (.object [("a", .array [none, some (.object [("x", .null)])])])).outcome =
        .error (.conflict "a[1].x" .object .null) := by
    rw [write_eq_assign planned]
    rfl
  exact ⟨failed, tree_write_of_outcome_eq_error failed⟩

/-- Looking up after a write. Tokens that name the whole way to the target go on into the stored
value, tokens that name a part of the way end in a container, and all others find what they found
before. -/
theorem read?_of_write_eq_ok {written : Tree}
    (stored : (engine.write path value tree).toExcept = .ok written) :
    ∃ plan, Plan.ofPath engine.config.maxArrayIndex path = .ok plan ∧
      written.read? path = some value ∧
      ∀ query,
        (∀ before after, tokens query = before ++ after → NamedInTurn plan.steps before →
          written.read? query = value.follow? after) ∧
        (∀ passed next later, plan.steps = passed ++ next :: later →
          NamedInTurn passed (tokens query) →
            ∃ node, written.read? query = some node ∧ next.container.accepts node = true) ∧
        ((∀ before, before <+: tokens query → ¬ NamedInTurn plan.steps before) →
          (∀ passed, passed <+: plan.steps → ¬ NamedInTurn passed (tokens query)) →
            written.read? query = tree.read? query) := by
  cases planned : Plan.ofPath engine.config.maxArrayIndex path with
  | error refusal =>
      rw [write_eq_stopped planned] at stored
      simp at stored
  | ok plan =>
      have assigned : value.assign plan.steps tree = .ok written := by
        rw [write_eq_assign planned] at stored
        cases assigned : value.assign plan.steps tree with
        | ok other => simpa [assigned] using stored
        | error obstacle => simp [assigned] at stored
      refine ⟨plan, rfl, ?_, fun query => ⟨?_, ?_, ?_⟩⟩
      · have through := Tree.follow?_assign_append (Plan.namedInTurn_tokens planned) [] assigned
        rw [List.append_nil] at through
        exact through
      · intro before after split named
        rw [Tree.read?, split]
        exact Tree.follow?_assign_append named after assigned
      · intro passed next later split named
        rw [split] at assigned
        exact Tree.exists_follow?_assign_eq_container named assigned
      · intro notThrough notWithin
        exact Tree.follow?_assign_beside notThrough notWithin assigned

theorem read?_after_write_in_hole :
    (standard.write "a[1].b" .null (.object [("a", .array [none])])).toExcept =
        .ok (.object [("a", .array [none, some (.object [("b", .null)])])]) ∧
      (Tree.object [("a", .array [none, some (.object [("b", .null)])])]).read? "a[1].b" =
        some .null := by
  have planned : Plan.ofPath standard.config.maxArrayIndex "a[1].b" =
      .ok ⟨[⟨.member "a", .array, 1⟩, ⟨.element 1, .object, 4⟩], .member "b"⟩ :=
    Plan.ofPath_eq_ok_iff.mpr ⟨.key 0 ['a'], [.index ['1'], .key 1 ['b']],
      by decide, by decide, by decide⟩
  have stored : (standard.write "a[1].b" .null (.object [("a", .array [none])])).toExcept =
      .ok (.object [("a", .array [none, some (.object [("b", .null)])])]) := by
    rw [write_eq_assign planned]
    rfl
  obtain ⟨plan, -, found, -⟩ := read?_of_write_eq_ok stored
  exact ⟨stored, found⟩

/-- A planned write goes through exactly when looking up each beginning of its path finds nothing,
a vacant node, or the container that the next step needs. Otherwise it reports the first beginning
that finds something else. -/
theorem outcome_write_of_ofPath
    (planned : Plan.ofPath engine.config.maxArrayIndex path = .ok plan) :
    ((engine.write path value tree).outcome = .ok () ↔
      ∀ (depth : Nat) (step : Step), plan.steps[depth]? = some step →
        step.container.Passable (tree.read? (plan.location path depth))) ∧
    ∀ error, (engine.write path value tree).outcome = .error error →
      ∃ (depth : Nat) (step : Step) (node : Tree), plan.steps[depth]? = some step ∧
        tree.read? (plan.location path depth) = some node ∧
        ¬ step.container.Passable (some node) ∧
        (∀ (earlier : Nat) (passed : Step), earlier < depth →
          plan.steps[earlier]? = some passed →
            passed.container.Passable (tree.read? (plan.location path earlier))) ∧
        error = .conflict (plan.location path depth) step.container node.kind := by
  have named := Plan.namedInTurn_tokens planned
  have seen (depth : Nat) : tree.read? (plan.location path depth) =
      tree.follow? ((tokens path).take depth) := by
    rw [Tree.read?, Plan.tokens_location planned]
  simp only [seen]
  refine ⟨⟨?_, ?_⟩, ?_⟩
  · intro through depth step taken
    obtain ⟨written, assigned⟩ := (outcome_write_eq_ok_iff planned).mp through
    exact Tree.passable_of_assign_eq_ok named assigned taken
  · intro passable
    rw [outcome_write_eq_ok_iff planned]
    cases assigned : value.assign plan.steps tree with
    | ok written => exact ⟨written, rfl⟩
    | error obstacle =>
        obtain ⟨step, node, taken, reached, blocked, -, -⟩ :=
          Tree.exists_of_assign_eq_error named assigned
        have free := passable obstacle.depth step taken
        rw [reached] at free
        exact absurd free blocked
  · intro error failed
    rw [write_eq_assign planned] at failed
    cases assigned : value.assign plan.steps tree with
    | ok written => simp [assigned, Edit.done] at failed
    | error obstacle =>
        obtain ⟨step, node, taken, reached, blocked, shape, earlierPassable⟩ :=
          Tree.exists_of_assign_eq_error named assigned
        refine ⟨obstacle.depth, step, node, taken, reached, blocked,
          fun earlier passed before => earlierPassable earlier passed before, ?_⟩
        rw [assigned] at failed
        have reported := Except.error.inj failed
        rw [← reported, shape]

theorem outcome_write_below_string :
    Plan.ofPath standard.config.maxArrayIndex "..é[0].b" =
        .ok ⟨[⟨.member "é", .array, 4⟩, ⟨.element 0, .object, 7⟩], .member "b"⟩ ∧
      (standard.write "..é[0].b" .null (.object [("é", .array [some (.string "")])])).outcome ≠
        .ok () := by
  have planned : Plan.ofPath standard.config.maxArrayIndex "..é[0].b" =
      .ok ⟨[⟨.member "é", .array, 4⟩, ⟨.element 0, .object, 7⟩], .member "b"⟩ :=
    Plan.ofPath_eq_ok_iff.mpr ⟨.key 2 ['é'], [.index ['0'], .key 1 ['b']],
      by decide, by decide, by decide⟩
  refine ⟨planned, fun through => ?_⟩
  have passable := (outcome_write_of_ofPath planned).1.mp through 2 (.member "b") rfl
  have names : tokens "..é[0].b" = [.key "é", .index 0 "0", .key "b"] := by decide
  have found : (Tree.object [("é", .array [some (.string "")])]).read?
      (Plan.location "..é[0].b"
        ⟨[⟨.member "é", .array, 4⟩, ⟨.element 0, .object, 7⟩], .member "b"⟩ 2) =
        some (.string "") := by
    rw [Tree.read?, Plan.tokens_location planned, names]
    rfl
  rw [found, ContainerKind.passable_some_iff] at passable
  exact absurd passable (by decide)

end TreePath.Engine
