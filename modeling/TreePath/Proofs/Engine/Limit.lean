import TreePath.Proofs.Engine.Run
import TreePath.Proofs.Path.Limit
import TreePath.Proofs.Tree.Growth

set_option autoImplicit false

/-!
# The index limit bounds arrays

The limit is checked when a path is read, and arrays grow when its value is stored. No plan has an
index over the limit, so runs of writes keep arrays within it, and the cursor never comes to an
array that could not be made long enough.
-/

namespace TreePath.Engine

open TreePath.Path TreePath.Tree

variable {engine : Engine} {path location : String} {plan : Plan} {value tree written : Tree}
  {entries : List Entry}

theorem slots_le_of_ofPath (planned : Plan.ofPath engine.config.maxArrayIndex path = .ok plan) :
    ∀ step ∈ plan.steps, step.slots ≤ engine.config.maxArrayIndex + 1 := by
  intro step taken
  cases step with
  | member key => exact Nat.zero_le _
  | element index => exact Nat.succ_le_succ (Plan.index_le_of_ofPath planned taken)

/-- Only a path that is refused is over the limit. -/
theorem ofPath_eq_indexLimit_of_outcome {index bound : Nat}
    (failed : (engine.write path value tree).outcome = .error (.indexLimit location index bound)) :
    ∃ stop, Plan.ofPath engine.config.maxArrayIndex path =
        .error (.indexLimit stop index bound) ∧
      location = Text.upTo path stop := by
  cases planned : Plan.ofPath engine.config.maxArrayIndex path with
  | error refusal =>
      rw [write_eq_stopped planned] at failed
      have reported : refusal.report path = .indexLimit location index bound :=
        Except.error.inj failed
      cases refusal with
      | indexLimit stop reached limit =>
          obtain ⟨rfl, rfl, rfl⟩ := PathError.indexLimit.inj reported
          exact ⟨stop, rfl, rfl⟩
      | _ => cases reported
  | ok plan =>
      rw [write_eq_assign planned] at failed
      cases assigned : value.assign plan.steps tree with
      | ok written => simp [assigned, Edit.done] at failed
      | error obstacle => simp [assigned, Edit.stopped] at failed

/-- What a write that goes through does to arrays: those on its way are made as long as the steps
out of them need, nothing beside it changes, and the slots outside the value grow by no more than
the steps need together. -/
theorem exists_growth_of_write_eq_ok
    (stored : (engine.write path value tree).toExcept = .ok written) :
    ∃ plan, Plan.ofPath engine.config.maxArrayIndex path = .ok plan ∧
      (∀ passed step later, plan.steps = passed ++ step :: later →
        ((written.locate? passed).getD .absent).extent =
          max ((tree.locate? passed).getD .absent).extent step.slots) ∧
      (∀ location, ¬ plan.steps <+: location → ¬ location <+: plan.steps →
        written.locate? location = tree.locate? location) ∧
      written.slotCount + ((tree.locate? plan.steps).getD .absent).slotCount ≤
        tree.slotCount + value.slotCount + slotsNeeded plan.steps := by
  rcases write_cases engine path value tree with
    ⟨plan, other, planned, assigned, done⟩ | ⟨error, stopped⟩
  · rw [done] at stored
    obtain rfl := Except.ok.inj stored
    refine ⟨plan, planned, ?_, ?_, slotCount_assign assigned⟩
    · intro passed step later split
      rw [split] at assigned
      exact extent_locate?_assign assigned
    · intro location notBelow notAbove
      exact locate?_assign_beside notBelow notAbove assigned
  · rw [stopped] at stored
    cases stored

/-- The report of an index over the limit. The text before its bracket is empty, or a path that has
a plan, so the index is the first over the limit. -/
theorem exists_of_outcome_eq_indexLimit {index bound : Nat}
    (failed : (engine.write path value tree).outcome = .error (.indexLimit location index bound)) :
    bound = engine.config.maxArrayIndex ∧ engine.config.maxArrayIndex < index ∧
      ∃ leading digits trailing,
        path.toList = leading ++ '[' :: (digits ++ ']' :: trailing) ∧
        location = String.ofList leading ∧
        (leading = [] ∨ ∃ plan, Plan.ofPath engine.config.maxArrayIndex location = .ok plan) ∧
        parseIndex? (String.ofList digits) = some index := by
  obtain ⟨stop, refused, rfl⟩ := ofPath_eq_indexLimit_of_outcome failed
  obtain ⟨rfl, exceeds, leading, digits, trailing, text, cut, spelled, parsed⟩ :=
    Plan.exists_of_ofPath_eq_indexLimit refused
  refine ⟨rfl, exceeds, leading, digits, trailing, text, cut, ?_, parsed⟩
  rw [cut]
  exact spelled

/-- Runs keep arrays within the limit. A write that goes through lengthens the arrays on its way as
far as its indices need, and changes nothing beside it. One that fails for an index reports the
limit, the index over it, and the text before the bracket of that index. The cursor never comes to
a slot that is not there. -/
theorem slots_of_run_and_write
    (bounded : tree.everywhere (hasSlotsUpTo (engine.config.maxArrayIndex + 1)) = true)
    (valuesBounded : ∀ entry ∈ entries,
      entry.2.everywhere (hasSlotsUpTo (engine.config.maxArrayIndex + 1)) = true) :
    (1 ≤ engine.config.maxArrayIndex ∧ engine.config.maxArrayIndex ≤ 0x1000000) ∧
      (engine.run entries tree).everywhere (hasSlotsUpTo (engine.config.maxArrayIndex + 1)) = true ∧
      ∀ (path : String) (value before : Tree),
        (∀ written, (engine.write path value before).toExcept = .ok written →
          ∃ plan, Plan.ofPath engine.config.maxArrayIndex path = .ok plan ∧
            (∀ passed step later, plan.steps = passed ++ step :: later →
              ((written.locate? passed).getD .absent).extent =
                max ((before.locate? passed).getD .absent).extent step.slots) ∧
            (∀ location, ¬ plan.steps <+: location → ¬ location <+: plan.steps →
              written.locate? location = before.locate? location) ∧
            written.slotCount + ((before.locate? plan.steps).getD .absent).slotCount ≤
              before.slotCount + value.slotCount + slotsNeeded plan.steps) ∧
        (∀ error, (engine.write path value before).outcome = .error error →
          (engine.write path value before).tree = before) ∧
        (∀ location index bound,
          (engine.write path value before).outcome = .error (.indexLimit location index bound) →
            bound = engine.config.maxArrayIndex ∧ engine.config.maxArrayIndex < index ∧
              ∃ leading digits trailing,
                path.toList = leading ++ '[' :: (digits ++ ']' :: trailing) ∧
                location = String.ofList leading ∧
                (leading = [] ∨
                  ∃ plan, Plan.ofPath engine.config.maxArrayIndex location = .ok plan) ∧
                parseIndex? (String.ofList digits) = some index) ∧
        ∀ plan, Plan.ofPath engine.config.maxArrayIndex path = .ok plan →
          ∀ index, .element index ∈ plan.steps → ∀ (stop : Nat) (node : Tree),
            (∃ slots, index < slots.length ∧
              ∀ edit, node.withSlot stop index edit = edit slots) ∨
            ∀ edit, node.withSlot stop index edit =
              .stopped node (.conflict stop .array node.kind) := by
  refine ⟨engine.valid, ?_, fun path value before => ⟨?_, ?_, ?_, ?_⟩⟩
  · exact everywhere_run isStable_hasSlotsUpTo (fun _ _ planned => slots_le_of_ofPath planned)
      valuesBounded bounded
  · intro written stored
    exact exists_growth_of_write_eq_ok stored
  · intro error failed
    rcases write_cases engine path value before with
      ⟨plan, other, planned, assigned, done⟩ | ⟨cause, stopped⟩
    · rw [done] at failed
      cases failed
    · rw [stopped]
      rfl
  · intro location index bound failed
    exact exists_of_outcome_eq_indexLimit failed
  · intro plan planned index taken stop node
    exact withSlot_cases (fits_of_ofPath planned _ taken) stop node

theorem slots_after_run_and_write_over_limit :
    Tree.absent.everywhere (hasSlotsUpTo (standard.config.maxArrayIndex + 1)) = true ∧
      (∀ entry ∈ [("a[2]", .null), ("a[0][1]", Tree.bool true)],
        entry.2.everywhere (hasSlotsUpTo (standard.config.maxArrayIndex + 1)) = true) ∧
      standard.run [("a[2]", .null), ("a[0][1]", .bool true)] .absent =
        object [("a", array [some (array [none, some (.bool true)]), none, some .null])] ∧
      (object [("a", array [some (array [none, some (.bool true)]), none,
        some .null])]).everywhere (hasSlotsUpTo (standard.config.maxArrayIndex + 1)) = true ∧
      (standard.write "a[1048577].b" (.bool false) .absent).outcome =
        .error (.indexLimit "a" 1048577 1048576) ∧
      ∃ leading digits trailing,
        "a[1048577].b".toList = leading ++ '[' :: (digits ++ ']' :: trailing) ∧
        "a" = String.ofList leading ∧
        (leading = [] ∨ ∃ plan, Plan.ofPath standard.config.maxArrayIndex "a" = .ok plan) ∧
        parseIndex? (String.ofList digits) = some 1048577 := by
  have plannedLater : Plan.ofPath standard.config.maxArrayIndex "a[2]" =
      .ok ⟨[⟨.member "a", .array, 1⟩], .element 2⟩ :=
    Plan.ofPath_eq_ok_iff.mpr ⟨.key 0 ['a'], [.index ['2']], by decide, by decide, by decide⟩
  have plannedDeeper : Plan.ofPath standard.config.maxArrayIndex "a[0][1]" =
      .ok ⟨[⟨.member "a", .array, 1⟩, ⟨.element 0, .array, 4⟩], .element 1⟩ :=
    Plan.ofPath_eq_ok_iff.mpr ⟨.key 0 ['a'], [.index ['0'], .index ['1']],
      by decide, by decide, by decide⟩
  have refused : Plan.ofPath standard.config.maxArrayIndex "a[1048577].b" =
      .error (.indexLimit 1 1048577 1048576) := by
    have text : "a[1048577].b".toList =
        ['a', '[', '1', '0', '4', '8', '5', '7', '7', ']', '.', 'b'] := by decide
    rw [Plan.ofPath, text]
    rfl
  have bounded : Tree.absent.everywhere (hasSlotsUpTo (standard.config.maxArrayIndex + 1)) =
      true := rfl
  have valuesBounded : ∀ entry ∈ [("a[2]", .null), ("a[0][1]", Tree.bool true)],
      entry.2.everywhere (hasSlotsUpTo (standard.config.maxArrayIndex + 1)) = true := by
    simp only [List.forall_mem_cons, List.not_mem_nil, false_implies, implies_true, and_true]
    exact ⟨rfl, rfl⟩
  have reached : standard.run [("a[2]", .null), ("a[0][1]", .bool true)] .absent =
      object [("a", array [some (array [none, some (.bool true)]), none, some .null])] := by
    simp only [run, write_eq_assign plannedLater, write_eq_assign plannedDeeper]
    rfl
  have failed : (standard.write "a[1048577].b" (.bool false) .absent).outcome =
      .error (.indexLimit "a" 1048577 1048576) := by
    rw [write_eq_stopped refused]
    rfl
  obtain ⟨-, kept, writes⟩ := slots_of_run_and_write bounded valuesBounded
  rw [reached] at kept
  obtain ⟨-, -, reports, -⟩ := writes "a[1048577].b" (.bool false) .absent
  obtain ⟨-, -, described⟩ := reports "a" 1048577 1048576 failed
  exact ⟨bounded, valuesBounded, reached, kept, failed, described⟩

end TreePath.Engine
