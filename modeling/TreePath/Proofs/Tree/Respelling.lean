import TreePath.Proofs.Path.Rendering

set_option autoImplicit false

/-!
# Storing through another spelling of a path

What a write does to a tree hangs on the steps of its plan and on nothing else in the path. The
byte offsets of the plan show only in refusals, which name the node at fault by the text up to it.
So planning a path and rendering the steps of its plan undo each other, and a value may be stored
through the one text or the other.
-/

namespace TreePath

open TreePath.Path

namespace Edit

variable {Cause Other : Type}

/-- Edits that leave the same tree, and both go through or are stopped by related causes. -/
inductive Agrees (related : Cause → Other → Prop) : Edit Cause → Edit Other → Prop
  | done (tree : Tree) : Agrees related (.done tree) (.done tree)
  | stopped (tree : Tree) {cause : Cause} {other : Other} (causes : related cause other) :
      Agrees related (.stopped tree cause) (.stopped tree other)

namespace Agrees

variable {related : Cause → Other → Prop} {edit : Edit Cause} {other : Edit Other}

theorem inside (agree : Agrees related edit other) (surround : Tree → Tree) :
    Agrees related (edit.inside surround) (other.inside surround) := by
  cases agree with
  | done tree => exact .done (surround tree)
  | stopped tree causes => exact .stopped (surround tree) causes

theorem mapCause {First Second : Type} {stronger : First → Second → Prop} {edit : Edit First}
    {other : Edit Second} (agree : Agrees stronger edit other) {report : First → Cause}
    {otherReport : Second → Other}
    (reported : ∀ cause otherCause, stronger cause otherCause →
      related (report cause) (otherReport otherCause)) :
    Agrees related (edit.mapCause report) (other.mapCause otherReport) := by
  cases agree with
  | done tree => exact .done tree
  | stopped tree causes => exact .stopped tree (reported _ _ causes)

theorem imp {weaker : Cause → Other → Prop} (agree : Agrees related edit other)
    (implied : ∀ cause otherCause, related cause otherCause → weaker cause otherCause) :
    Agrees weaker edit other := by
  cases agree with
  | done tree => exact .done tree
  | stopped tree causes => exact .stopped tree (implied _ _ causes)

theorem tree_eq (agree : Agrees related edit other) : edit.tree = other.tree := by
  cases agree <;> rfl

theorem outcome_eq_ok_iff (agree : Agrees related edit other) :
    edit.outcome = .ok () ↔ other.outcome = .ok () := by
  cases agree <;> simp [Edit.done, Edit.stopped]

theorem related_of_outcome_eq_error (agree : Agrees related edit other) {cause : Cause}
    {otherCause : Other} (failed : edit.outcome = .error cause)
    (otherFailed : other.outcome = .error otherCause) : related cause otherCause := by
  cases agree with
  | done tree => cases failed
  | stopped tree causes =>
      obtain rfl := Except.error.inj failed
      obtain rfl := Except.error.inj otherFailed
      exact causes

end Agrees

end Edit

/-- The same refusal at the same depth of two plans, whose locations end at these offsets. -/
inductive SameRefusal (stops others : List Nat) : Refusal → Refusal → Prop
  | indexLimit {depth stop other : Nat} (found : stops[depth]? = some stop)
      (otherFound : others[depth]? = some other) (index limit : Nat) :
      SameRefusal stops others (.indexLimit stop index limit) (.indexLimit other index limit)
  | conflict {depth stop other : Nat} (found : stops[depth]? = some stop)
      (otherFound : others[depth]? = some other) (expected : ContainerKind) (node : Kind) :
      SameRefusal stops others (.conflict stop expected node) (.conflict other expected node)

/-- The same report for the same depth of two paths, with the location in the words of each. -/
inductive SameReport (location other : Nat → String) : PathError → PathError → Prop
  | indexLimit (depth index limit : Nat) :
      SameReport location other (.indexLimit (location depth) index limit)
        (.indexLimit (other depth) index limit)
  | conflict (depth : Nat) (expected : ContainerKind) (node : Kind) :
      SameReport location other (.conflict (location depth) expected node)
        (.conflict (other depth) expected node)

theorem SameRefusal.below {stops others : List Nat} {refusal otherRefusal : Refusal}
    (same : SameRefusal stops others refusal otherRefusal) (stop other : Nat) :
    SameRefusal (stop :: stops) (other :: others) refusal otherRefusal := by
  cases same with
  | @indexLimit depth _ _ found otherFound index limit =>
      exact @indexLimit _ _ (depth + 1) _ _ found otherFound index limit
  | @conflict depth _ _ found otherFound expected node =>
      exact @conflict _ _ (depth + 1) _ _ found otherFound expected node

theorem SameRefusal.report {path otherPath : String} {plan otherPlan : Plan}
    {refusal otherRefusal : Refusal}
    (same : SameRefusal (0 :: plan.stages.map Stage.stop) (0 :: otherPlan.stages.map Stage.stop)
      refusal otherRefusal) :
    SameReport (plan.location path) (otherPlan.location otherPath) (refusal.report path)
      (otherRefusal.report otherPath) := by
  cases same with
  | indexLimit found otherFound index limit =>
      rw [Refusal.report, Refusal.report, Plan.upTo_eq_location found,
        Plan.upTo_eq_location otherFound]
      exact .indexLimit _ index limit
  | conflict found otherFound expected node =>
      rw [Refusal.report, Refusal.report, Plan.upTo_eq_location found,
        Plan.upTo_eq_location otherFound]
      exact .conflict _ expected node

namespace Tree

section Cursor

variable {stop other : Nat} {stops others : List Nat} {edit otherEdit : Tree → Edit Refusal}

theorem editChild_agrees
    (children : ∀ child, (edit child).Agrees (SameRefusal (stop :: stops) (other :: others))
      (otherEdit child)) (step : Step) (tree : Tree) :
    (editChild stop step edit tree).Agrees (SameRefusal (stop :: stops) (other :: others))
      (editChild other step otherEdit tree) := by
  have refused (expected : ContainerKind) (node : Tree) :
      (Edit.stopped node (.conflict stop expected node.kind)).Agrees
        (SameRefusal (stop :: stops) (other :: others))
        (.stopped node (.conflict other expected node.kind)) :=
    .stopped node (@SameRefusal.conflict _ _ 0 _ _ rfl rfl expected node.kind)
  cases step with
  | member key =>
      have opened (members : Members) :
          (editChild stop (.member key) edit (object members)).Agrees
            (SameRefusal (stop :: stops) (other :: others))
            (editChild other (.member key) otherEdit (object members)) := by
        simp only [editChild, withMembers]
        exact (children _).inside _
      cases tree with
      | absent => exact opened []
      | object members => exact opened members
      | _ => exact refused .object _
  | element index =>
      have lengthened (slots : Slots) :
          (editChild stop (.element index) edit (array slots)).Agrees
            (SameRefusal (stop :: stops) (other :: others))
            (editChild other (.element index) otherEdit (array slots)) := by
        simp only [editChild, withSlot]
        by_cases full : slots.length ≤ index ∧ maxSlots ≤ index
        · rw [if_pos full, if_pos full]
          exact .stopped _ (@SameRefusal.indexLimit _ _ 0 _ _ rfl rfl index (maxSlots - 1))
        · rw [if_neg full, if_neg full]
          exact (children _).inside _
      cases tree with
      | absent => exact lengthened []
      | array slots => exact lengthened slots
      | _ => exact refused .array _

theorem ensure_agrees
    (children : ∀ child, (edit child).Agrees (SameRefusal (stop :: stops) (other :: others))
      (otherEdit child)) (kind : ContainerKind) (tree : Tree) :
    (ensure stop kind edit tree).Agrees (SameRefusal (stop :: stops) (other :: others))
      (ensure other kind otherEdit tree) := by
  rw [ensure_eq, ensure_eq]
  by_cases admitted : kind.admits tree = true
  · rw [if_pos admitted, if_pos admitted]
    exact children _
  · rw [if_neg admitted, if_neg admitted]
    exact .stopped tree (@SameRefusal.conflict _ _ 0 _ _ rfl rfl kind tree.kind)

end Cursor

/-- Going down stages that differ in their offsets alone comes to the same end. -/
theorem store_agrees {value : Tree} {target : Step} {stages others : List Stage}
    (steps : stages.map Stage.step = others.map Stage.step)
    (kinds : stages.map Stage.kind = others.map Stage.kind) (stop other : Nat) (tree : Tree) :
    (store value target stages stop tree).Agrees
      (SameRefusal (stop :: stages.map Stage.stop) (other :: others.map Stage.stop))
      (store value target others other tree) := by
  induction stages generalizing others stop other tree with
  | nil =>
      obtain rfl : others = [] := List.map_eq_nil_iff.mp steps.symm
      apply editChild_agrees
      intro child
      exact .done value
  | cons stage rest inductionHypothesis =>
      cases others with
      | nil => cases steps
      | cons otherStage otherRest =>
          simp only [List.map_cons, List.cons.injEq] at steps kinds
          obtain ⟨sameStep, restSteps⟩ := steps
          obtain ⟨sameKind, restKinds⟩ := kinds
          rw [store, store, ← sameStep, ← sameKind]
          apply editChild_agrees
          intro child
          have below := ensure_agrees
            (inductionHypothesis restSteps restKinds stage.stop otherStage.stop) stage.kind child
          apply below.imp
          intro refusal otherRefusal same
          exact same.below stop other

/-- Writes through paths of the same steps do the same. -/
theorem write_agrees {limit : Nat} {path otherPath : String} {plan otherPlan : Plan}
    (planned : Plan.ofPath limit path = .ok plan)
    (otherPlanned : Plan.ofPath limit otherPath = .ok otherPlan)
    (steps : plan.steps = otherPlan.steps) (value tree : Tree) :
    (tree.write limit path value).Agrees
      (SameReport (plan.location path) (otherPlan.location otherPath))
      (tree.write limit otherPath value) := by
  have kinds : plan.stages.map Stage.kind = otherPlan.stages.map Stage.kind := by
    rw [Plan.isCoherent_ofPath planned, Plan.isCoherent_ofPath otherPlanned, steps]
  obtain ⟨stageSteps, lastStep⟩ := List.append_inj' steps rfl
  have targets : plan.target = otherPlan.target := List.singleton_inj.mp lastStep
  rw [write, write, planned, otherPlanned]
  simp only [← targets]
  apply (store_agrees stageSteps kinds 0 0 tree).mapCause
  intro refusal otherRefusal same
  exact same.report

end Tree

/-- Rendering and planning undo each other. A rendered location of steps that a path can spell has
the plan and the tokens of these steps. A path with a plan has the plan of its rendered steps, and
writes through the two texts do the same; a report names the same location in either. -/
theorem ofPath_render_and_write_render {limit : Nat} (bounded : limit < indexBound) :
    (∀ location : List Step, location ≠ [] →
      (∀ step ∈ location, step.isWritable limit = true) →
        (∃ plan, Plan.ofPath limit (render location) = .ok plan ∧ plan.steps = location ∧
          plan.stages.map Stage.kind = location.tail.map Step.container) ∧
        tokens (render location) = location.map Step.token) ∧
    ∀ path plan, Plan.ofPath limit path = .ok plan →
      (∃ rendered, Plan.ofPath limit (render plan.steps) = .ok rendered ∧
        rendered.steps = plan.steps ∧
        rendered.stages.map Stage.kind = plan.stages.map Stage.kind) ∧
      (∀ otherPath otherPlan, Plan.ofPath limit otherPath = .ok otherPlan →
        render plan.steps = render otherPlan.steps → plan.steps = otherPlan.steps) ∧
      ∀ value tree : Tree,
        (tree.write limit path value).tree = (tree.write limit (render plan.steps) value).tree ∧
        ((tree.write limit path value).outcome = .ok () ↔
          (tree.write limit (render plan.steps) value).outcome = .ok ()) ∧
        ∀ error otherError, (tree.write limit path value).outcome = .error error →
          (tree.write limit (render plan.steps) value).outcome = .error otherError →
            SameReport (plan.location path) (fun depth => render (plan.steps.take depth)) error
              otherError := by
  constructor
  · intro location nonempty writable
    obtain ⟨plan, planned, steps⟩ := Plan.exists_ofPath_render bounded nonempty writable
    have kinds := Plan.isCoherent_ofPath planned
    rw [Plan.IsCoherent, steps] at kinds
    exact ⟨⟨plan, planned, steps, kinds⟩, tokens_render bounded writable⟩
  · intro path plan planned
    have writable := Plan.isWritable_steps planned
    have nonempty : plan.steps ≠ [] := by simp [Plan.steps]
    obtain ⟨rendered, renderedPlanned, steps⟩ :=
      Plan.exists_ofPath_render bounded nonempty writable
    refine ⟨⟨rendered, renderedPlanned, steps, ?_⟩, ?_, ?_⟩
    · rw [Plan.isCoherent_ofPath renderedPlanned, Plan.isCoherent_ofPath planned, steps]
    · intro otherPath otherPlan otherPlanned same
      have otherNonempty : otherPlan.steps ≠ [] := by simp [Plan.steps]
      exact render_injective bounded nonempty otherNonempty writable
        (Plan.isWritable_steps otherPlanned) same
    · intro value tree
      have agree := Tree.write_agrees planned renderedPlanned steps.symm value tree
      have locations : rendered.location (render plan.steps) =
          fun depth => render (plan.steps.take depth) := by
        funext depth
        rw [← steps] at renderedPlanned ⊢
        exact Plan.location_render bounded renderedPlanned depth
      rw [locations] at agree
      refine ⟨agree.tree_eq, agree.outcome_eq_ok_iff, ?_⟩
      intro error otherError failed otherFailed
      exact agree.related_of_outcome_eq_error failed otherFailed

theorem render_of_dots_and_leading_zeros :
    1048576 < indexBound ∧
      Plan.ofPath 1048576 "..7[007]" = .ok ⟨[⟨.member "7", .array, 3⟩], .element 7⟩ ∧
      (∃ plan, Plan.ofPath 1048576 "7[7]" = .ok plan ∧ plan.steps = [.member "7", .element 7]) ∧
      tokens "7[7]" = [.index 7 "7", .index 7 "7"] ∧
      (Tree.write (.object [("7", .null)]) 1048576 "..7[007]" .null).outcome =
        .error (.conflict "..7" .array .null) ∧
      (Tree.write (.object [("7", .null)]) 1048576 "7[7]" .null).outcome =
        .error (.conflict "7" .array .null) ∧
      (Tree.write (.object [("7", .null)]) 1048576 "..7[007]" .null).tree =
        (Tree.write (.object [("7", .null)]) 1048576 "7[7]" .null).tree := by
  have bounded : 1048576 < indexBound := by decide
  have planned : Plan.ofPath 1048576 "..7[007]" =
      .ok ⟨[⟨.member "7", .array, 3⟩], .element 7⟩ :=
    Plan.ofPath_eq_ok_iff.mpr ⟨.key 2 ['7'], [.index ['0', '0', '7']],
      by decide, by decide, by decide⟩
  have renderedPlanned : Plan.ofPath 1048576 "7[7]" =
      .ok ⟨[⟨.member "7", .array, 1⟩], .element 7⟩ :=
    Plan.ofPath_eq_ok_iff.mpr ⟨.key 0 ['7'], [.index ['7']], by decide, by decide, by decide⟩
  obtain ⟨printed, planning⟩ := ofPath_render_and_write_render bounded
  obtain ⟨⟨plan, printedPlanned, steps, -⟩, names⟩ := printed [.member "7", .element 7]
    (by decide) (by decide)
  obtain ⟨-, -, writes⟩ := planning _ _ planned
  obtain ⟨trees, -, -⟩ := writes .null (.object [("7", .null)])
  refine ⟨bounded, planned, ⟨plan, printedPlanned, steps⟩, names, ?_, ?_, trees⟩
  · rw [Tree.write, planned]
    decide
  · rw [Tree.write, renderedPlanned]
    decide

end TreePath
