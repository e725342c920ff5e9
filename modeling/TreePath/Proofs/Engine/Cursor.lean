import Mathlib.Data.List.Chain
import TreePath.Proofs.Engine.Write

set_option autoImplicit false

/-!
# The calls of a write

On its way down a write makes one request after the other: of a node, that it be the container of a
step and have a place for the child there, and of the child, that it be the container that the next
step needs. `Tree.calls` lists these calls with the nodes that they meet, up to the first that is
refused, and `Call.result` is what they come to. A place is asked for in a container that was made
sure of before, and below a node that was created all else is created as well. So a call that
changes its node is followed by none that is refused.
-/

namespace TreePath

open TreePath.Path

/-- What the cursor of a write asks of a node: to have a place for the child at the end of a step,
or to be a container of some kind. -/
inductive Request where
  | place (step : Step)
  | container (kind : ContainerKind)

/-- A request to a node whose path ends at `stop`. -/
structure Call where
  request : Request
  stop : Nat
  node : Tree

/-- The requests that a write makes below a path that ends at `stop`, each with the offset at which
the path of its node ends. -/
def requestsBelow (target : Step) : List Stage → Nat → List (Request × Nat)
  | [], stop => [(.place target, stop)]
  | stage :: rest, stop =>
      (.place stage.step, stop) :: (.container stage.kind, stage.stop) ::
        requestsBelow target rest stage.stop

def Plan.requests (plan : Plan) : List (Request × Nat) :=
  requestsBelow plan.target plan.stages 0

namespace Request

/-- The node that the next request is made to. A missing child is there as `absent`. -/
def next : Request → Tree → Tree
  | place step, node => (node.at? step).getD .absent
  | container _, node => node

/-- The node of a request with the node of the next one put back in its place. -/
def surround : Request → Tree → Tree → Tree
  | place step, node, child => Tree.put step child node
  | container _, _, child => child

end Request

namespace Call

/-- What a call does to its node. -/
def edit (call : Call) : Edit Refusal :=
  match call.request with
  | .place (.member _) => call.node.withMembers call.stop fun members => .done (.object members)
  | .place (.element index) => call.node.withSlot call.stop index fun slots => .done (.array slots)
  | .container kind => Tree.ensure call.stop kind .done call.node

def refusal? (call : Call) : Option Refusal :=
  match call.edit.outcome with
  | .ok _ => none
  | .error refusal => some refusal

/-- What calls come to when the value is stored at the place that the last one asks for. -/
def result (value : Tree) : List Call → Edit Refusal
  | [] => .done value
  | call :: later =>
      match call.refusal? with
      | none => (result value later).inside (call.request.surround call.edit.tree)
      | some refusal => .stopped call.edit.tree refusal

end Call

/-- The calls that requests lead to, the first of them to the tree. None follows a refused one. -/
def Tree.calls : List (Request × Nat) → Tree → List Call
  | [], _ => []
  | (request, stop) :: rest, tree =>
      let call := Call.mk request stop tree
      call :: match call.refusal? with
        | none => calls rest (request.next call.edit.tree)
        | some _ => []

/-! ## One call -/

namespace Request

open TreePath.Tree

/-- The kind of container that grants the request. -/
def needs : Request → ContainerKind
  | place step => step.container
  | container kind => kind

def Fits : Request → Prop
  | place step => step.Fits
  | container _ => True

/-- What a node becomes when it grants a request. -/
def prepared (request : Request) (node : Tree) : Tree :=
  match request, node.opened request.needs with
  | place (.element index), .array slots => .array (Slots.reach index slots)
  | _, opened => opened

/-- A place is asked for in the container of its step. -/
def IsReady : Request → Tree → Prop
  | place step, node => step.container.accepts node = true
  | container _, _ => True

/-- Granting the request, or the one after it, creates something: the node is vacant, or there is
nothing at the end of the step. -/
def IsFresh : Request → Tree → Prop
  | place step, node => step.container.admits node = true ∧ node.at? step = none
  | container _, node => node = .absent

theorem at?_prepared_place (step : Step) (node : Tree) :
    ((place step).prepared node).at? step = node.at? step := by
  cases step <;> cases node <;>
    simp [prepared, needs, opened, Step.container, ContainerKind.empty, at?, member?, element?]

theorem put_prepared_place (step : Step) (child node : Tree) :
    put step child ((place step).prepared node) = put step child (node.opened step.container) := by
  have lengthened (index : Nat) (slots : Slots) :
      (slots.reach index).insert index child = slots.insert index child := by
    have inRange : index < (slots.reach index).length := by
      rw [Slots.length_reach]
      omega
    rw [Slots.insert, Slots.reach_of_lt_length inRange, Slots.insert]
  cases step <;> cases node <;>
    simp [prepared, needs, opened, Step.container, ContainerKind.empty, put, lengthened]

theorem surround_prepared_place (step : Step) (node : Tree) :
    (place step).surround ((place step).prepared node) =
      fun child => put step child (node.opened step.container) :=
  funext fun child => put_prepared_place step child node

theorem next_prepared_place (step : Step) (node : Tree) :
    (place step).next ((place step).prepared node) = (node.at? step).getD .absent := by
  rw [next, at?_prepared_place]

/-- Where a place has to be made, the step leads to nothing yet. -/
theorem at?_eq_none_of_prepared_ne {step : Step} {node : Tree}
    (changed : (place step).prepared node ≠ node) : node.at? step = none := by
  cases step with
  | member key =>
      cases node with
      | object members => exact absurd rfl changed
      | _ => rfl
  | element index =>
      cases node with
      | array slots =>
          by_cases inRange : index < slots.length
          · exact absurd (congrArg array (Slots.reach_of_lt_length inRange)) changed
          · simp [at?, element?, Slots.get?, List.getElem?_eq_none (Nat.le_of_not_lt inRange)]
      | _ => rfl

theorem isFresh_of_prepared_ne {request : Request} {node : Tree}
    (admitted : request.needs.admits node = true) (changed : request.prepared node ≠ node) :
    request.IsFresh node := by
  cases request with
  | place step => exact ⟨admitted, at?_eq_none_of_prepared_ne changed⟩
  | container kind =>
      cases node with
      | absent => rfl
      | _ => exact absurd rfl changed

end Request

namespace Call

open TreePath.Tree

variable {call : Call}

theorem edit_eq (fits : call.request.Fits) :
    call.edit =
      if call.request.needs.admits call.node then .done (call.request.prepared call.node)
      else .stopped call.node (.conflict call.stop call.request.needs call.node.kind) := by
  obtain ⟨request, stop, node⟩ := call
  cases request with
  | place step =>
      cases step with
      | member key => cases node <;> rfl
      | element index =>
          have reachable : ¬ maxSlots ≤ index := Nat.not_le.mpr fits
          cases node <;>
            simp [edit, withSlot, reachable, Request.needs, Request.prepared, Step.container,
              ContainerKind.admits, ContainerKind.accepts, ContainerKind.empty, isAbsent, isArray,
              opened]
  | container kind => exact ensure_eq stop kind .done node

theorem refusal?_eq (fits : call.request.Fits) :
    call.refusal? =
      if call.request.needs.admits call.node then none
      else some (.conflict call.stop call.request.needs call.node.kind) := by
  rw [refusal?, edit_eq fits]
  by_cases admitted : call.request.needs.admits call.node = true <;>
    simp [admitted, Edit.done, Edit.stopped]

theorem refusal?_eq_none_iff (fits : call.request.Fits) :
    call.refusal? = none ↔ call.request.needs.admits call.node = true := by
  rw [refusal?_eq fits]
  by_cases admitted : call.request.needs.admits call.node = true <;> simp [admitted]

theorem isFresh_of_changed (fits : call.request.Fits) (changed : call.edit.tree ≠ call.node) :
    call.request.IsFresh call.node := by
  rw [edit_eq fits] at changed
  by_cases admitted : call.request.needs.admits call.node = true
  · rw [if_pos admitted] at changed
    exact Request.isFresh_of_prepared_ne admitted changed
  · rw [if_neg admitted] at changed
    exact absurd rfl changed

theorem refusal?_eq_none_of_isReady (fits : call.request.Fits) {step : Step}
    (asked : call.request = .place step) (ready : call.request.IsReady call.node) :
    call.refusal? = none := by
  apply (refusal?_eq_none_iff fits).mpr
  rw [asked] at ready ⊢
  exact ContainerKind.admits_of_accepts ready

/-- What is refused where places are ready is that a child be a container. -/
theorem exists_kind_of_refused (fits : call.request.Fits) (ready : call.request.IsReady call.node)
    {refusal : Refusal} (refused : call.refusal? = some refusal) :
    ∃ kind, call.request = .container kind ∧
      refusal = .conflict call.stop kind call.node.kind := by
  cases asked : call.request with
  | place step =>
      rw [refusal?_eq_none_of_isReady fits asked ready] at refused
      cases refused
  | container kind =>
      refine ⟨kind, rfl, ?_⟩
      rw [refusal?_eq fits, asked] at refused
      by_cases admitted : kind.admits call.node = true
      · simp [Request.needs, admitted] at refused
      · simpa [Request.needs, admitted, eq_comm] using refused

end Call

/-! ## One call after the other -/

namespace Request

open TreePath.Tree

/-- The requests that a write makes one after the other: the child at the end of a step is to be a
container, and that of the right kind for the place of the next step. -/
inductive LeadsTo : Request → Request → Prop
  | container (step : Step) (kind : ContainerKind) : LeadsTo (place step) (container kind)
  | place (step : Step) : LeadsTo (container step.container) (place step)

variable {request following : Request} {node : Tree}

theorem IsFresh.admits (fresh : request.IsFresh node) : request.needs.admits node = true := by
  cases request with
  | place step => exact fresh.1
  | container kind =>
      obtain rfl : node = absent := fresh
      rfl

theorem LeadsTo.isReady (leads : request.LeadsTo following)
    (admitted : request.needs.admits node = true) :
    following.IsReady (request.next (request.prepared node)) := by
  cases leads with
  | container step kind => trivial
  | place step => exact accepts_opened admitted

/-- Below what was created all is created. -/
theorem LeadsTo.isFresh (leads : request.LeadsTo following) (fresh : request.IsFresh node) :
    following.IsFresh (request.next (request.prepared node)) := by
  cases leads with
  | container step kind =>
      change (((Request.place step).prepared node).at? step).getD absent = absent
      rw [at?_prepared_place, fresh.2]
      rfl
  | place step =>
      obtain rfl : node = absent := fresh
      exact ⟨ContainerKind.admits_of_accepts (ContainerKind.accepts_empty _), at?_empty _ _⟩

end Request

/-! ## All calls of a write -/

open TreePath.Tree

theorem isChain_requestsBelow {target : Step} {stages : List Stage}
    (coherent : (Plan.mk stages target).IsCoherent) (stop : Nat) :
    ((requestsBelow target stages stop).map Prod.fst).IsChain Request.LeadsTo := by
  induction stages generalizing stop with
  | nil => exact List.isChain_singleton _
  | cons stage rest inductionHypothesis =>
      have later := inductionHypothesis coherent.of_cons stage.stop
      cases rest with
      | nil =>
          have kind : stage.kind = target.container := (List.cons.inj coherent).1
          simp only [requestsBelow, List.map_cons, List.map_nil, List.isChain_cons_cons, kind]
          exact ⟨.container _ _, .place _, List.isChain_singleton _⟩
      | cons following others =>
          have kind : stage.kind = following.step.container := (List.cons.inj coherent).1
          simp only [requestsBelow, List.map_cons, List.isChain_cons_cons, kind] at later ⊢
          exact ⟨.container _ _, .place _, later⟩

theorem fits_of_mem_requestsBelow {target : Step} {stages : List Stage} {stop : Nat}
    (fits : ∀ step ∈ (Plan.mk stages target).steps, step.Fits) :
    ∀ entry ∈ requestsBelow target stages stop, entry.1.Fits := by
  induction stages generalizing stop with
  | nil =>
      intro entry membership
      obtain rfl := List.mem_singleton.mp membership
      exact fits target (by simp [Plan.steps])
  | cons stage rest inductionHypothesis =>
      obtain ⟨stageFits, restFits⟩ := List.forall_mem_cons.mp fits
      exact List.forall_mem_cons.mpr
        ⟨stageFits, List.forall_mem_cons.mpr ⟨trivial, inductionHypothesis restFits⟩⟩

variable {requests : List (Request × Nat)} {value tree : Tree}

theorem Tree.calls_cons {request : Request} (fits : request.Fits) (stop : Nat)
    (rest : List (Request × Nat)) (tree : Tree) :
    tree.calls ((request, stop) :: rest) =
      ⟨request, stop, tree⟩ ::
        if request.needs.admits tree then (request.next (request.prepared tree)).calls rest
        else [] := by
  have call := @Call.refusal?_eq ⟨request, stop, tree⟩ fits
  have edit := @Call.edit_eq ⟨request, stop, tree⟩ fits
  rw [calls, call, edit]
  by_cases admitted : request.needs.admits tree = true <;> simp [admitted, Edit.done]

/-- What the first call comes to, in terms of those after it. -/
theorem Call.result_calls_cons {request : Request} (fits : request.Fits) (value : Tree) (stop : Nat)
    (rest : List (Request × Nat)) (tree : Tree) :
    result value (tree.calls ((request, stop) :: rest)) =
      if request.needs.admits tree then
        (result value ((request.next (request.prepared tree)).calls rest)).inside
          (request.surround (request.prepared tree))
      else .stopped tree (.conflict stop request.needs tree.kind) := by
  have call := @Call.refusal?_eq ⟨request, stop, tree⟩ fits
  have edit := @Call.edit_eq ⟨request, stop, tree⟩ fits
  rw [Tree.calls_cons fits, result, call, edit]
  by_cases admitted : request.needs.admits tree = true <;>
    simp [admitted, Edit.done, Edit.stopped]

/-- A write is what its calls come to. -/
theorem store_eq_result {target : Step} {stages : List Stage}
    (fits : ∀ step ∈ (Plan.mk stages target).steps, step.Fits) (value : Tree) (stop : Nat)
    (tree : Tree) :
    store value target stages stop tree =
      Call.result value (tree.calls (requestsBelow target stages stop)) := by
  induction stages generalizing stop tree with
  | nil =>
      have targetFits : (Request.place target).Fits := fits target (by simp [Plan.steps])
      rw [store, editChild_eq targetFits, requestsBelow, Call.result_calls_cons targetFits,
        Request.surround_prepared_place]
      rfl
  | cons stage rest inductionHypothesis =>
      obtain ⟨stageFits, restFits⟩ := List.forall_mem_cons.mp fits
      have placeFits : (Request.place stage.step).Fits := stageFits
      have below (child : Tree) :
          ensure stage.stop stage.kind (store value target rest stage.stop) child =
            Call.result value (child.calls
              ((.container stage.kind, stage.stop) :: requestsBelow target rest stage.stop)) := by
        have containerFits : (Request.container stage.kind).Fits := trivial
        rw [ensure_eq, Call.result_calls_cons containerFits]
        simp only [inductionHypothesis restFits]
        rfl
      rw [store, editChild_eq stageFits, requestsBelow, Call.result_calls_cons placeFits, below,
        Request.surround_prepared_place, Request.next_prepared_place]
      rfl

/-- A write that fails is refused at its last call. -/
theorem exists_refused_of_result_eq_error {refusal : Refusal}
    (failed : (Call.result value (tree.calls requests)).outcome = .error refusal) :
    ∃ before call, tree.calls requests = before ++ [call] ∧ call.refusal? = some refusal := by
  induction requests generalizing tree with
  | nil => cases failed
  | cons entry rest inductionHypothesis =>
      obtain ⟨request, stop⟩ := entry
      rw [calls] at failed ⊢
      cases refused : (Call.mk request stop tree).refusal? with
      | none =>
          simp only [refused, Call.result] at failed ⊢
          obtain ⟨before, call, split, last⟩ := inductionHypothesis failed
          exact ⟨_ :: before, call, congrArg _ split, last⟩
      | some cause =>
          simp only [refused, Call.result] at failed ⊢
          refine ⟨[], _, rfl, ?_⟩
          rw [refused, Except.error.inj failed]

/-- What holds of the first request and is handed on by each that is granted holds of all calls. -/
theorem forall_mem_calls {holds : Request → Tree → Prop}
    (handedOn : ∀ {request following : Request} {node : Tree}, request.LeadsTo following →
      request.needs.admits node = true → holds request node →
        holds following (request.next (request.prepared node)))
    (fits : ∀ entry ∈ requests, entry.1.Fits)
    (chain : (requests.map Prod.fst).IsChain Request.LeadsTo)
    (initial : ∀ first ∈ (requests.map Prod.fst).head?, holds first tree) :
    ∀ call ∈ tree.calls requests, holds call.request call.node := by
  -- The tree is generalized: the next call is made to the child of the node as it was prepared.
  induction requests generalizing tree with
  | nil => exact List.forall_mem_nil _
  | cons entry rest inductionHypothesis =>
      obtain ⟨request, stop⟩ := entry
      obtain ⟨requestFits, restFits⟩ := List.forall_mem_cons.mp fits
      obtain ⟨leads, restChain⟩ := List.isChain_cons.mp chain
      have first := initial request rfl
      rw [calls_cons requestFits]
      refine List.forall_mem_cons.mpr ⟨first, ?_⟩
      by_cases admitted : request.needs.admits tree = true
      · rw [if_pos admitted]
        apply inductionHypothesis restFits restChain
        intro following found
        exact handedOn (leads following found) admitted first
      · rw [if_neg admitted]
        exact List.forall_mem_nil _

theorem mem_requests_of_mem_calls {call : Call} (made : call ∈ tree.calls requests) :
    (call.request, call.stop) ∈ requests := by
  induction requests generalizing tree with
  | nil => cases made
  | cons entry rest inductionHypothesis =>
      obtain ⟨request, stop⟩ := entry
      rw [calls] at made
      rcases List.mem_cons.mp made with rfl | later
      · exact List.mem_cons_self
      · cases refused : (Call.mk request stop tree).refusal? with
        | none =>
            simp only [refused] at later
            exact List.mem_cons_of_mem _ (inductionHypothesis later)
        | some cause => simp [refused] at later

/-- After the first call every place is asked for in the container of its step. -/
theorem isReady_of_mem_tail_calls (fits : ∀ entry ∈ requests, entry.1.Fits)
    (chain : (requests.map Prod.fst).IsChain Request.LeadsTo) :
    ∀ call ∈ (tree.calls requests).tail, call.request.IsReady call.node := by
  cases requests with
  | nil => exact List.forall_mem_nil _
  | cons entry rest =>
      obtain ⟨request, stop⟩ := entry
      obtain ⟨requestFits, restFits⟩ := List.forall_mem_cons.mp fits
      obtain ⟨leads, restChain⟩ := List.isChain_cons.mp chain
      rw [calls_cons requestFits, List.tail_cons]
      -- The first node may be of any kind, so the invariant starts from what the first call leaves.
      by_cases admitted : request.needs.admits tree = true
      · rw [if_pos admitted]
        apply forall_mem_calls (fun leads admitted _ => leads.isReady admitted) restFits restChain
        intro following found
        exact (leads following found).isReady admitted
      · rw [if_neg admitted]
        exact List.forall_mem_nil _

/-- Where a call is refused that is not the first, a child was to be a container. -/
theorem eq_nil_or_exists_kind_of_refused (fits : ∀ entry ∈ requests, entry.1.Fits)
    (chain : (requests.map Prod.fst).IsChain Request.LeadsTo) {before : List Call} {call : Call}
    (split : tree.calls requests = before ++ [call]) {refusal : Refusal}
    (refused : call.refusal? = some refusal) :
    before = [] ∨ ∃ kind, call.request = .container kind ∧
      refusal = .conflict call.stop kind call.node.kind := by
  cases before with
  | nil => exact Or.inl rfl
  | cons first others =>
      have later : call ∈ (tree.calls requests).tail := by
        rw [split]
        exact List.mem_append_right others List.mem_cons_self
      have callFits : call.request.Fits :=
        fits _ (mem_requests_of_mem_calls (List.mem_of_mem_tail later))
      have ready := isReady_of_mem_tail_calls fits chain call later
      exact Or.inr (Call.exists_kind_of_refused callFits ready refused)

/-- Where granting the first request creates something, no request is refused. -/
theorem refusal?_eq_none_of_isFresh (fits : ∀ entry ∈ requests, entry.1.Fits)
    (chain : (requests.map Prod.fst).IsChain Request.LeadsTo)
    (fresh : ∀ first ∈ (requests.map Prod.fst).head?, first.IsFresh tree) :
    ∀ call ∈ tree.calls requests, call.refusal? = none := by
  intro call made
  have callFits : call.request.Fits := fits _ (mem_requests_of_mem_calls made)
  have callFresh := forall_mem_calls (fun leads _ fresh => leads.isFresh fresh) fits chain fresh
    call made
  exact (Call.refusal?_eq_none_iff callFits).mpr callFresh.admits

/-- After a call that changed its node none is refused. -/
theorem pairwise_calls (fits : ∀ entry ∈ requests, entry.1.Fits)
    (chain : (requests.map Prod.fst).IsChain Request.LeadsTo) (tree : Tree) :
    (tree.calls requests).Pairwise fun call later =>
      call.edit.tree ≠ call.node → later.refusal? = none := by
  induction requests generalizing tree with
  | nil => exact List.Pairwise.nil
  | cons entry rest inductionHypothesis =>
      obtain ⟨request, stop⟩ := entry
      obtain ⟨requestFits, restFits⟩ := List.forall_mem_cons.mp fits
      have whole := @refusal?_eq_none_of_isFresh _ tree fits chain
      rw [calls_cons requestFits] at whole ⊢
      refine List.pairwise_cons.mpr ⟨?_, ?_⟩
      · intro later inLater changed
        have fresh := @Call.isFresh_of_changed ⟨request, stop, tree⟩ requestFits changed
        have granted := whole fun first found => by
          obtain rfl := Option.some.inj found
          exact fresh
        exact granted later (List.mem_cons_of_mem _ inLater)
      · by_cases admitted : request.needs.admits tree = true
        · rw [if_pos admitted]
          exact inductionHypothesis restFits (List.isChain_cons.mp chain).2 _
        · rw [if_neg admitted]
          exact List.Pairwise.nil

namespace Engine

variable {engine : Engine} {path : String} {plan : Plan}

/-- A planned write is what its calls come to. After the first of them a place is only asked for in
the container that its step needs, so nothing is created or refused there. A failure is the refusal
of the last call; unless that is also the first, a child was to be a container and is a node of
another kind. After a call that changed its node, by making a vacant one a container or by
lengthening an array, none is refused. -/
theorem write_eq_result_calls
    (planned : Plan.ofPath engine.config.maxArrayIndex path = .ok plan) (value tree : Tree) :
    engine.write path value tree =
      (Call.result value (tree.calls plan.requests)).mapCause (Refusal.report path) ∧
    (∀ call ∈ (tree.calls plan.requests).tail, ∀ step, call.request = .place step →
      step.container.accepts call.node = true ∧ call.refusal? = none) ∧
    (∀ error, (engine.write path value tree).outcome = .error error →
      ∃ before call refusal, tree.calls plan.requests = before ++ [call] ∧
        call.refusal? = some refusal ∧ error = refusal.report path ∧
        (before = [] ∨ ∃ kind, call.request = .container kind ∧
          refusal = .conflict call.stop kind call.node.kind)) ∧
    (tree.calls plan.requests).Pairwise fun call later =>
      call.edit.tree ≠ call.node → later.refusal? = none := by
  have fits : ∀ entry ∈ plan.requests, entry.1.Fits :=
    fits_of_mem_requestsBelow (fits_of_ofPath planned)
  have chain : (plan.requests.map Prod.fst).IsChain Request.LeadsTo :=
    isChain_requestsBelow (Plan.isCoherent_ofPath planned) 0
  have whole : engine.write path value tree =
      (Call.result value (tree.calls plan.requests)).mapCause (Refusal.report path) := by
    rw [write, Tree.write, planned, Plan.requests, ← store_eq_result (fits_of_ofPath planned)]
  refine ⟨whole, ?_, ?_, pairwise_calls fits chain tree⟩
  · intro call made step asked
    have callFits : call.request.Fits :=
      fits _ (mem_requests_of_mem_calls (List.mem_of_mem_tail made))
    have accepted := isReady_of_mem_tail_calls fits chain call made
    have granted := Call.refusal?_eq_none_of_isReady callFits asked accepted
    rw [asked] at accepted
    exact ⟨accepted, granted⟩
  · intro error failed
    rw [whole] at failed
    cases outcome : (Call.result value (tree.calls plan.requests)).outcome with
    | ok _ =>
        rw [Edit.mapCause, outcome] at failed
        cases failed
    | error refusal =>
        rw [Edit.mapCause, outcome] at failed
        obtain ⟨before, call, split, refused⟩ := exists_refused_of_result_eq_error outcome
        exact ⟨before, call, refusal, split, refused, (Except.error.inj failed).symm,
          eq_nil_or_exists_kind_of_refused fits chain split refused⟩

theorem calls_of_write_below_string :
    Plan.ofPath standard.config.maxArrayIndex "a[1].b" =
        .ok ⟨[⟨.member "a", .array, 1⟩, ⟨.element 1, .object, 4⟩], .member "b"⟩ ∧
      (Tree.object [("a", .array [none, some (.string "")])]).calls
          (Plan.requests ⟨[⟨.member "a", .array, 1⟩, ⟨.element 1, .object, 4⟩], .member "b"⟩) =
        [⟨.place (.member "a"), 0, .object [("a", .array [none, some (.string "")])]⟩,
          ⟨.container .array, 1, .array [none, some (.string "")]⟩,
          ⟨.place (.element 1), 1, .array [none, some (.string "")]⟩,
          ⟨.container .object, 4, .string ""⟩] ∧
      (standard.write "a[1].b" .null (.object [("a", .array [none, some (.string "")])])).outcome =
        .error (.conflict "a[1]" .object .string) ∧
      (Call.mk (.place (.element 1)) 1 (.array [none, some (.string "")])).refusal? = none ∧
      (Call.mk (.container .object) 4 (.string "")).refusal? =
        some (.conflict 4 .object .string) := by
  have planned : Plan.ofPath standard.config.maxArrayIndex "a[1].b" =
      .ok ⟨[⟨.member "a", .array, 1⟩, ⟨.element 1, .object, 4⟩], .member "b"⟩ :=
    Plan.ofPath_eq_ok_iff.mpr ⟨.key 0 ['a'], [.index ['1'], .key 1 ['b']],
      by decide, by decide, by decide⟩
  have failed : (standard.write "a[1].b" .null
      (.object [("a", .array [none, some (.string "")])])).outcome =
        .error (.conflict "a[1]" .object .string) := by
    rw [write_eq_assign planned]
    rfl
  have listed : (Tree.object [("a", .array [none, some (.string "")])]).calls
      (Plan.requests ⟨[⟨.member "a", .array, 1⟩, ⟨.element 1, .object, 4⟩], .member "b"⟩) =
        [⟨.place (.member "a"), 0, .object [("a", .array [none, some (.string "")])]⟩,
          ⟨.container .array, 1, .array [none, some (.string "")]⟩,
          ⟨.place (.element 1), 1, .array [none, some (.string "")]⟩,
          ⟨.container .object, 4, .string ""⟩] := rfl
  obtain ⟨-, places, refusals, -⟩ := write_eq_result_calls planned .null
    (.object [("a", .array [none, some (.string "")])])
  rw [listed] at places refusals
  obtain ⟨before, call, refusal, split, refused, -, last⟩ := refusals _ failed
  obtain ⟨rfl, only⟩ := List.append_inj' (show [_, _, _] ++ [_] = before ++ [call] from split) rfl
  obtain rfl := List.singleton_inj.mp only
  refine ⟨planned, listed, failed, ?_, ?_⟩
  · exact (places _ (List.mem_cons_of_mem _ List.mem_cons_self) _ rfl).2
  · rcases last with ended | ⟨kind, asked, rfl⟩
    · cases ended
    · cases asked
      exact refused

end Engine

end TreePath
