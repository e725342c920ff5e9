import TreePath.Proofs.Path.Grammar
import TreePath.Proofs.Tree.Reading

set_option autoImplicit false

/-!
# What looking up sees of a path with a plan

The tokens of the path name the steps of the plan, and cutting the path where a stage stops cuts
the tokens after that stage. So the texts in which a conflict is reported name the node at fault.
-/

namespace TreePath.Plan

open TreePath.Path TreePath.Text

/-- The path of the node that is reached after so many steps. -/
def location (path : String) (plan : Plan) : Nat → String
  | 0 => ""
  | depth + 1 =>
      match plan.stages[depth]? with
      | some stage => upTo path stage.stop
      | none => path

theorem upTo_eq_location {path : String} {plan : Plan} {depth reached : Nat}
    (passed : (0 :: plan.stages.map Stage.stop)[depth]? = some reached) :
    upTo path reached = plan.location path depth := by
  cases depth with
  | zero =>
      obtain rfl := Option.some.inj passed
      simp [upTo, location]
  | succ depth =>
      simp only [List.getElem?_cons_succ, List.getElem?_map, Option.map_eq_some_iff] at passed
      obtain ⟨stage, found, rfl⟩ := passed
      simp [location, found]

/-- A stage stops where the spellings up to it end. -/
theorem stop_spelled (start depth : Nat) (first : Spelling) (later : List Spelling) :
    (spelled start first later).stages[depth]?.map Stage.stop =
      if depth < later.length then
        some (start + byteLength (spell ((first :: later).take (depth + 1))))
      else none := by
  induction later generalizing start first depth with
  | nil => rfl
  | cons next rest inductionHypothesis =>
      cases depth with
      | zero => simp [spelled, via]
      | succ depth =>
          have inner := inductionHypothesis (start + byteLength first.text) depth next
          simp only [spelled, via, List.getElem?_cons_succ, inner, List.length_cons,
            Nat.add_lt_add_iff_right]
          congr 2
          simp only [List.take_succ_cons, spell_cons, byteLength_append]
          omega

variable {limit : Nat} {path : String} {plan : Plan}

/-- A stage stops between two characters, and the text before that spells the steps so far. -/
theorem toList_upTo_stop {depth : Nat} {stage : Stage} {first : Spelling} {later : List Spelling}
    (text : path.toList = spell (first :: later))
    (found : (spelled 0 first later).stages[depth]? = some stage) :
    (upTo path stage.stop).toList = spell ((first :: later).take (depth + 1)) ∧
      byteLength (upTo path stage.stop).toList = stage.stop ∧
      ∃ after, path.toList = (upTo path stage.stop).toList ++ after := by
  have cut : path.toList = spell ((first :: later).take (depth + 1)) ++
      spell ((first :: later).drop (depth + 1)) := by
    rw [text, spell, spell, spell, ← List.flatMap_append, List.take_append_drop]
  have stopped := stop_spelled 0 depth first later
  rw [found, Option.map_some, Nat.zero_add] at stopped
  have stop : stage.stop = byteLength (spell ((first :: later).take (depth + 1))) := by
    by_cases inside : depth < later.length
    · rw [if_pos inside] at stopped
      exact Option.some.inj stopped
    · rw [if_neg inside] at stopped
      cases stopped
  have before : (upTo path stage.stop).toList = spell ((first :: later).take (depth + 1)) := by
    rw [upTo, String.toList_ofList, stop, cut, takeBytes_append]
  rw [before]
  exact ⟨rfl, stop.symm, _, cut⟩

theorem tokens_location (planned : ofPath limit path = .ok plan) (depth : Nat) :
    tokens (plan.location path depth) = (tokens path).take depth := by
  obtain ⟨first, later, spelling, text, rfl⟩ := ofPath_eq_ok_iff.mp planned
  have whole : tokens path = (first :: later).map Spelling.token := by
    rw [tokens, text, spelling.tokensOf_spell]
  cases depth with
  | zero => rfl
  | succ depth =>
      rw [location]
      cases found : (spelled 0 first later).stages[depth]? with
      | some stage =>
          dsimp only
          rw [tokens, (toList_upTo_stop text found).1, (spelling.take depth).tokensOf_spell, whole,
            List.map_take]
      | none =>
          have stopped := stop_spelled 0 depth first later
          rw [found, Option.map_none] at stopped
          dsimp only
          rw [List.take_of_length_le]
          by_cases inside : depth < later.length
          · simp [inside] at stopped
          · simp only [whole, List.length_map, List.length_cons]
            omega

theorem namedInTurn_tokens (planned : ofPath limit path = .ok plan) :
    NamedInTurn plan.steps (tokens path) := by
  obtain ⟨first, later, spelling, text, rfl⟩ := ofPath_eq_ok_iff.mp planned
  rw [steps_spelled, tokens, text, spelling.tokensOf_spell, NamedInTurn, List.forall₂_map_left_iff,
    List.forall₂_map_right_iff, List.forall₂_same]
  exact fun next membership => (spelling.isValid_of_mem membership).isNamedBy_token

/-- Looking up cuts a path with a plan into one token for each of its steps: a key with its text,
an index with its value. Cut where a stage stops, the path has the tokens up to there. -/
theorem tokens_of_ofPath_eq_ok (planned : ofPath limit path = .ok plan) :
    (tokens path).length = plan.steps.length ∧
    (∀ (position : Nat) (key : String), plan.steps[position]? = some (.member key) →
      ∃ token, (tokens path)[position]? = some token ∧ token.raw = key) ∧
    (∀ position index : Nat, plan.steps[position]? = some (.element index) →
      ∃ text, (tokens path)[position]? = some (.index index text)) ∧
    ∀ (position : Nat) (stage : Stage), plan.stages[position]? = some stage →
      byteLength (upTo path stage.stop).toList = stage.stop ∧
      (∃ after, path.toList = (upTo path stage.stop).toList ++ after) ∧
      tokens (upTo path stage.stop) = (tokens path).take (position + 1) := by
  have named := namedInTurn_tokens planned
  refine ⟨named.length_eq.symm, ?_, ?_, ?_⟩
  · intro position key taken
    obtain ⟨token, found, sameText⟩ := named.exists_getElem?_eq_some taken
    exact ⟨token, found, by simpa [Step.isNamedBy] using sameText⟩
  · intro position index taken
    obtain ⟨token, found, sameValue⟩ := named.exists_getElem?_eq_some taken
    cases token with
    | key text => simp [Step.isNamedBy] at sameValue
    | index value text =>
        obtain rfl : value = index := by simpa [Step.isNamedBy] using sameValue
        exact ⟨text, found⟩
  · intro position stage found
    have upToStage := tokens_location planned (position + 1)
    simp only [location, found] at upToStage
    obtain ⟨first, later, -, text, rfl⟩ := ofPath_eq_ok_iff.mp planned
    obtain ⟨-, size, cut⟩ := toList_upTo_stop text found
    exact ⟨size, cut, upToStage⟩

theorem tokens_of_leading_zeros_and_long_key :
    ofPath 7 "..é[007].18446744073709551616" =
        .ok ⟨[⟨.member "é", .array, 4⟩, ⟨.element 7, .object, 9⟩],
          .member "18446744073709551616"⟩ ∧
      (tokens "..é[007].18446744073709551616").length = 3 ∧
      (∃ token, (tokens "..é[007].18446744073709551616")[2]? = some token ∧
        token.raw = "18446744073709551616") ∧
      (∃ text, (tokens "..é[007].18446744073709551616")[1]? = some (.index 7 text)) ∧
      tokens (upTo "..é[007].18446744073709551616" 9) =
        (tokens "..é[007].18446744073709551616").take 2 := by
  have planned : ofPath 7 "..é[007].18446744073709551616" =
      .ok ⟨[⟨.member "é", .array, 4⟩, ⟨.element 7, .object, 9⟩],
        .member "18446744073709551616"⟩ :=
    ofPath_eq_ok_iff.mpr ⟨.key 2 ['é'],
      [.index ['0', '0', '7'], .key 1 "18446744073709551616".toList],
      by decide, by decide, by decide⟩
  obtain ⟨count, keys, indices, cuts⟩ := tokens_of_ofPath_eq_ok planned
  obtain ⟨-, -, before⟩ := cuts 1 ⟨.element 7, .object, 9⟩ rfl
  exact ⟨planned, count, keys 2 _ rfl, indices 1 7 rfl, before⟩

theorem isCoherent_ofPath (planned : ofPath limit path = .ok plan) : plan.IsCoherent := by
  obtain ⟨first, later, -, -, rfl⟩ := ofPath_eq_ok_iff.mp planned
  rw [IsCoherent, kinds_spelled, steps_spelled, List.map_cons, List.tail_cons, List.map_map]
  rfl

theorem index_le_of_ofPath (planned : ofPath limit path = .ok plan) {index : Nat}
    (taken : .element index ∈ plan.steps) : index ≤ limit := by
  obtain ⟨first, later, spelling, -, rfl⟩ := ofPath_eq_ok_iff.mp planned
  rw [steps_spelled, List.mem_map] at taken
  obtain ⟨next, membership, element⟩ := taken
  cases next with
  | key dots word => simp [Spelling.step] at element
  | index digits =>
      obtain rfl := Step.element.inj element
      exact (spelling.isValid_of_mem membership).2.2.1

end TreePath.Plan
