import TreePath.Proofs.Path.Location

set_option autoImplicit false

/-!
# Rendered locations

The path text of a location spells its steps in one way: a single dot before every key but the
first, and indices in plain decimal. So a rendered location of plain keys has a plan with its
steps, its tokens name them, and no other location is rendered the same. Tokens name no other
locations than these.
-/

namespace TreePath

open TreePath.Path

/-- How a step is spelled in a rendered path, behind so many dots if it is a key. -/
def Step.spelling (dots : Nat) : Step → Spelling
  | member key => .key dots key.toList
  | element index => .index (Nat.toDigits 10 index)

/-- How a location is spelled when it is rendered. -/
def canonicalSpelling : List Step → List Spelling
  | [] => []
  | first :: later => first.spelling 0 :: later.map (Step.spelling 1)

namespace Step

theorem isPlainKey_iff {key : String} :
    isPlainKey key = true ↔ key.toList ≠ [] ∧ unmarked key.toList = true := by
  simp [isPlainKey]

@[simp] theorem step_spelling (dots : Nat) (step : Step) : (step.spelling dots).step = step := by
  cases step with
  | member key => simp [spelling, Spelling.step]
  | element index => simp [spelling, Spelling.step]

theorem isMarked_spelling (dots : Nat) (step : Step) : (step.spelling (dots + 1)).IsMarked := by
  cases step with
  | member key => exact Nat.succ_pos dots
  | element index => trivial

theorem isValid_spelling {limit : Nat} (bounded : limit < indexBound) (dots : Nat) {step : Step}
    (writable : step.isWritable limit = true) : (step.spelling dots).IsValid limit := by
  cases step with
  | member key =>
      obtain ⟨nonempty, plain⟩ := isPlainKey_iff.mp writable
      exact ⟨nonempty, unmarked_iff.mp plain⟩
  | element index =>
      have withinLimit : index ≤ limit := of_decide_eq_true writable
      have value : Nat.ofDigitChars 10 (Nat.toDigits 10 index) 0 = index :=
        Nat.ofDigitChars_ten_toDigits
      refine ⟨Nat.toDigits_ne_nil, ?_, ?_, ?_⟩
      · exact fun character => Nat.isDigit_of_mem_toDigits (by decide) (by decide)
      · rw [value]
        exact withinLimit
      · rw [value]
        exact Nat.lt_of_le_of_lt withinLimit bounded

/-- Behind a path that is not empty, every step is set off by a mark. -/
theorem toList_extend {path : String} (nonempty : path ≠ "") (step : Step) :
    (step.extend path).toList = path.toList ++ (step.spelling 1).text := by
  cases step with
  | member key => simp [extend, nonempty, spelling, Spelling.text]
  | element index => simp [extend, spelling, Spelling.text]

theorem toList_extend_empty (step : Step) :
    (step.extend "").toList = (step.spelling 0).text := by
  cases step <;> simp [extend, spelling, Spelling.text]

theorem extend_ne_empty {limit : Nat} {step : Step} (writable : step.isWritable limit = true)
    (path : String) : step.extend path ≠ "" := by
  intro empty
  have noText := String.toList_eq_nil_iff.mpr empty
  cases step with
  | member key =>
      have nonempty := (isPlainKey_iff.mp writable).1
      by_cases atRoot : path = ""
      · rw [atRoot, toList_extend_empty] at noText
        exact nonempty (by simpa [spelling, Spelling.text] using noText)
      · simp [toList_extend atRoot, spelling, Spelling.text] at noText
  | element index => simp [extend] at noText

end Step

theorem toList_foldl_extend {limit : Nat} {location : List Step} {path : String}
    (writable : ∀ step ∈ location, step.isWritable limit = true) (nonempty : path ≠ "") :
    (location.foldl Step.extend path).toList =
      path.toList ++ spell (location.map (Step.spelling 1)) := by
  induction location generalizing path with
  | nil => simp
  | cons step rest inductionHypothesis =>
      obtain ⟨stepWritable, restWritable⟩ := List.forall_mem_cons.mp writable
      have extended := Step.extend_ne_empty stepWritable path
      rw [List.foldl_cons, inductionHypothesis restWritable extended, Step.toList_extend nonempty]
      simp

variable {limit : Nat} {location other : List Step}

theorem toList_render (writable : ∀ step ∈ location, step.isWritable limit = true) :
    (render location).toList = spell (canonicalSpelling location) := by
  cases location with
  | nil => rfl
  | cons first later =>
      obtain ⟨firstWritable, laterWritable⟩ := List.forall_mem_cons.mp writable
      have extended := Step.extend_ne_empty firstWritable ""
      rw [render, List.foldl_cons, toList_foldl_extend laterWritable extended,
        Step.toList_extend_empty]
      rfl

theorem isSpelled_canonicalSpelling (bounded : limit < indexBound) (nonempty : location ≠ [])
    (writable : ∀ step ∈ location, step.isWritable limit = true) :
    IsSpelled limit (canonicalSpelling location) := by
  cases location with
  | nil => exact absurd rfl nonempty
  | cons first later =>
      obtain ⟨firstWritable, laterWritable⟩ := List.forall_mem_cons.mp writable
      refine ⟨Step.isValid_spelling bounded 0 firstWritable, ?_⟩
      intro next membership
      obtain ⟨step, taken, rfl⟩ := List.mem_map.mp membership
      exact ⟨Step.isValid_spelling bounded 1 (laterWritable step taken), step.isMarked_spelling 0⟩

/-- A rendered location has a plan that takes its steps. -/
theorem Plan.exists_ofPath_render (bounded : limit < indexBound) (nonempty : location ≠ [])
    (writable : ∀ step ∈ location, step.isWritable limit = true) :
    ∃ plan, Plan.ofPath limit (render location) = .ok plan ∧ plan.steps = location := by
  have spelled := isSpelled_canonicalSpelling bounded nonempty writable
  have text := toList_render writable
  cases location with
  | nil => exact absurd rfl nonempty
  | cons first later =>
      refine ⟨_, Plan.ofPath_eq_ok_iff.mpr ⟨_, _, spelled, text, rfl⟩, ?_⟩
      rw [Plan.steps_spelled]
      simp [Function.comp_def]

/-! ## Locations that tokens name -/

theorem isPlainKey_raw {path : String} {token : Token} (membership : token ∈ tokens path) :
    isPlainKey token.raw = true := by
  obtain ⟨word, found, rfl⟩ := List.mem_map.mp membership
  obtain ⟨inWords, nonempty⟩ := List.mem_filter.mp found
  rw [Token.raw_ofText, Step.isPlainKey_iff, String.toList_ofList]
  exact ⟨by simpa using nonempty, Pieces.unmarked_of_mem_words inWords⟩

theorem value_lt_indexBound {path text : String} {value : Nat}
    (membership : .index value text ∈ tokens path) : value < indexBound := by
  obtain ⟨word, -, shape⟩ := List.mem_map.mp membership
  unfold Token.ofText at shape
  split at shape
  · rename_i number parsed
    obtain ⟨rfl, -⟩ := Token.index.inj shape
    exact (parseIndex?_eq_some_iff.mp parsed).2.2.2
  · cases shape

theorem NamedInTurn.exists_token {tokens : List Token} {step : Step}
    (named : NamedInTurn location tokens) (taken : step ∈ location) :
    ∃ token ∈ tokens, step.isNamedBy token = true := by
  obtain ⟨position, found⟩ := List.mem_iff_getElem?.mp taken
  obtain ⟨token, tokenFound, stepNamed⟩ := named.exists_getElem?_eq_some found
  exact ⟨token, List.mem_of_getElem? tokenFound, stepNamed⟩

/-- The tokens of a path name plain keys, and indices that fit a word. -/
theorem isWritable_of_namedInTurn {path : String} (named : NamedInTurn location (tokens path)) :
    ∀ step ∈ location, step.isWritable (indexBound - 1) = true := by
  intro step taken
  obtain ⟨token, inPath, stepNamed⟩ := named.exists_token taken
  cases step with
  | member key =>
      have sameText : token.raw = key := by simpa [Step.isNamedBy] using stepNamed
      rw [Step.isWritable, ← sameText]
      exact isPlainKey_raw inPath
  | element index =>
      cases token with
      | key text => simp [Step.isNamedBy] at stepNamed
      | index value text =>
          have sameValue : value = index := by simpa [Step.isNamedBy] using stepNamed
          have bounded := value_lt_indexBound inPath
          rw [sameValue] at bounded
          exact decide_eq_true (Nat.le_sub_one_of_lt bounded)

/-- A plan takes steps that a path can spell. -/
theorem Plan.isWritable_steps {path : String} {plan : Plan}
    (planned : Plan.ofPath limit path = .ok plan) :
    ∀ step ∈ plan.steps, step.isWritable limit = true := by
  intro step taken
  cases step with
  | member key =>
      exact isWritable_of_namedInTurn (Plan.namedInTurn_tokens planned) (.member key) taken
  | element index => exact decide_eq_true (Plan.index_le_of_ofPath planned taken)

/-! ## Rendered locations as tokens and plans -/

/-- The token of a step in a rendered path: the text of a key, or an index in plain decimal. -/
def Step.token : Step → Token
  | member key => Token.ofText key
  | element index => .index index (toString index)

theorem Step.token_spelling (bounded : limit < indexBound) (dots : Nat) {step : Step}
    (writable : step.isWritable limit = true) : (step.spelling dots).token = step.token := by
  cases step with
  | member key => simp [spelling, Spelling.token, Spelling.word, token]
  | element index =>
      have named := (isValid_spelling bounded dots writable).isNamedBy_token
      rw [step_spelling] at named
      have text : (spelling dots (element index)).token.raw = toString index := by
        rw [Spelling.token, Token.raw_ofText]
        rfl
      cases shape : (spelling dots (element index)).token with
      | key word => simp [shape, isNamedBy] at named
      | index value word =>
          simp only [shape, isNamedBy, beq_iff_eq] at named
          simp only [shape, Token.raw] at text
          rw [named, text, token]

/-- Looking a rendered location up sees the tokens of its steps. -/
theorem tokens_render (bounded : limit < indexBound)
    (writable : ∀ step ∈ location, step.isWritable limit = true) :
    tokens (render location) = location.map Step.token := by
  cases location with
  | nil => rfl
  | cons first later =>
      have spelled := isSpelled_canonicalSpelling bounded (List.cons_ne_nil first later) writable
      obtain ⟨firstWritable, laterWritable⟩ := List.forall_mem_cons.mp writable
      rw [tokens, toList_render writable, spelled.tokensOf_spell, canonicalSpelling, List.map_cons,
        List.map_cons, Step.token_spelling bounded 0 firstWritable, List.map_map]
      refine congrArg _ (List.map_congr_left fun step taken => ?_)
      exact Step.token_spelling bounded 1 (laterWritable step taken)

theorem canonicalSpelling_take (location : List Step) (depth : Nat) :
    canonicalSpelling (location.take depth) = (canonicalSpelling location).take depth := by
  cases location with
  | nil => simp [canonicalSpelling]
  | cons first later =>
      cases depth with
      | zero => rfl
      | succ depth => simp [canonicalSpelling, List.map_take]

/-- Cut after some of its steps, a rendered location is those steps rendered. -/
theorem Plan.location_render (bounded : limit < indexBound) {plan : Plan}
    (planned : Plan.ofPath limit (render plan.steps) = .ok plan) (depth : Nat) :
    plan.location (render plan.steps) depth = render (plan.steps.take depth) := by
  have writable := Plan.isWritable_steps planned
  have nonempty : plan.steps ≠ [] := by simp [Plan.steps]
  have count : plan.steps.length = plan.stages.length + 1 := by simp [Plan.steps]
  have spelled := isSpelled_canonicalSpelling bounded nonempty writable
  have text := toList_render writable
  cases depth with
  | zero => rfl
  | succ depth =>
      rw [Plan.location]
      cases found : plan.stages[depth]? with
      | none =>
          have passed := List.getElem?_eq_none_iff.mp found
          rw [List.take_of_length_le (by omega)]
      | some stage =>
          cases shape : canonicalSpelling plan.steps with
          | nil =>
              rw [shape] at spelled
              exact spelled.elim
          | cons first later =>
              rw [shape] at spelled text
              have canonical := Plan.ofPath_eq_ok_iff.mpr ⟨first, later, spelled, text, rfl⟩
              have same := Except.ok.inj (planned.symm.trans canonical)
              rw [same] at found
              apply String.toList_injective
              rw [(Plan.toList_upTo_stop text found).1, ← shape, ← canonicalSpelling_take,
                toList_render fun step taken => writable step (List.mem_of_mem_take taken)]

theorem namedInTurn_tokens_render (bounded : limit < indexBound)
    (writable : ∀ step ∈ location, step.isWritable limit = true) :
    NamedInTurn location (tokens (render location)) := by
  cases location with
  | nil => exact .nil
  | cons first later =>
      obtain ⟨plan, planned, steps⟩ :=
        Plan.exists_ofPath_render bounded (List.cons_ne_nil first later) writable
      have named := Plan.namedInTurn_tokens planned
      rw [steps] at named
      exact named

/-- No two locations of plain keys are rendered the same. -/
theorem render_injective (bounded : limit < indexBound) (nonempty : location ≠ [])
    (otherNonempty : other ≠ []) (writable : ∀ step ∈ location, step.isWritable limit = true)
    (otherWritable : ∀ step ∈ other, step.isWritable limit = true)
    (same : render location = render other) : location = other := by
  obtain ⟨plan, planned, steps⟩ := Plan.exists_ofPath_render bounded nonempty writable
  obtain ⟨otherPlan, otherPlanned, otherSteps⟩ :=
    Plan.exists_ofPath_render bounded otherNonempty otherWritable
  rw [same, otherPlanned] at planned
  obtain rfl := Except.ok.inj planned
  exact steps.symm.trans otherSteps

/-! ## Locations inside a node -/

/-- The path of a location inside the node at a path, from its path in that node. -/
def pathInside (path inner : String) : String :=
  if inner.toList.head? = some '[' then path ++ inner else path ++ "." ++ inner

theorem toList_pathInside_render {path : String} (nonempty : location ≠ [])
    (writable : ∀ step ∈ location, step.isWritable limit = true) :
    (pathInside path (render location)).toList =
      path.toList ++ spell (location.map (Step.spelling 1)) := by
  have text := toList_render writable
  cases location with
  | nil => exact absurd rfl nonempty
  | cons first later =>
      cases first with
      | member key =>
          obtain ⟨keyNonempty, plain⟩ := Step.isPlainKey_iff.mp (writable _ List.mem_cons_self)
          obtain ⟨character, rest, shape⟩ := List.exists_cons_of_ne_nil keyNonempty
          have noOpening : character ≠ '[' :=
            (unmarked_iff.mp plain character (by simp [shape])).2.1
          simp [pathInside, text, canonicalSpelling, Step.spelling, Spelling.text, shape, noOpening]
      | element index =>
          simp [pathInside, text, canonicalSpelling, Step.spelling, Spelling.text]

theorem render_ne_empty (nonempty : location ≠ [])
    (writable : ∀ step ∈ location, step.isWritable limit = true) : render location ≠ "" := by
  obtain ⟨before, last, rfl⟩ := List.eq_nil_or_concat' location |>.resolve_left nonempty
  rw [render_concat]
  exact Step.extend_ne_empty (writable last (by simp)) _

theorem render_append (nonempty : location ≠ []) (otherNonempty : other ≠ [])
    (writable : ∀ step ∈ location, step.isWritable limit = true)
    (otherWritable : ∀ step ∈ other, step.isWritable limit = true) :
    render (location ++ other) = pathInside (render location) (render other) := by
  apply String.toList_injective
  have extended := toList_foldl_extend otherWritable (render_ne_empty nonempty writable)
  rw [toList_pathInside_render otherNonempty otherWritable, ← extended]
  simp only [render, List.foldl_append]

end TreePath
