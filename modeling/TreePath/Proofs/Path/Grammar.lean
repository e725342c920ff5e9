import TreePath.Proofs.Path.Spelling

set_option autoImplicit false

/-!
# The strict reading of a path accepts one grammar

`Plan.spelled` reads a plan off the spellings of a path. Scanning a spelled text gives that plan,
and a text that is scanned without fault is spelled.
-/

namespace TreePath

open TreePath.Path TreePath.Text

namespace Plan

/-- The plan of a path that is spelled from byte `start` on. A stage leads to what the spelling
after it needs. -/
def spelled (start : Nat) (first : Spelling) : List Spelling → Plan
  | [] => ⟨[], first.step⟩
  | next :: rest =>
      let stop := start + byteLength first.text
      (spelled stop next rest).via ⟨first.step, next.step.container, stop⟩

theorem steps_spelled (start : Nat) (first : Spelling) (later : List Spelling) :
    (spelled start first later).steps = (first :: later).map Spelling.step := by
  induction later generalizing start first with
  | nil => rfl
  | cons next rest inductionHypothesis =>
      simp only [spelled, steps_via, inductionHypothesis, List.map_cons]

theorem kinds_spelled (start : Nat) (first : Spelling) (later : List Spelling) :
    (spelled start first later).stages.map Stage.kind =
      later.map fun next => next.step.container := by
  induction later generalizing start first with
  | nil => rfl
  | cons next rest inductionHypothesis =>
      simp only [spelled, via, List.map_cons, inductionHypothesis]

/-- Dots in front of the first key only move it. -/
theorem spelled_key_dots (start dots more : Nat) (word : List Char) (later : List Spelling) :
    spelled (start + dots) (.key more word) later =
      spelled start (.key (dots + more) word) later := by
  cases later with
  | nil => rfl
  | cons next rest =>
      simp only [spelled, Spelling.step, Spelling.byteLength_text_key, Nat.add_assoc]

/-! ## Spelled texts are scanned -/

theorem map_viaWord_nil (kind : ContainerKind) (stop : Nat) (scanned : Except Refusal Plan) :
    scanned.map (viaWord [] kind stop) = scanned := by
  cases scanned <;> rfl

theorem scanKey_dots (limit : Nat) (afterDot : Bool) (offset dots : Nat) (before word : List Char)
    (rest : List (Mark × List Char)) :
    scanKey limit afterDot offset before
        (List.replicate dots (Mark.dot, []) ++ (Mark.dot, word) :: rest) =
      (scanKey limit true (offset + byteLength before + (dots + 1)) word rest).map
        (viaWord before .object (offset + byteLength before)) := by
  induction dots generalizing afterDot offset before with
  | zero => simp [scanKey]
  | succ dots inductionHypothesis =>
      rw [List.replicate_succ, List.cons_append, scanKey, inductionHypothesis, map_viaWord_nil,
        byteLength_nil]
      congr 2
      omega

theorem pieces_key (dots : Nat) (word text : List Char) (plain : unmarked word = true) :
    Pieces.ofText ((Spelling.key (dots + 1) word).text ++ text) =
      ⟨[], List.replicate dots (Mark.dot, []) ++
        (Mark.dot, word ++ (Pieces.ofText text).first) :: (Pieces.ofText text).rest⟩ := by
  have dot (following : List Char) := Pieces.ofText_mark .dot following
  simp only [Mark.toChar] at dot
  simp only [Spelling.text, List.append_assoc]
  induction dots with
  | zero => simp [dot, Pieces.ofText_append_of_unmarked plain]
  | succ dots inductionHypothesis =>
      rw [List.replicate_succ, List.cons_append, dot, inductionHypothesis]
      simp [List.replicate_succ]

theorem pieces_index (digits text : List Char) (plain : unmarked digits = true) :
    Pieces.ofText ((Spelling.index digits).text ++ text) =
      ⟨[], (Mark.opening, digits) ::
        (Mark.closing, (Pieces.ofText text).first) :: (Pieces.ofText text).rest⟩ := by
  have opening (following : List Char) := Pieces.ofText_mark .opening following
  have closing (following : List Char) := Pieces.ofText_mark .closing following
  simp only [Mark.toChar] at opening closing
  simp [Spelling.text, opening, closing, Pieces.ofText_append_of_unmarked plain]

theorem first_pieces_spell {later : List Spelling} (marked : ∀ next ∈ later, next.IsMarked) :
    (Pieces.ofText (spell later)).first = [] := by
  cases later with
  | nil => rfl
  | cons next rest =>
      obtain ⟨mark, inner, shape⟩ := (marked next (List.mem_cons_self ..)).exists_text_eq_cons
      rw [spell_cons, shape, List.cons_append, Pieces.ofText_mark]

theorem map_eq_ok_iff {change : Plan → Plan} {scanned : Except Refusal Plan} {plan : Plan} :
    scanned.map change = .ok plan ↔ ∃ before, scanned = .ok before ∧ plan = change before := by
  cases scanned <;> simp [Except.map, eq_comm]

theorem map_eq_error_iff {change : Plan → Plan} {scanned : Except Refusal Plan}
    {refusal : Refusal} : scanned.map change = .error refusal ↔ scanned = .error refusal := by
  cases scanned <;> simp [Except.map]

def kindBefore? : Mark → Option ContainerKind
  | .dot => some .object
  | .opening => some .array
  | .closing => none

/-- The mark that a spelling begins with tells the container that its step starts from. -/
theorem kindBefore?_of_text {spelling : Spelling} {mark : Mark} {after following : List Char}
    (marked : spelling.IsMarked) (begins : spelling.text ++ after = mark.toChar :: following) :
    kindBefore? mark = some spelling.step.container := by
  cases spelling with
  | key dots word =>
      obtain ⟨fewer, rfl⟩ : ∃ fewer, dots = fewer + 1 := Nat.exists_eq_add_one.mpr marked
      cases mark <;> simp_all [Spelling.text, List.replicate_succ, Mark.toChar, kindBefore?,
        Spelling.step, Step.container]
  | index digits =>
      cases mark <;> simp_all [Spelling.text, Mark.toChar, kindBefore?, Spelling.step,
        Step.container]

theorem parseIndex?_eq_some_iff_isValid {limit value : Nat} {digits : List Char} :
    (parseIndex? (String.ofList digits) = some value ∧ value ≤ limit) ↔
      (Spelling.index digits).IsValid limit ∧ Nat.ofDigitChars 10 digits 0 = value := by
  rw [parseIndex?_eq_some_iff, String.toList_ofList]
  constructor
  · rintro ⟨⟨nonempty, isDigit, rfl, bounded⟩, withinLimit⟩
    exact ⟨⟨nonempty, isDigit, withinLimit, bounded⟩, rfl⟩
  · rintro ⟨⟨nonempty, isDigit, withinLimit, bounded⟩, rfl⟩
    exact ⟨⟨nonempty, isDigit, rfl, bounded⟩, withinLimit⟩

/-- What follows a closing bracket: nothing, or a mark that tells what the element has to be. -/
theorem scanIndex_closing_eq_ok_iff {limit opening : Nat} {digits next : List Char}
    {rest : List (Mark × List Char)} {plan : Plan} :
    scanIndex limit opening digits ((Mark.closing, next) :: rest) = .ok plan ↔
      (Spelling.index digits).IsValid limit ∧ next = [] ∧
        ((rest = [] ∧ plan = ⟨[], (Spelling.index digits).step⟩) ∨
          ∃ mark word more kind tail, rest = (mark, word) :: more ∧ kindBefore? mark = some kind ∧
            scanKey limit false (opening + byteLength (Spelling.index digits).text) [] rest =
              .ok tail ∧
            plan = tail.via ⟨(Spelling.index digits).step, kind,
              opening + byteLength (Spelling.index digits).text⟩) := by
  have size : opening + byteLength (Spelling.index digits).text =
      opening + 1 + byteLength digits + 1 := by
    simp only [Spelling.byteLength_text_index]
    omega
  rw [size, scanIndex]
  by_cases valid : (Spelling.index digits).IsValid limit
  · obtain ⟨parsed, withinLimit⟩ := parseIndex?_eq_some_iff_isValid.mpr ⟨valid, rfl⟩
    simp only [parsed, Nat.not_lt.mpr withinLimit, if_false, valid, true_and, Spelling.step]
    cases next with
    | cons character word => simp
    | nil =>
        cases rest with
        | nil => simp [@eq_comm _ plan]
        | cons head more =>
            obtain ⟨mark, word⟩ := head
            cases mark <;> simp [kindBefore?, map_eq_ok_iff]
  · constructor
    · intro scanned
      cases parsed : parseIndex? (String.ofList digits) with
      | none => simp [parsed] at scanned
      | some value =>
          have tooLarge : limit < value := by
            apply Nat.lt_of_not_le
            intro withinLimit
            exact valid (parseIndex?_eq_some_iff_isValid.mp ⟨parsed, withinLimit⟩).1
          simp [parsed, tooLarge] at scanned
    · intro described
      exact absurd described.1 valid

theorem scan_spelled {limit : Nat} {later : List Spelling}
    (valid : ∀ next ∈ later, next.IsValid limit ∧ next.IsMarked) :
    (∀ afterDot offset word, (Spelling.key 0 word).IsValid limit →
      scanKey limit afterDot offset word (Pieces.ofText (spell later)).rest =
        .ok (spelled offset (.key 0 word) later)) ∧
    (∀ opening digits, (Spelling.index digits).IsValid limit →
      scanIndex limit opening digits
          ((Mark.closing, []) :: (Pieces.ofText (spell later)).rest) =
        .ok (spelled opening (.index digits) later)) := by
  induction later with
  | nil =>
      constructor
      · intro afterDot offset word wordValid
        simp [Pieces.ofText, scanKey, spelled, Spelling.step, wordValid.1]
      · intro opening digits digitsValid
        rw [scanIndex_closing_eq_ok_iff]
        exact ⟨digitsValid, rfl, Or.inl ⟨rfl, rfl⟩⟩
  | cons next rest inductionHypothesis =>
      obtain ⟨⟨nextValid, nextMarked⟩, restValid⟩ := List.forall_mem_cons.mp valid
      obtain ⟨keyHypothesis, indexHypothesis⟩ := inductionHypothesis restValid
      have noWord := first_pieces_spell fun later membership => (restValid later membership).2
      cases next with
      | key dots word =>
          obtain ⟨fewer, rfl⟩ : ∃ fewer, dots = fewer + 1 := Nat.exists_eq_add_one.mpr nextMarked
          have wordValid : (Spelling.key 0 word).IsValid limit := nextValid
          have pieces : (Pieces.ofText (spell (.key (fewer + 1) word :: rest))).rest =
              List.replicate fewer (Mark.dot, []) ++
                (Mark.dot, word) :: (Pieces.ofText (spell rest)).rest := by
            rw [spell_cons, pieces_key fewer word _ nextValid.unmarked, noWord, List.append_nil]
          constructor
          · intro afterDot offset before beforeValid
            rw [pieces, scanKey_dots, keyHypothesis _ _ _ wordValid, spelled_key_dots]
            simp [Except.map, viaWord, beforeValid.1, spelled, Spelling.step, Step.container]
          · intro opening digits digitsValid
            rw [pieces, scanIndex_closing_eq_ok_iff]
            refine ⟨digitsValid, rfl, Or.inr ?_⟩
            have scanned := scanKey_dots limit false
              (opening + byteLength (Spelling.index digits).text) fewer [] word
              (Pieces.ofText (spell rest)).rest
            rw [keyHypothesis _ _ _ wordValid, byteLength_nil, Nat.add_zero, spelled_key_dots,
              map_viaWord_nil] at scanned
            cases fewer with
            | zero => exact ⟨.dot, _, _, .object, _, rfl, rfl, scanned, rfl⟩
            | succ fewer => exact ⟨.dot, _, _, .object, _, rfl, rfl, scanned, rfl⟩
      | index inner =>
          have pieces : (Pieces.ofText (spell (.index inner :: rest))).rest =
              (Mark.opening, inner) :: (Mark.closing, []) :: (Pieces.ofText (spell rest)).rest := by
            rw [spell_cons, pieces_index inner _ nextValid.unmarked, noWord]
          constructor
          · intro afterDot offset before beforeValid
            rw [pieces, scanKey, indexHypothesis _ _ nextValid]
            simp [beforeValid.1, Except.map, viaWord, spelled, Spelling.step, Step.container]
          · intro opening digits digitsValid
            rw [pieces, scanIndex_closing_eq_ok_iff]
            refine ⟨digitsValid, rfl, Or.inr ⟨.opening, _, _, .array, _, rfl, rfl, ?_, rfl⟩⟩
            rw [scanKey, byteLength_nil, Nat.add_zero, indexHypothesis _ _ nextValid,
              map_viaWord_nil]
            simp

/-! ## Scanned texts are spelled -/

theorem tailText_cons (mark : Mark) (word : List Char) (rest : List (Mark × List Char)) :
    Pieces.tailText ((mark, word) :: rest) = mark.toChar :: (word ++ Pieces.tailText rest) := rfl

/-- A word and the marks after it, as a scan finds them, spelled out. After a dot the first
step is a key; without a word it begins with a mark. -/
structure ScannedKey (limit : Nat) (afterDot : Bool) (offset : Nat) (word : List Char)
    (rest : List (Mark × List Char)) (plan : Plan) (first : Spelling) (later : List Spelling) :
    Prop where
  spelling : IsSpelled limit (first :: later)
  text : spell (first :: later) = word ++ Pieces.tailText rest
  marked : word = [] → first.IsMarked
  key_of_afterDot : afterDot = true → ∃ dots key, first = .key dots key
  plan_eq : plan = spelled offset first later

/-- What a marked spelling begins is spelled, with the word before it if there is one. -/
theorem exists_scannedKey_of_marked {limit : Nat} {afterDot : Bool} (offset : Nat)
    {word : List Char} {rest : List (Mark × List Char)} {next : Spelling} {later : List Spelling}
    (plain : unmarked word = true) (spelling : IsSpelled limit (next :: later))
    (marked : next.IsMarked) (text : spell (next :: later) = Pieces.tailText rest)
    (key : word = [] → afterDot = true → ∃ dots key, next = .key dots key) :
    ∃ first later', ScannedKey limit afterDot offset word rest
      ((spelled (offset + byteLength word) next later).viaWord word next.step.container
        (offset + byteLength word)) first later' := by
  by_cases empty : word = []
  · subst word
    exact ⟨next, later,
      { spelling := spelling
        text := text
        marked := fun _ => marked
        key_of_afterDot := key rfl
        plan_eq := rfl }⟩
  · have wordValid : (Spelling.key 0 word).IsValid limit := ⟨empty, unmarked_iff.mp plain⟩
    exact ⟨.key 0 word, next :: later,
      { spelling := .cons wordValid spelling marked
        text := by rw [spell_cons, text]; rfl
        marked := fun none => absurd none empty
        key_of_afterDot := fun _ => ⟨0, word, rfl⟩
        plan_eq := by simp [viaWord, empty, spelled, Spelling.step] }⟩

mutual

theorem exists_scannedKey {limit : Nat} {afterDot : Bool} {offset : Nat} {word : List Char}
    {plan : Plan} (plain : unmarked word = true) :
    (rest : List (Mark × List Char)) → (∀ piece ∈ rest, unmarked piece.2 = true) →
      scanKey limit afterDot offset word rest = .ok plan →
      ∃ first later, ScannedKey limit afterDot offset word rest plan first later
  | [], _, scanned => by
      rw [scanKey] at scanned
      by_cases empty : word = []
      · simp [empty] at scanned
      · rw [if_neg (by simpa using empty)] at scanned
        obtain rfl := Except.ok.inj scanned
        exact ⟨.key 0 word, [],
          { spelling := ⟨⟨empty, unmarked_iff.mp plain⟩, by simp⟩
            text := by simp [Spelling.text, Pieces.tailText]
            marked := fun none => absurd none empty
            key_of_afterDot := fun _ => ⟨0, word, rfl⟩
            plan_eq := rfl }⟩
  | (.dot, next) :: rest, restPlain, scanned => by
      obtain ⟨nextPlain, laterPlain⟩ := List.forall_mem_cons.mp restPlain
      obtain ⟨tail, tailScanned, rfl⟩ := map_eq_ok_iff.mp (by simpa only [scanKey] using scanned)
      obtain ⟨first, later, found⟩ := exists_scannedKey nextPlain rest laterPlain tailScanned
      obtain ⟨dots, key, rfl⟩ := found.key_of_afterDot rfl
      have text : spell (.key (dots + 1) key :: later) =
          Pieces.tailText ((Mark.dot, next) :: rest) := by
        have inner := found.text
        simp only [spell_cons, Spelling.text, List.append_assoc] at inner ⊢
        simp [List.replicate_succ, inner, tailText_cons, Mark.toChar]
      rw [found.plan_eq, spelled_key_dots, Nat.add_comm 1 dots]
      exact exists_scannedKey_of_marked offset plain found.spelling (Nat.succ_pos dots) text
        fun _ _ => ⟨dots + 1, key, rfl⟩
  | (.opening, next) :: rest, restPlain, scanned => by
      obtain ⟨nextPlain, laterPlain⟩ := List.forall_mem_cons.mp restPlain
      rw [scanKey] at scanned
      by_cases refused : (word.isEmpty && afterDot) = true
      · simp [refused] at scanned
      · rw [if_neg refused] at scanned
        obtain ⟨tail, tailScanned, rfl⟩ := map_eq_ok_iff.mp scanned
        obtain ⟨later, spelling, closed, rfl⟩ := exists_scannedIndex rest laterPlain tailScanned
        have text : spell (.index next :: later) =
            Pieces.tailText ((Mark.opening, next) :: rest) := by
          simp [Spelling.text, tailText_cons, Mark.toChar, closed]
        apply exists_scannedKey_of_marked offset plain spelling trivial text
        intro empty afterDot
        simp [empty, afterDot] at refused
  | (.closing, _) :: _, _, scanned => by simp [scanKey] at scanned

theorem exists_scannedIndex {limit opening : Nat} {digits : List Char} {plan : Plan} :
    (rest : List (Mark × List Char)) → (∀ piece ∈ rest, unmarked piece.2 = true) →
      scanIndex limit opening digits rest = .ok plan →
      ∃ later, IsSpelled limit (.index digits :: later) ∧
        Pieces.tailText rest = ']' :: spell later ∧ plan = spelled opening (.index digits) later
  | [], _, scanned => by simp [scanIndex] at scanned
  | (.dot, _) :: _, _, scanned => by simp [scanIndex] at scanned
  | (.opening, _) :: _, _, scanned => by simp [scanIndex] at scanned
  | (.closing, next) :: rest, restPlain, scanned => by
      obtain ⟨-, laterPlain⟩ := List.forall_mem_cons.mp restPlain
      obtain ⟨valid, rfl, ended | ⟨mark, word, more, kind, tail, shape, known, tailScanned, rfl⟩⟩ :=
        scanIndex_closing_eq_ok_iff.mp scanned
      · obtain ⟨rfl, rfl⟩ := ended
        exact ⟨[], ⟨valid, by simp⟩, rfl, rfl⟩
      · obtain ⟨first, later, found⟩ := exists_scannedKey rfl rest laterPlain tailScanned
        have marked := found.marked rfl
        have text := found.text
        rw [shape] at text
        have kindFits : kind = first.step.container :=
          Option.some.inj (known.symm.trans (kindBefore?_of_text marked text))
        refine ⟨first :: later, .cons valid found.spelling marked, ?_, ?_⟩
        · rw [found.text]
          rfl
        · rw [found.plan_eq, kindFits]
          rfl

end

theorem scanKey_spelled {limit : Nat} {first : Spelling} {later : List Spelling}
    (spelling : IsSpelled limit (first :: later)) :
    scanKey limit false 0 (Pieces.ofText (spell (first :: later))).first
        (Pieces.ofText (spell (first :: later))).rest =
      .ok (spelled 0 first later) := by
  obtain ⟨firstValid, laterValid⟩ := spelling
  obtain ⟨keyHypothesis, indexHypothesis⟩ := scan_spelled laterValid
  have noWord := first_pieces_spell fun next membership => (laterValid next membership).2
  cases first with
  | key dots word =>
      have wordValid : (Spelling.key 0 word).IsValid limit := firstValid
      cases dots with
      | zero =>
          have plain : unmarked word = true := firstValid.unmarked
          simp only [spell_cons, Spelling.text, List.replicate_zero, List.nil_append,
            Pieces.ofText_append_of_unmarked plain, noWord, List.append_nil]
          exact keyHypothesis _ _ _ wordValid
      | succ dots =>
          rw [spell_cons, pieces_key dots word _ firstValid.unmarked, noWord, List.append_nil,
            scanKey_dots, map_viaWord_nil, keyHypothesis _ _ _ wordValid, spelled_key_dots]
          simp
  | index digits =>
      rw [spell_cons, pieces_index digits _ firstValid.unmarked, noWord, scanKey]
      simp [map_viaWord_nil, indexHypothesis _ _ firstValid]

theorem ofPath_eq_ok_iff {limit : Nat} {path : String} {plan : Plan} :
    ofPath limit path = .ok plan ↔
      ∃ first later, IsSpelled limit (first :: later) ∧ path.toList = spell (first :: later) ∧
        plan = spelled 0 first later := by
  unfold ofPath
  constructor
  · intro planned
    split at planned
    · simp at planned
    · obtain ⟨first, later, found⟩ := exists_scannedKey (Pieces.unmarked_first path.toList) _
        Pieces.unmarked_of_mem_rest planned
      refine ⟨first, later, found.spelling, ?_, found.plan_eq⟩
      rw [found.text]
      exact (Pieces.toText_ofText path.toList).symm
  · rintro ⟨first, later, spelling, text, rfl⟩
    rw [text]
    split
    · rename_i empty
      have leaves := spelling.tokensOf_spell
      rw [empty] at leaves
      simp at leaves
    · exact scanKey_spelled spelling

/-- A path has a plan exactly when the grammar spells it. The plan takes the spelled steps in
order, and each of its containers is of the kind that the step after it needs. -/
theorem exists_ofPath_iff_spelled (limit : Nat) (path : String) :
    ((∃ plan, ofPath limit path = .ok plan) ↔
      ∃ spellings, IsSpelled limit spellings ∧ path.toList = spell spellings) ∧
    ∀ plan spellings, ofPath limit path = .ok plan → IsSpelled limit spellings →
      path.toList = spell spellings →
        plan.steps = spellings.map Spelling.step ∧
          plan.stages.map Stage.kind = plan.steps.tail.map Step.container := by
  constructor
  · constructor
    · rintro ⟨plan, planned⟩
      obtain ⟨first, later, spelling, text, -⟩ := ofPath_eq_ok_iff.mp planned
      exact ⟨first :: later, spelling, text⟩
    · rintro ⟨spellings, spelling, text⟩
      cases spellings with
      | nil => exact spelling.elim
      | cons first later => exact ⟨_, ofPath_eq_ok_iff.mpr ⟨first, later, spelling, text, rfl⟩⟩
  · intro plan spellings planned spelling text
    cases spellings with
    | nil => exact spelling.elim
    | cons first later =>
        have scanned := ofPath_eq_ok_iff.mpr ⟨first, later, spelling, text, rfl⟩
        obtain rfl := Except.ok.inj (planned.symm.trans scanned)
        constructor
        · exact steps_spelled 0 first later
        · rw [kinds_spelled, steps_spelled, List.map_cons, List.tail_cons, List.map_map]
          rfl

theorem spelled_dots_and_leading_zeros :
    ofPath 10 "..a[007].b" =
        .ok ⟨[⟨.member "a", .array, 3⟩, ⟨.element 7, .object, 8⟩], .member "b"⟩ ∧
      IsSpelled 10 [.key 2 ['a'], .index ['0', '0', '7'], .key 1 ['b']] ∧
      "..a[007].b".toList = spell [.key 2 ['a'], .index ['0', '0', '7'], .key 1 ['b']] ∧
      [Step.member "a", .element 7, .member "b"] =
        [.key 2 ['a'], .index ['0', '0', '7'], .key 1 ['b']].map Spelling.step ∧
      [ContainerKind.array, .object] = [Step.element 7, .member "b"].map Step.container := by
  have spelling : IsSpelled 10 [.key 2 ['a'], .index ['0', '0', '7'], .key 1 ['b']] := by decide
  have text : "..a[007].b".toList =
      spell [.key 2 ['a'], .index ['0', '0', '7'], .key 1 ['b']] := by decide
  have planned : ofPath 10 "..a[007].b" =
      .ok ⟨[⟨.member "a", .array, 3⟩, ⟨.element 7, .object, 8⟩], .member "b"⟩ :=
    ofPath_eq_ok_iff.mpr ⟨_, _, spelling, text, by decide⟩
  have described := (exists_ofPath_iff_spelled 10 "..a[007].b").2 _ _ planned spelling text
  exact ⟨planned, spelling, text, described⟩

end Plan

end TreePath
