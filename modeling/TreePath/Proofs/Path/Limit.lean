import TreePath.Proofs.Path.Grammar

set_option autoImplicit false

/-!
# Indices over the limit

A path is refused for the first index that is over the limit. What stands before its opening
bracket is spelled within the limit, and the refusal stops there.
-/

namespace TreePath.Plan

open TreePath.Path TreePath.Text

/-- A text from byte `start` on, cut at the bracket that opens an index over the limit. The
spellings before it are within the limit. -/
structure OverLimit (limit start : Nat) (text : List Char) (stop index : Nat)
    (before : List Spelling) : Prop where
  spelled : before ≠ [] → IsSpelled limit before
  text : ∃ digits after, text = spell before ++ '[' :: (digits ++ ']' :: after) ∧
    parseIndex? (String.ofList digits) = some index
  stop_eq : stop = start + byteLength (spell before)
  exceeds : limit < index

section OverLimit

variable {limit start stop index : Nat} {text : List Char} {before : List Spelling}

theorem OverLimit.cons {first : Spelling} (valid : first.IsValid limit)
    (marked : ∀ next ∈ before.head?, next.IsMarked)
    (found : OverLimit limit (start + byteLength first.text) text stop index before) :
    OverLimit limit start (first.text ++ text) stop index (first :: before) where
  spelled _ := by
    cases before with
    | nil => exact ⟨valid, by simp⟩
    | cons next later =>
        exact .cons valid (found.spelled (List.cons_ne_nil next later)) (marked next rfl)
  text := by
    obtain ⟨digits, after, rfl, parsed⟩ := found.text
    exact ⟨digits, after, by simp, parsed⟩
  stop_eq := by
    rw [found.stop_eq, spell_cons, byteLength_append, Nat.add_assoc]
  exceeds := found.exceeds

/-- A dot in front moves the first key. -/
theorem OverLimit.dot {dots : Nat} {word : List Char} {later : List Spelling}
    (found : OverLimit limit (start + 1) text stop index (.key dots word :: later)) :
    OverLimit limit start ('.' :: text) stop index (.key (dots + 1) word :: later) where
  spelled _ := found.spelled (List.cons_ne_nil _ _)
  text := by
    obtain ⟨digits, after, rfl, parsed⟩ := found.text
    exact ⟨digits, after, by simp [Spelling.text, List.replicate_succ], parsed⟩
  stop_eq := by
    rw [found.stop_eq]
    simp only [spell_cons, byteLength_append, Spelling.byteLength_text_key]
    omega
  exceeds := found.exceeds

/-- A word in front is a key, if it is not empty. -/
theorem OverLimit.exists_word {word : List Char} (plain : unmarked word = true)
    (marked : ∀ next ∈ before.head?, next.IsMarked)
    (found : OverLimit limit (start + byteLength word) text stop index before) :
    ∃ before', OverLimit limit start (word ++ text) stop index before' ∧
      (word = [] → ∀ next ∈ before'.head?, next.IsMarked) ∧
      (word = [] ∧ before' = before ∨ ∃ later, before' = .key 0 word :: later) := by
  by_cases empty : word = []
  · subst word
    exact ⟨before, found, fun _ => marked, Or.inl ⟨rfl, rfl⟩⟩
  · have valid : (Spelling.key 0 word).IsValid limit := ⟨empty, unmarked_iff.mp plain⟩
    exact ⟨.key 0 word :: before, OverLimit.cons valid marked found,
      fun none => absurd none empty, Or.inr ⟨before, rfl⟩⟩

end OverLimit

/-- Either the index itself is over the limit, or it is valid and a later one is over it. -/
theorem scanIndex_closing_eq_indexLimit {limit opening stop index bound : Nat}
    {digits next : List Char} {rest : List (Mark × List Char)}
    (refused : scanIndex limit opening digits ((Mark.closing, next) :: rest) =
      .error (.indexLimit stop index bound)) :
    (parseIndex? (String.ofList digits) = some index ∧ limit < index ∧ stop = opening ∧
        bound = limit) ∨
      ((Spelling.index digits).IsValid limit ∧ next = [] ∧
        scanKey limit false (opening + byteLength (Spelling.index digits).text) [] rest =
          .error (.indexLimit stop index bound)) := by
  have size : opening + 1 + byteLength digits + 1 =
      opening + byteLength (Spelling.index digits).text := by
    simp only [Spelling.byteLength_text_index]
    omega
  rw [scanIndex] at refused
  cases parsed : parseIndex? (String.ofList digits) with
  | none => simp [parsed] at refused
  | some value =>
      simp only [parsed] at refused
      by_cases exceeds : limit < value
      · simp only [if_pos exceeds, Except.error.injEq, Refusal.indexLimit.injEq] at refused
        obtain ⟨rfl, rfl, rfl⟩ := refused
        exact Or.inl ⟨rfl, exceeds, rfl, rfl⟩
      · rw [if_neg exceeds, size] at refused
        have valid : (Spelling.index digits).IsValid limit :=
          (parseIndex?_eq_some_iff_isValid.mp ⟨parsed, Nat.le_of_not_lt exceeds⟩).1
        refine Or.inr ⟨valid, ?_⟩
        split at refused
        · cases refused
        · exact ⟨rfl, map_eq_error_iff.mp refused⟩
        · exact ⟨rfl, map_eq_error_iff.mp refused⟩
        · cases refused

mutual

/-- A scan that is refused for an index over the limit has found one. After a dot a key comes
before it, and without a word the text before it begins with a mark. -/
theorem exists_overLimit_of_scanKey {limit : Nat} {afterDot : Bool} {offset stop index bound : Nat}
    {word : List Char} (plain : unmarked word = true) :
    (rest : List (Mark × List Char)) → (∀ piece ∈ rest, unmarked piece.2 = true) →
      scanKey limit afterDot offset word rest = .error (.indexLimit stop index bound) →
      bound = limit ∧ ∃ before,
        OverLimit limit offset (word ++ Pieces.tailText rest) stop index before ∧
        (word = [] → ∀ next ∈ before.head?, next.IsMarked) ∧
        (afterDot = true → ∃ dots key later, before = .key dots key :: later)
  | [], _, refused => by
      rw [scanKey] at refused
      split at refused <;> simp at refused
  | (.dot, next) :: rest, restPlain, refused => by
      obtain ⟨nextPlain, laterPlain⟩ := List.forall_mem_cons.mp restPlain
      rw [scanKey, map_eq_error_iff] at refused
      obtain ⟨rfl, before, found, -, startsWithKey⟩ :=
        exists_overLimit_of_scanKey nextPlain rest laterPlain refused
      obtain ⟨dots, key, later, rfl⟩ := startsWithKey rfl
      have marked : ∀ next ∈ (Spelling.key (dots + 1) key :: later).head?, next.IsMarked := by
        intro next taken
        obtain rfl := Option.some.inj taken
        exact Nat.succ_pos dots
      obtain ⟨before', found', marked', shape⟩ := found.dot.exists_word plain marked
      refine ⟨rfl, before', found', marked', fun _ => ?_⟩
      rcases shape with ⟨-, rfl⟩ | ⟨later, rfl⟩
      · exact ⟨_, _, _, rfl⟩
      · exact ⟨_, _, _, rfl⟩
  | (.opening, next) :: rest, restPlain, refused => by
      obtain ⟨-, laterPlain⟩ := List.forall_mem_cons.mp restPlain
      rw [scanKey] at refused
      by_cases misplaced : (word.isEmpty && afterDot) = true
      · simp [misplaced] at refused
      · rw [if_neg misplaced, map_eq_error_iff] at refused
        obtain ⟨rfl, before, found, marked⟩ := exists_overLimit_of_scanIndex rest laterPlain refused
        obtain ⟨before', found', marked', shape⟩ := found.exists_word plain marked
        refine ⟨rfl, before', found', marked', fun afterDot => ?_⟩
        rcases shape with ⟨empty, -⟩ | ⟨later, rfl⟩
        · simp [empty, afterDot] at misplaced
        · exact ⟨_, _, _, rfl⟩
  | (.closing, _) :: _, _, refused => by simp [scanKey] at refused

theorem exists_overLimit_of_scanIndex {limit opening stop index bound : Nat} {digits : List Char} :
    (rest : List (Mark × List Char)) → (∀ piece ∈ rest, unmarked piece.2 = true) →
      scanIndex limit opening digits rest = .error (.indexLimit stop index bound) →
      bound = limit ∧ ∃ before,
        OverLimit limit opening ('[' :: (digits ++ Pieces.tailText rest)) stop index before ∧
        ∀ next ∈ before.head?, next.IsMarked
  | [], _, refused => by simp [scanIndex] at refused
  | (.dot, _) :: _, _, refused => by simp [scanIndex] at refused
  | (.opening, _) :: _, _, refused => by simp [scanIndex] at refused
  | (.closing, next) :: rest, restPlain, refused => by
      obtain ⟨-, laterPlain⟩ := List.forall_mem_cons.mp restPlain
      rcases scanIndex_closing_eq_indexLimit refused with
        ⟨parsed, exceeds, rfl, rfl⟩ | ⟨valid, rfl, deeper⟩
      · refine ⟨rfl, [], ?_, by simp⟩
        exact
          { spelled := fun nonempty => absurd rfl nonempty
            text := ⟨digits, next ++ Pieces.tailText rest, rfl, parsed⟩
            stop_eq := rfl
            exceeds := exceeds }
      · obtain ⟨rfl, before, found, marked, -⟩ :=
          exists_overLimit_of_scanKey rfl rest laterPlain deeper
        refine ⟨rfl, .index digits :: before, ?_, ?_⟩
        · have text : '[' :: (digits ++ Pieces.tailText ((Mark.closing, []) :: rest)) =
              (Spelling.index digits).text ++ ([] ++ Pieces.tailText rest) := by
            simp [Spelling.text, tailText_cons, Mark.toChar]
          rw [text]
          exact OverLimit.cons valid (marked rfl) found
        · intro next taken
          obtain rfl := Option.some.inj taken
          trivial

end

/-- A refusal for an index over the limit stops before the bracket that opens it. What stands
before that is empty, or a path that has a plan itself. -/
theorem exists_of_ofPath_eq_indexLimit {limit stop index bound : Nat} {path : String}
    (refused : ofPath limit path = .error (.indexLimit stop index bound)) :
    bound = limit ∧ limit < index ∧
      ∃ before digits after, path.toList = before ++ '[' :: (digits ++ ']' :: after) ∧
        upTo path stop = String.ofList before ∧
        (before = [] ∨ ∃ plan, ofPath limit (String.ofList before) = .ok plan) ∧
        parseIndex? (String.ofList digits) = some index := by
  unfold ofPath at refused
  split at refused
  · cases refused
  · obtain ⟨rfl, spellings, found, -, -⟩ := exists_overLimit_of_scanKey
      (Pieces.unmarked_first path.toList) _ Pieces.unmarked_of_mem_rest refused
    obtain ⟨digits, after, text, parsed⟩ := found.text
    have cut : path.toList = spell spellings ++ '[' :: (digits ++ ']' :: after) :=
      (Pieces.toText_ofText path.toList).symm.trans text
    refine ⟨rfl, found.exceeds, spell spellings, digits, after, cut, ?_, ?_, parsed⟩
    · rw [upTo, cut, found.stop_eq, Nat.zero_add, takeBytes_append]
    · cases spellings with
      | nil => exact Or.inl rfl
      | cons first later =>
          have spelled := found.spelled (List.cons_ne_nil first later)
          refine Or.inr ⟨_, ofPath_eq_ok_iff.mpr ⟨first, later, spelled, ?_, rfl⟩⟩
          rw [String.toList_ofList]

end TreePath.Plan
