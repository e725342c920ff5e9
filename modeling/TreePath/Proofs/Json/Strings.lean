import TreePath.Json.StringLiteral

set_option autoImplicit false

/-!
# Written strings read back

A character is written as itself or as an escape that stands for it. So a string is read back
character by character, whatever characters it has, up to the quote that closes it.
-/

namespace TreePath.Json

theorem hexUnit?_hexDigit {number : Nat} (small : number < 32) :
    hexUnit? '0' '0' (hexDigit (number / 16)) (hexDigit number) = some number := by
  have checked : ∀ number < 32,
      hexUnit? '0' '0' (hexDigit (number / 16)) (hexDigit number) = some number := by decide
  exact checked number small

/-- Four digits stand for a control. -/
theorem readEscape_control {character : Char} (control : character.toNat < 32)
    (rest : List Char) :
    readEscape ('u' :: '0' :: '0' :: hexDigit (character.toNat / 16) ::
      hexDigit character.toNat :: rest) = .ok (character, rest) := by
  have leading : isLeading character.toNat = false := by
    simp only [isLeading, Bool.and_eq_false_iff, decide_eq_false_iff_not]
    omega
  have trailing : isTrailing character.toNat = false := by
    simp only [isTrailing, Bool.and_eq_false_iff, decide_eq_false_iff_not]
    omega
  simp [readEscape, hexUnit?_hexDigit control, leading, trailing]

/-- A character stands for itself, unless it has an escape, which is read as the character. -/
theorem escaped_cases (character : Char) :
    (escaped character = [character] ∧ character ≠ '"' ∧ character ≠ '\\' ∧
        ¬ character.toNat < 32) ∨
      ∃ escape, escaped character = '\\' :: escape ∧
        ∀ rest, readEscape (escape ++ rest) = .ok (character, rest) := by
  rw [escaped]
  split
  · subst character
    exact Or.inr ⟨['"'], rfl, fun _ => rfl⟩
  split
  · subst character
    exact Or.inr ⟨['\\'], rfl, fun _ => rfl⟩
  split
  · subst character
    exact Or.inr ⟨['b'], rfl, fun _ => rfl⟩
  split
  · subst character
    exact Or.inr ⟨['f'], rfl, fun _ => rfl⟩
  split
  · subst character
    exact Or.inr ⟨['n'], rfl, fun _ => rfl⟩
  split
  · subst character
    exact Or.inr ⟨['r'], rfl, fun _ => rfl⟩
  split
  · subst character
    exact Or.inr ⟨['t'], rfl, fun _ => rfl⟩
  split
  · rename_i control
    exact Or.inr ⟨_, rfl, readEscape_control control⟩
  · rename_i notQuote notBackslash _ _ _ _ _ notControl
    exact Or.inl ⟨rfl, notQuote, notBackslash, notControl⟩

theorem length_le_length_flatMap_escaped (characters : List Char) :
    characters.length ≤ (characters.flatMap escaped).length := by
  induction characters with
  | nil => exact Nat.le_refl 0
  | cons character rest inductionHypothesis =>
      have written : 0 < (escaped character).length := by
        rcases escaped_cases character with ⟨plain, -⟩ | ⟨escape, shape, -⟩
        · simp [plain]
        · simp [shape]
      rw [List.flatMap_cons, List.length_append, List.length_cons]
      omega

/-- Each character takes one step of the reading, be it escaped or not. -/
theorem readCharacters_flatMap_escaped {characters : List Char} {fuel : Nat}
    (enough : characters.length < fuel) (reversed rest : List Char) :
    readCharacters fuel reversed (characters.flatMap escaped ++ '"' :: rest) =
      .ok (String.ofList (reversed.reverse ++ characters), rest) := by
  induction characters generalizing fuel reversed with
  | nil =>
      obtain ⟨steps, rfl⟩ := Nat.exists_eq_add_one_of_ne_zero (Nat.ne_zero_of_lt enough)
      simp [readCharacters]
  | cons character later inductionHypothesis =>
      obtain ⟨steps, rfl⟩ := Nat.exists_eq_add_one_of_ne_zero (Nat.ne_zero_of_lt enough)
      have further := inductionHypothesis (Nat.lt_of_succ_lt_succ enough) (character :: reversed)
      rw [List.reverse_cons, List.append_assoc, List.singleton_append] at further
      rw [List.flatMap_cons, List.append_assoc, ← further]
      rcases escaped_cases character with ⟨plain, notQuote, notBackslash, notControl⟩ |
        ⟨escape, shape, read⟩
      · rw [plain, List.singleton_append, readCharacters, if_neg notQuote, if_neg notBackslash,
          if_neg notControl]
      · rw [shape, List.cons_append, readCharacters, if_neg (by decide), if_pos rfl, read]

/-- What is written between quotes is read as the text, and reading stops after the second. -/
theorem readString_flatMap_escaped (text : String) (rest : List Char) :
    readString (text.toList.flatMap escaped ++ '"' :: rest) = .ok (text, rest) := by
  have enough := length_le_length_flatMap_escaped text.toList
  rw [readString, readCharacters_flatMap_escaped, List.reverse_nil, List.nil_append,
    String.ofList_toList]
  rw [List.length_append]
  omega

end TreePath.Json
