import TreePath.Path.Token

set_option autoImplicit false

/-!
# Reading array indices

An index is read digit by digit, and the number read so far never shrinks. So the reading stops
early exactly when the whole run of digits is worth too much for a word.
-/

namespace TreePath.Path

theorem digitValue?_eq_some_iff {character : Char} {digit : Nat} :
    digitValue? character = some digit ↔
      character.isDigit = true ∧ character.toNat - '0'.toNat = digit := by
  unfold digitValue?
  by_cases isDigit : character.isDigit = true <;> simp [isDigit]

theorem le_ofDigitChars (digits : List Char) (value : Nat) :
    value ≤ Nat.ofDigitChars 10 digits value := by
  induction digits generalizing value with
  | nil => simp
  | cons character rest inductionHypothesis =>
      rw [Nat.ofDigitChars_cons]
      have grown := inductionHypothesis (10 * value + (character.toNat - '0'.toNat))
      omega

theorem appendDigits?_eq_some_iff {digits : List Char} {value number : Nat}
    (bounded : value < indexBound) :
    appendDigits? value digits = some number ↔
      (∀ character ∈ digits, character.isDigit = true) ∧
        Nat.ofDigitChars 10 digits value = number ∧ number < indexBound := by
  induction digits generalizing value with
  | nil =>
      simp only [appendDigits?, Option.some.injEq, List.not_mem_nil, false_implies, implies_true,
        Nat.ofDigitChars_nil, true_and]
      constructor
      · rintro rfl
        exact ⟨rfl, bounded⟩
      · exact And.left
  | cons character rest inductionHypothesis =>
      simp only [appendDigits?, List.forall_mem_cons, Nat.ofDigitChars_cons]
      cases found : digitValue? character with
      | none =>
          have noDigit : ¬ character.isDigit = true := by
            intro isDigit
            simp [digitValue?, isDigit] at found
          simp [noDigit]
      | some digit =>
          obtain ⟨isDigit, rfl⟩ := digitValue?_eq_some_iff.mp found
          dsimp only
          by_cases fits : 10 * value + (character.toNat - '0'.toNat) < indexBound
          · rw [if_pos fits, inductionHypothesis fits]
            simp [isDigit]
          · rw [if_neg fits]
            have grown := le_ofDigitChars rest (10 * value + (character.toNat - '0'.toNat))
            constructor
            · intro read
              cases read
            · rintro ⟨-, rfl, small⟩
              exact absurd (Nat.lt_of_le_of_lt grown small) fits

/-- A text is an index when it is a run of digits, leading zeros allowed, that is worth less than
the bound of words. -/
theorem parseIndex?_eq_some_iff {text : String} {number : Nat} :
    parseIndex? text = some number ↔
      text.toList ≠ [] ∧ (∀ character ∈ text.toList, character.isDigit = true) ∧
        Nat.ofDigitChars 10 text.toList 0 = number ∧ number < indexBound := by
  unfold parseIndex?
  cases characters : text.toList with
  | nil => simp
  | cons character rest =>
      have bounded : 0 < indexBound := by decide
      dsimp only
      rw [appendDigits?_eq_some_iff bounded]
      simp only [ne_eq, reduceCtorEq, not_false_eq_true, true_and]

end TreePath.Path
