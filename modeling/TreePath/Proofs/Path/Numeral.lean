import Mathlib.Data.Nat.Digits.Defs
import TreePath.Path.Step
import TreePath.Proofs.Path.Digits

set_option autoImplicit false

/-!
# Indices as numerals

An index is read as the number that its digits stand for, whatever zeros come first, as long as that
number fits a word. Every such number is read from its decimal text. No other text without a leading
zero is read as it.
-/

namespace TreePath.Path

/-- What a numeral is worth: the last digit counts ones, the one before it tens, and so on. -/
def numeralValue (text : String) : Nat :=
  Nat.ofDigits 10 (text.toList.map fun character => character.toNat - '0'.toNat).reverse

theorem ofDigitChars_eq_ofDigits (digits : List Char) :
    Nat.ofDigitChars 10 digits 0 =
      Nat.ofDigits 10 (digits.map fun character => character.toNat - '0'.toNat).reverse := by
  induction digits with
  | nil => rfl
  | cons character rest inductionHypothesis =>
      rw [Nat.ofDigitChars_cons, Nat.ofDigitChars_eq_ofDigitChars_zero, inductionHypothesis,
        List.map_cons, List.reverse_cons, Nat.ofDigits_append, Nat.ofDigits_singleton,
        List.length_reverse, List.length_map, Nat.mul_zero, Nat.zero_add, Nat.add_comm]

theorem numeralValue_eq_ofDigitChars (text : String) :
    numeralValue text = Nat.ofDigitChars 10 text.toList 0 :=
  (ofDigitChars_eq_ofDigits text.toList).symm

/-- Zeros in front of a numeral are worth nothing. -/
theorem numeralValue_zeros_append (zeros : Nat) (text : String) :
    numeralValue (String.ofList (List.replicate zeros '0') ++ text) = numeralValue text := by
  rw [numeralValue_eq_ofDigitChars, numeralValue_eq_ofDigitChars, String.toList_append,
    String.toList_ofList, Nat.ofDigitChars_append, Nat.ofDigitChars_replicate_zero, Nat.mul_zero]

/-! ## Decimal text -/

theorem digit_lt_ten {character : Char} (isDigit : character.isDigit = true) :
    character.toNat - '0'.toNat < 10 := by
  have nine : '9'.toNat = '0'.toNat + 9 := rfl
  have greatest := (Char.isDigit_iff_toNat.mp isDigit).2
  omega

theorem toDigits_digit {character : Char} (isDigit : character.isDigit = true) :
    Nat.toDigits 10 (character.toNat - '0'.toNat) = [character] := by
  have small := digit_lt_ten isDigit
  have least : 48 ≤ character.toNat := (Char.isDigit_iff_toNat.mp isDigit).1
  have printed : (Nat.digitChar (character.toNat - '0'.toNat)).toNat = character.toNat :=
    (Nat.toNat_digitChar_of_lt_ten small).trans (Nat.add_sub_of_le least)
  rw [Nat.toDigits_of_lt_base small, Char.toNat_inj.mp printed]

/-- Digits that follow a positive number follow its decimal text. -/
theorem toDigits_ofDigitChars {digits : List Char} {value : Nat} (positive : 0 < value)
    (areDigits : ∀ character ∈ digits, character.isDigit = true) :
    Nat.toDigits 10 (Nat.ofDigitChars 10 digits value) = Nat.toDigits 10 value ++ digits := by
  induction digits generalizing value with
  | nil => rw [Nat.ofDigitChars_nil, List.append_nil]
  | cons character rest inductionHypothesis =>
      obtain ⟨isDigit, restDigits⟩ := List.forall_mem_cons.mp areDigits
      have extended : 0 < 10 * value + (character.toNat - '0'.toNat) := by omega
      rw [Nat.ofDigitChars_cons, inductionHypothesis extended restDigits,
        ← Nat.toDigits_append_toDigits (by decide) positive (digit_lt_ten isDigit),
        toDigits_digit isDigit, List.append_assoc, List.singleton_append]

/-- Whether a text begins with a zero that another character follows. -/
def hasLeadingZero (text : String) : Bool :=
  match text.toList with
  | '0' :: _ :: _ => true
  | _ => false

/-- Without a leading zero, an index is the decimal text of its value. -/
theorem toString_of_parseIndex? {text : String} {number : Nat}
    (parsed : parseIndex? text = some number) (plain : hasLeadingZero text = false) :
    toString number = text := by
  obtain ⟨nonempty, areDigits, rfl, -⟩ := parseIndex?_eq_some_iff.mp parsed
  apply String.toList_injective
  rw [Nat.toString_eq_repr, Nat.toList_repr]
  unfold hasLeadingZero at plain
  cases shape : text.toList with
  | nil => exact absurd shape nonempty
  | cons first rest =>
      rw [shape] at areDigits plain
      obtain ⟨isDigit, restDigits⟩ := List.forall_mem_cons.mp areDigits
      rw [Nat.ofDigitChars_cons, Nat.mul_zero, Nat.zero_add]
      by_cases zero : first = '0'
      · subst zero
        cases rest with
        | nil => rfl
        | cons next later => cases plain
      · have least := (Char.isDigit_iff_toNat.mp isDigit).1
        have notZero : first.toNat ≠ '0'.toNat := fun same => zero (Char.toNat_inj.mp same)
        have positive : 0 < first.toNat - '0'.toNat := by omega
        rw [toDigits_ofDigitChars positive restDigits, toDigits_digit isDigit,
          List.singleton_append]

/-! ## Reading numerals -/

theorem parseIndex?_eq_some_iff_numeralValue {text : String} {number : Nat} :
    parseIndex? text = some number ↔
      text ≠ "" ∧ (∀ character ∈ text.toList, character.isDigit = true) ∧
        numeralValue text = number ∧ number < indexBound := by
  rw [parseIndex?_eq_some_iff, numeralValue_eq_ofDigitChars, ne_eq, ne_eq, String.toList_eq_nil_iff]

theorem parseIndex?_eq_none_iff {text : String} :
    parseIndex? text = none ↔
      text = "" ∨ (∃ character ∈ text.toList, character.isDigit = false) ∨
        indexBound ≤ numeralValue text := by
  constructor
  · intro refused
    by_cases empty : text = ""
    · exact Or.inl empty
    · by_cases areDigits : ∀ character ∈ text.toList, character.isDigit = true
      · refine Or.inr (Or.inr (Nat.le_of_not_lt fun fits => ?_))
        have read := parseIndex?_eq_some_iff_numeralValue.mpr ⟨empty, areDigits, rfl, fits⟩
        rw [refused] at read
        cases read
      · simp only [not_forall, Bool.not_eq_true, exists_prop] at areDigits
        exact Or.inr (Or.inl areDigits)
  · intro unfit
    rw [Option.eq_none_iff_forall_ne_some]
    intro number read
    obtain ⟨nonempty, areDigits, rfl, fits⟩ := parseIndex?_eq_some_iff_numeralValue.mp read
    rcases unfit with empty | ⟨character, inText, noDigit⟩ | exceeds
    · exact nonempty empty
    · rw [areDigits character inText] at noDigit
      cases noDigit
    · exact Nat.not_lt.mpr exceeds fits

theorem parseIndex?_zeros_append (zeros : Nat) {text : String} (nonempty : text ≠ "") :
    parseIndex? (String.ofList (List.replicate zeros '0') ++ text) = parseIndex? text := by
  apply Option.ext
  intro number
  rw [parseIndex?_eq_some_iff_numeralValue, parseIndex?_eq_some_iff_numeralValue,
    numeralValue_zeros_append, String.toList_append, String.toList_ofList]
  have zeroDigits : ∀ character ∈ List.replicate zeros '0', character.isDigit = true := by
    intro character inZeros
    rw [List.eq_of_mem_replicate inZeros]
    rfl
  have longer : String.ofList (List.replicate zeros '0') ++ text ≠ "" := by
    rw [ne_eq, String.append_eq_empty_iff]
    exact fun empty => nonempty empty.2
  rw [List.forall_mem_append]
  simp only [ne_eq, longer, nonempty, not_false_eq_true, true_and]
  exact and_congr_left fun _ => ⟨And.right, fun areDigits => ⟨zeroDigits, areDigits⟩⟩

theorem parseIndex?_toString {number : Nat} (fits : number < indexBound) :
    parseIndex? (toString number) = some number := by
  rw [parseIndex?_eq_some_iff, Nat.toString_eq_repr, Nat.toList_repr]
  exact ⟨Nat.toDigits_ne_nil, fun _ => Nat.isDigit_of_mem_toDigits (by decide) (by decide),
    Nat.ofDigitChars_ten_toDigits, fits⟩

/-- A text is read as an index exactly when it is a run of digits that is worth less than two to
the 64th, whatever zeros it begins with. Behind a path such an index is written in its decimal text,
and that is read as the index again. -/
theorem parseIndex?_iff_and_extend :
    (∀ (text : String) (number : Nat), parseIndex? text = some number ↔
      text ≠ "" ∧ (∀ character ∈ text.toList, character.isDigit = true) ∧
        numeralValue text = number ∧ number ≤ 2 ^ 64 - 1) ∧
    (∀ text : String, parseIndex? text = none ↔
      text = "" ∨ (∃ character ∈ text.toList, character.isDigit = false) ∨
        2 ^ 64 ≤ numeralValue text) ∧
    (∀ (zeros : Nat) (text : String), text ≠ "" →
      parseIndex? (String.ofList (List.replicate zeros '0') ++ text) = parseIndex? text) ∧
    ∀ (path : String) (number : Nat), number < 2 ^ 64 →
      ∃ digits : String, (Step.element number).extend path = path ++ "[" ++ digits ++ "]" ∧
        parseIndex? digits = some number := by
  have bound : indexBound = 2 ^ 64 := by decide
  refine ⟨?_, ?_, ?_, ?_⟩
  · intro text number
    rw [parseIndex?_eq_some_iff_numeralValue, bound, Nat.lt_iff_le_pred (by decide)]
  · intro text
    rw [parseIndex?_eq_none_iff, bound]
  · intro zeros text nonempty
    exact parseIndex?_zeros_append zeros nonempty
  · intro path number fits
    exact ⟨toString number, rfl, parseIndex?_toString (bound ▸ fits)⟩

theorem parseIndex?_of_zeros_and_greatest_index :
    "18446744073709551615" ≠ "" ∧
      18446744073709551615 < 2 ^ 64 ∧
      parseIndex? (String.ofList (List.replicate 3 '0') ++ "18446744073709551615") =
        some 18446744073709551615 ∧
      parseIndex? "18446744073709551616" = none ∧
      parseIndex? "+1" = none ∧
      parseIndex? "٣" = none ∧
      ∃ digits : String,
        (Step.element 18446744073709551615).extend "é" = "é" ++ "[" ++ digits ++ "]" ∧
          parseIndex? digits = some 18446744073709551615 := by
  obtain ⟨reads, refuses, zeros, prints⟩ := parseIndex?_iff_and_extend
  have nonempty : "18446744073709551615" ≠ "" := by decide
  have fits : 18446744073709551615 < 2 ^ 64 := by decide
  have greatest : parseIndex? "18446744073709551615" = some 18446744073709551615 :=
    (reads _ _).mpr ⟨nonempty, List.all_eq_true.mp (by decide), by decide, by decide⟩
  refine ⟨nonempty, fits, ?_, ?_, ?_, ?_, prints "é" _ fits⟩
  · rw [zeros 3 _ nonempty, greatest]
  · exact (refuses _).mpr (Or.inr (Or.inr (by decide)))
  · exact (refuses _).mpr (Or.inr (Or.inl ⟨'+', by decide, rfl⟩))
  · exact (refuses _).mpr (Or.inr (Or.inl ⟨'٣', by decide, rfl⟩))

end TreePath.Path
