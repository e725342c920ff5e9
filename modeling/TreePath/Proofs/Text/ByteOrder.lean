import Mathlib.Data.String.Basic

set_option autoImplicit false

/-!
# The order of texts by their bytes

Texts are ordered character by character. The bytes of their UTF-8 form are in the same order: of
two different characters the greater one has the greater byte where their forms first differ.
-/

namespace TreePath.Text

/-- The UTF-8 form of a text. -/
def bytes (text : String) : List UInt8 :=
  text.toList.flatMap String.utf8EncodeChar

theorem toByteArray_bytes (text : String) : (bytes text).toByteArray = text.toUTF8 :=
  String.utf8Encode_toList

/-- The lead byte of a longer form is greater. In forms of one length the digits of the two
characters to the base 64 are compared, the greatest first. -/
theorem utf8EncodeChar_append_lt {first second : Char} (less : first < second)
    (after otherAfter : List UInt8) :
    String.utf8EncodeChar first ++ after < String.utf8EncodeChar second ++ otherAfter := by
  have values : first.val.toNat < second.val.toNat := less
  have bound : second.val.toNat < 0x110000 := by
    rcases second.valid with low | ⟨-, high⟩
    · omega
    · exact high
  have twice (value : Nat) : value / 4096 = value / 64 / 64 := by omega
  have thrice (value : Nat) : value / 262144 = value / 64 / 64 / 64 := by omega
  simp only [String.utf8EncodeChar, twice, thrice]
  generalize first.val.toNat = value at *
  generalize second.val.toNat = other at *
  split_ifs <;> try omega
  all_goals
    simp (disch := omega) only [List.cons_append, List.nil_append, List.cons_lt_cons_iff,
      UInt8.lt_iff_toNat_lt, ← UInt8.toNat_inj, UInt8.toNat_ofNat', Nat.mod_eq_of_lt]
    omega

theorem flatMap_utf8EncodeChar_lt {characters others : List Char} (less : characters < others) :
    characters.flatMap String.utf8EncodeChar < others.flatMap String.utf8EncodeChar := by
  induction characters generalizing others with
  | nil =>
      cases others with
      | nil => exact absurd less (List.not_lt_nil [])
      | cons character rest =>
          have size := character.utf8Size_pos
          cases form : String.utf8EncodeChar character with
          | nil =>
              rw [← String.length_utf8EncodeChar, form] at size
              exact absurd size (Nat.lt_irrefl 0)
          | cons byte more =>
              rw [List.flatMap_cons, form]
              exact List.nil_lt_cons byte _
  | cons character rest inductionHypothesis =>
      cases others with
      | nil => exact absurd less (List.not_lt_nil _)
      | cons other otherRest =>
          rw [List.flatMap_cons, List.flatMap_cons]
          rcases List.cons_lt_cons_iff.mp less with differs | ⟨rfl, later⟩
          · exact utf8EncodeChar_append_lt differs _ _
          · exact List.append_left_lt (inductionHypothesis later)

theorem bytes_lt_bytes_iff {text other : String} : bytes text < bytes other ↔ text < other := by
  constructor
  · intro less
    rcases lt_trichotomy text other with before | rfl | after
    · exact before
    · exact absurd less (List.lt_irrefl _)
    · exact absurd less (List.lt_asymm (flatMap_utf8EncodeChar_lt after))
  · exact flatMap_utf8EncodeChar_lt

end TreePath.Text
