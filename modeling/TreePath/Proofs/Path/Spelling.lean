import TreePath.Path.Plan
import TreePath.Proofs.Path.Digits

set_option autoImplicit false

/-!
# How a location is spelled

The grammar of paths that values can be stored at, as data: a `Spelling` is the text of one step,
and a path is a list of them. Only the first key may do without a dot. A spelled path has a plan
that can be read off its spellings, and its tokens are their words.
-/

namespace TreePath.Path

open TreePath.Text

/-- The text of one step: a key with the dots before it, or an index between its brackets. -/
inductive Spelling where
  | key (dots : Nat) (word : List Char)
  | index (digits : List Char)
  deriving DecidableEq

namespace Spelling

def text : Spelling → List Char
  | key dots word => List.replicate dots '.' ++ word
  | index digits => '[' :: (digits ++ [']'])

def word : Spelling → List Char
  | key _ word => word
  | index digits => digits

def step : Spelling → Step
  | key _ word => .member (String.ofList word)
  | index digits => .element (Nat.ofDigitChars 10 digits 0)

/-- A key is a word without marks. An index is a run of digits that is worth no more than the
limit, and that fits a word of the machine. -/
def IsValid (limit : Nat) : Spelling → Prop
  | key _ word =>
      word ≠ [] ∧ ∀ character ∈ word, character ≠ '.' ∧ character ≠ '[' ∧ character ≠ ']'
  | index digits =>
      digits ≠ [] ∧ (∀ character ∈ digits, character.isDigit = true) ∧
        Nat.ofDigitChars 10 digits 0 ≤ limit ∧ Nat.ofDigitChars 10 digits 0 < indexBound

instance (limit : Nat) : (spelling : Spelling) → Decidable (spelling.IsValid limit)
  | key _ word =>
      have : Decidable (∀ character ∈ word, character ≠ '.' ∧ character ≠ '[' ∧ character ≠ ']') :=
        List.decidableBAll _ word
      inferInstanceAs (Decidable (_ ∧ _))
  | index digits =>
      have : Decidable (∀ character ∈ digits, character.isDigit = true) :=
        List.decidableBAll _ digits
      inferInstanceAs (Decidable (_ ∧ _ ∧ _ ∧ _))

/-- Whether the text sets itself off from what stands before it. -/
def IsMarked : Spelling → Prop
  | key dots _ => 0 < dots
  | index _ => True

instance : (spelling : Spelling) → Decidable spelling.IsMarked
  | key dots _ => inferInstanceAs (Decidable (0 < dots))
  | index _ => inferInstanceAs (Decidable True)

end Spelling

/-- The paths of the grammar: at least one step, and all but the first set off by a mark. -/
def IsSpelled (limit : Nat) : List Spelling → Prop
  | [] => False
  | first :: later => first.IsValid limit ∧ ∀ next ∈ later, next.IsValid limit ∧ next.IsMarked

instance (limit : Nat) : (spellings : List Spelling) → Decidable (IsSpelled limit spellings)
  | [] => inferInstanceAs (Decidable False)
  | _ :: later =>
      have : Decidable (∀ next ∈ later, next.IsValid limit ∧ next.IsMarked) :=
        List.decidableBAll _ later
      inferInstanceAs (Decidable (_ ∧ _))

theorem IsSpelled.cons {limit : Nat} {first next : Spelling} {later : List Spelling}
    (firstValid : first.IsValid limit) (spelled : IsSpelled limit (next :: later))
    (marked : next.IsMarked) : IsSpelled limit (first :: next :: later) :=
  ⟨firstValid, List.forall_mem_cons.mpr ⟨⟨spelled.1, marked⟩, spelled.2⟩⟩

theorem IsSpelled.take {limit : Nat} {first : Spelling} {later : List Spelling}
    (spelled : IsSpelled limit (first :: later)) (count : Nat) :
    IsSpelled limit ((first :: later).take (count + 1)) :=
  ⟨spelled.1, fun next membership => spelled.2 next (List.mem_of_mem_take membership)⟩

theorem IsSpelled.isValid_of_mem {limit : Nat} {spellings : List Spelling} {spelling : Spelling}
    (spelled : IsSpelled limit spellings) (membership : spelling ∈ spellings) :
    spelling.IsValid limit := by
  cases spellings with
  | nil => exact spelled.elim
  | cons first later =>
      rcases List.mem_cons.mp membership with rfl | inLater
      · exact spelled.1
      · exact (spelled.2 spelling inLater).1

def spell (spellings : List Spelling) : List Char :=
  spellings.flatMap Spelling.text

@[simp] theorem spell_nil : spell [] = [] := rfl

@[simp] theorem spell_cons (first : Spelling) (later : List Spelling) :
    spell (first :: later) = first.text ++ spell later := rfl

@[simp] theorem Spelling.byteLength_text_key (dots : Nat) (word : List Char) :
    byteLength (key dots word).text = dots + byteLength word := by
  induction dots with
  | zero => simp [text]
  | succ dots inductionHypothesis =>
      have dot : ('.' : Char).utf8Size = 1 := rfl
      simp only [text, List.replicate_succ, List.cons_append, byteLength_cons, dot] at *
      omega

@[simp] theorem Spelling.byteLength_text_index (digits : List Char) :
    byteLength (index digits).text = byteLength digits + 2 := by
  have opening : ('[' : Char).utf8Size = 1 := rfl
  have closing : (']' : Char).utf8Size = 1 := rfl
  simp only [text, byteLength_cons, byteLength_append, byteLength_nil, opening, closing]
  omega

theorem unmarked_iff {word : List Char} :
    unmarked word = true ↔
      ∀ character ∈ word, character ≠ '.' ∧ character ≠ '[' ∧ character ≠ ']' := by
  simp only [unmarked, List.all_eq_true, Option.isNone_iff_eq_none]
  constructor
  · intro plain character membership
    have noMark := plain character membership
    refine ⟨?_, ?_, ?_⟩ <;> rintro rfl <;> simp [Mark.ofChar?] at noMark
  · intro plain character membership
    obtain ⟨notDot, notOpening, notClosing⟩ := plain character membership
    simp [Mark.ofChar?, notDot, notOpening, notClosing]

theorem Spelling.IsValid.word_ne_nil {limit : Nat} {spelling : Spelling}
    (valid : spelling.IsValid limit) : spelling.word ≠ [] := by
  cases spelling with
  | key dots word => exact valid.1
  | index digits => exact valid.1

theorem Spelling.IsValid.unmarked {limit : Nat} {spelling : Spelling}
    (valid : spelling.IsValid limit) : unmarked spelling.word = true := by
  apply unmarked_iff.mpr
  cases spelling with
  | key dots word => exact valid.2
  | index digits =>
      intro character membership
      have isDigit := valid.2.1 character membership
      refine ⟨?_, ?_, ?_⟩ <;> rintro rfl <;> simp at isDigit

/-! ## The tokens of a spelled path -/

def Spelling.token (spelling : Spelling) : Token :=
  Token.ofText (String.ofList spelling.word)

theorem Spelling.IsValid.isNamedBy_token {limit : Nat} {spelling : Spelling}
    (valid : spelling.IsValid limit) : spelling.step.isNamedBy spelling.token = true := by
  cases spelling with
  | key dots word => simp [Spelling.step, Spelling.token, Spelling.word, Step.isNamedBy]
  | index digits =>
      obtain ⟨nonempty, isDigit, -, bounded⟩ := valid
      have parsed : parseIndex? (String.ofList digits) = some (Nat.ofDigitChars 10 digits 0) := by
        rw [parseIndex?_eq_some_iff, String.toList_ofList]
        exact ⟨nonempty, isDigit, rfl, bounded⟩
      simp [Spelling.step, Spelling.token, Spelling.word, Token.ofText, parsed, Step.isNamedBy]

@[simp] theorem tokensOf_nil : tokensOf [] = [] := rfl

/-- A mark cuts the tokens of a text in two, whatever stands on either side. -/
theorem tokensOf_append_mark (before after : List Char) (mark : Mark) :
    tokensOf (before ++ mark.toChar :: after) = tokensOf before ++ tokensOf after := by
  simp only [tokensOf, Pieces.words_ofText_append, List.filter_append, List.map_append]

theorem tokensOf_word {word : List Char} (nonempty : word ≠ []) (plain : unmarked word = true) :
    tokensOf word = [Token.ofText (String.ofList word)] := by
  have whole := Pieces.ofText_append_of_unmarked plain []
  simp only [List.append_nil, Pieces.ofText] at whole
  simp [tokensOf, whole, Pieces.words, nonempty]

theorem tokensOf_mark_cons (mark : Mark) (text : List Char) :
    tokensOf (mark.toChar :: text) = tokensOf text := by
  simpa using tokensOf_append_mark [] text mark

theorem tokensOf_marks_append (marks : List Mark) (text : List Char) :
    tokensOf (marks.map Mark.toChar ++ text) = tokensOf text := by
  induction marks with
  | nil => rfl
  | cons mark rest inductionHypothesis =>
      rw [List.map_cons, List.cons_append, tokensOf_mark_cons]
      exact inductionHypothesis

theorem tokensOf_dots_append (dots : Nat) (text : List Char) :
    tokensOf (List.replicate dots '.' ++ text) = tokensOf text := by
  have dropped := tokensOf_marks_append (List.replicate dots .dot) text
  rw [List.map_replicate] at dropped
  exact dropped

theorem Spelling.IsValid.tokensOf_text {limit : Nat} {spelling : Spelling}
    (valid : spelling.IsValid limit) : tokensOf spelling.text = [spelling.token] := by
  have alone := tokensOf_word valid.word_ne_nil valid.unmarked
  cases spelling with
  | key dots word =>
      rw [Spelling.text, tokensOf_dots_append]
      exact alone
  | index digits =>
      have opened := tokensOf_mark_cons .opening (digits ++ [']'])
      have closed := tokensOf_append_mark digits [] .closing
      simp only [Mark.toChar, tokensOf_nil, List.append_nil] at opened closed
      rw [Spelling.text, opened, closed]
      exact alone

theorem Spelling.IsMarked.exists_text_eq_cons {spelling : Spelling} (marked : spelling.IsMarked) :
    ∃ mark inner, spelling.text = Mark.toChar mark :: inner := by
  cases spelling with
  | key dots word =>
      cases dots with
      | zero => simp [Spelling.IsMarked] at marked
      | succ dots => exact ⟨.dot, List.replicate dots '.' ++ word, rfl⟩
  | index digits => exact ⟨.opening, digits ++ [']'], rfl⟩

/-- Tokens do not run together across the beginning of a marked spelling. -/
theorem tokensOf_append_text {limit : Nat} {spelling : Spelling}
    (valid : spelling.IsValid limit) (marked : spelling.IsMarked) (before : List Char) :
    tokensOf (before ++ spelling.text) = tokensOf before ++ [spelling.token] := by
  obtain ⟨mark, inner, shape⟩ := marked.exists_text_eq_cons
  have alone := valid.tokensOf_text
  rw [shape, tokensOf_mark_cons] at alone
  rw [shape, tokensOf_append_mark, alone]

theorem tokensOf_append_spell {limit : Nat} {later : List Spelling}
    (valid : ∀ next ∈ later, next.IsValid limit ∧ next.IsMarked) (before : List Char) :
    tokensOf (before ++ spell later) = tokensOf before ++ later.map Spelling.token := by
  induction later generalizing before with
  | nil => simp
  | cons next rest inductionHypothesis =>
      obtain ⟨⟨nextValid, marked⟩, restValid⟩ := List.forall_mem_cons.mp valid
      rw [spell_cons, ← List.append_assoc, inductionHypothesis restValid,
        tokensOf_append_text nextValid marked]
      simp

/-- Looking a spelled path up sees one token for each of its steps. -/
theorem IsSpelled.tokensOf_spell {limit : Nat} {spellings : List Spelling}
    (spelled : IsSpelled limit spellings) :
    tokensOf (spell spellings) = spellings.map Spelling.token := by
  cases spellings with
  | nil => exact spelled.elim
  | cons first later =>
      rw [spell_cons, tokensOf_append_spell spelled.2, spelled.1.tokensOf_text]
      simp

end TreePath.Path
