set_option autoImplicit false

/-!
A path is punctuated by three marks: the dot and the two square brackets. `Pieces` is a text
cut at every mark, the form that both readings of a path start from: looking a path up drops
the marks, storing at a path checks them.
-/

namespace TreePath.Path

/-- The characters that separate the words of a path. -/
inductive Mark where
  | dot
  | opening
  | closing
  deriving DecidableEq

namespace Mark

def toChar : Mark → Char
  | dot => '.'
  | opening => '['
  | closing => ']'

def ofChar? (character : Char) : Option Mark :=
  if character = '.' then some dot
  else if character = '[' then some opening
  else if character = ']' then some closing
  else none

@[simp] theorem ofChar?_toChar (mark : Mark) : ofChar? mark.toChar = some mark := by
  cases mark <;> decide

theorem ofChar?_eq_some_iff {character : Char} {mark : Mark} :
    ofChar? character = some mark ↔ character = mark.toChar := by
  constructor
  · intro found
    cases mark <;> grind [ofChar?, toChar]
  · rintro rfl
    exact ofChar?_toChar mark

end Mark

/-- A word is plain when it holds no mark. -/
def unmarked (word : List Char) : Bool :=
  word.all fun character => (Mark.ofChar? character).isNone

/-- A text cut at its marks: the word before the first mark, then each mark with the word
that follows it. -/
structure Pieces where
  first : List Char
  rest : List (Mark × List Char)
  deriving DecidableEq

namespace Pieces

def ofText : List Char → Pieces
  | [] => ⟨[], []⟩
  | character :: following =>
      let pieces := ofText following
      match Mark.ofChar? character with
      | some mark => ⟨[], (mark, pieces.first) :: pieces.rest⟩
      | none => ⟨character :: pieces.first, pieces.rest⟩

/-- The text of the marks and words after the first word. -/
def tailText (rest : List (Mark × List Char)) : List Char :=
  rest.flatMap fun (mark, word) => mark.toChar :: word

def toText (pieces : Pieces) : List Char :=
  pieces.first ++ tailText pieces.rest

/-- All words, empty ones included. -/
def words (pieces : Pieces) : List (List Char) :=
  pieces.first :: pieces.rest.map Prod.snd

/-- Cutting loses nothing. -/
@[simp] theorem toText_ofText (text : List Char) : (ofText text).toText = text := by
  induction text with
  | nil => rfl
  | cons character following inductionHypothesis =>
      simp only [toText, tailText] at inductionHypothesis ⊢
      cases found : Mark.ofChar? character with
      | none => simp [ofText, found, inductionHypothesis]
      | some mark =>
          simp [ofText, inductionHypothesis, Mark.ofChar?_eq_some_iff.mp found]

/-- A mark cuts a text in two whose words do not touch, whatever stands on either side. -/
theorem words_ofText_append (before after : List Char) (mark : Mark) :
    (ofText (before ++ mark.toChar :: after)).words =
      (ofText before).words ++ (ofText after).words := by
  induction before with
  | nil => simp [ofText, words]
  | cons character following inductionHypothesis =>
      simp only [words, List.cons_append, List.cons.injEq] at inductionHypothesis
      cases found : Mark.ofChar? character with
      | none =>
          simp only [List.cons_append, ofText, found, words, List.cons.injEq, true_and]
          exact inductionHypothesis
      | some other =>
          simp only [List.cons_append, ofText, found, words, List.map_cons, List.cons.injEq,
            true_and]
          exact ⟨inductionHypothesis.1, inductionHypothesis.2⟩

/-- A mark at the beginning of a text cuts off an empty word. -/
@[simp] theorem ofText_mark (mark : Mark) (text : List Char) :
    ofText (mark.toChar :: text) = ⟨[], (mark, (ofText text).first) :: (ofText text).rest⟩ := by
  simp [ofText]

/-- A word without marks belongs to the first word of the text that it begins. -/
theorem ofText_append_of_unmarked {word : List Char} (plain : unmarked word = true)
    (text : List Char) :
    ofText (word ++ text) = ⟨word ++ (ofText text).first, (ofText text).rest⟩ := by
  induction word with
  | nil => rfl
  | cons character rest inductionHypothesis =>
      simp only [unmarked, List.all_cons, Bool.and_eq_true, Option.isNone_iff_eq_none] at plain
      obtain ⟨noMark, restPlain⟩ := plain
      simp only [List.cons_append, ofText, noMark, inductionHypothesis restPlain]

/-- No word of a cut text holds a mark. -/
theorem unmarked_of_mem_words {text word : List Char} (membership : word ∈ (ofText text).words) :
    unmarked word = true := by
  induction text generalizing word with
  | nil => simp_all [ofText, words, unmarked]
  | cons character following inductionHypothesis =>
      cases found : Mark.ofChar? character with
      | none =>
          simp only [ofText, found, words, List.mem_cons] at membership inductionHypothesis
          rcases membership with equality | later
          · subst equality
            have plain := inductionHypothesis (Or.inl rfl)
            simp_all [unmarked]
          · exact inductionHypothesis (Or.inr later)
      | some mark =>
          simp only [ofText, found, words, List.map_cons, List.mem_cons] at membership inductionHypothesis
          rcases membership with equality | later
          · simp [equality, unmarked]
          · exact inductionHypothesis later

theorem unmarked_first (text : List Char) : unmarked (ofText text).first = true :=
  unmarked_of_mem_words List.mem_cons_self

theorem unmarked_of_mem_rest {text : List Char} :
    ∀ piece ∈ (ofText text).rest, unmarked piece.2 = true := by
  intro piece membership
  exact unmarked_of_mem_words (List.mem_cons_of_mem _ (List.mem_map_of_mem membership))

end Pieces

end TreePath.Path
