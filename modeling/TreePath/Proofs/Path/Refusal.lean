import TreePath.Proofs.Path.Grammar

set_option autoImplicit false

/-!
# Where and why a path is refused

A refused path begins with steps that are spelled within the limit, and what stands after them
goes wrong at once. `Fault` has the ways to go wrong. Most of them are settled by what has been
read, so that no continuation mends them. Only a bracket that is still open, and a key that is
still missing, are faults of where the path ends.
-/

namespace TreePath

open TreePath.Path TreePath.Text

/-- The byte offset that a refusal points at. -/
def Refusal.position : Refusal → Nat
  | empty => 0
  | malformed offset _ => offset
  | indexLimit stop _ _ => stop
  | conflict stop _ _ => stop

/-- Whether the fault is that the path ends where it does. -/
def Refusal.isUnfinished : Refusal → Bool
  | empty => true
  | malformed _ .unterminatedIndex => true
  | malformed _ .missingKey => true
  | _ => false

theorem Path.Spelling.IsValid.text_ne_nil {limit : Nat} {spelling : Spelling}
    (valid : spelling.IsValid limit) : spelling.text ≠ [] := by
  cases spelling with
  | key dots word => exact List.append_ne_nil_of_right_ne_nil _ valid.1
  | index digits => exact List.cons_ne_nil _ _

namespace Plan

/-- Whether a text begins with a mark that sets off a step. -/
def BeginsStep (text : List Char) : Prop :=
  ∃ mark inner, mark ≠ Mark.closing ∧ text = mark.toChar :: inner

theorem BeginsStep.ne_nil {text : List Char} (begins : BeginsStep text) : text ≠ [] := by
  obtain ⟨mark, inner, -, rfl⟩ := begins
  exact List.cons_ne_nil _ _

/-- How a text from byte `start` on goes wrong before any step of it is spelled. -/
inductive Fault (limit start : Nat) : List Char → Refusal → Prop
  | openingInsideIndex {word after : List Char} (plain : unmarked word = true) :
      Fault limit start ('[' :: (word ++ '[' :: after))
        (.malformed (start + 1 + byteLength word) .openingInsideIndex)
  | dotInsideIndex {word after : List Char} (plain : unmarked word = true) :
      Fault limit start ('[' :: (word ++ '.' :: after))
        (.malformed (start + 1 + byteLength word) .dotInsideIndex)
  | invalidIndex {word after : List Char} (plain : unmarked word = true)
      (unread : parseIndex? (String.ofList word) = none) :
      Fault limit start ('[' :: (word ++ ']' :: after)) (.malformed (start + 1) .invalidIndex)
  | overLimit {word after : List Char} {index : Nat} (plain : unmarked word = true)
      (parsed : parseIndex? (String.ofList word) = some index) (exceeds : limit < index) :
      Fault limit start ('[' :: (word ++ ']' :: after)) (.indexLimit start index limit)
  | missingMarkAfterIndex {digits after : List Char} {character : Char}
      (valid : (Spelling.index digits).IsValid limit) (noDot : character ≠ '.')
      (noOpening : character ≠ '[') :
      Fault limit start ((Spelling.index digits).text ++ character :: after)
        (.malformed (start + byteLength (Spelling.index digits).text) .missingMarkAfterIndex)
  | openingAfterDot {dots : Nat} {after : List Char} :
      Fault limit start ((Spelling.key (dots + 1) []).text ++ '[' :: after)
        (.malformed (start + byteLength (Spelling.key (dots + 1) []).text) .openingAfterDot)
  | unmatchedClosing {dots : Nat} {word after : List Char} (plain : unmarked word = true) :
      Fault limit start ((Spelling.key dots word).text ++ ']' :: after)
        (.malformed (start + byteLength (Spelling.key dots word).text) .unmatchedClosing)
  | unterminatedIndex {word : List Char} (plain : unmarked word = true) :
      Fault limit start ('[' :: word) (.malformed (start + 1 + byteLength word) .unterminatedIndex)
  | missingKey {dots : Nat} :
      Fault limit start (Spelling.key (dots + 1) []).text
        (.malformed (start + byteLength (Spelling.key (dots + 1) []).text) .missingKey)

/-- A text from byte `start` on with a fault in it, behind steps that are spelled. -/
inductive Refused (limit : Nat) : Nat → List Char → Refusal → Prop
  | here {start : Nat} {text : List Char} {refusal : Refusal} :
      Fault limit start text refusal → Refused limit start text refusal
  | behind {start : Nat} {first : Spelling} {text : List Char} {refusal : Refusal} :
      first.IsValid limit → BeginsStep text →
      Refused limit (start + byteLength first.text) text refusal →
      Refused limit start (first.text ++ text) refusal

variable {limit start : Nat} {text suffix : List Char} {refusal : Refusal}

/-! ## What a refusal points at -/

/-- A refusal points between two characters. An unfinished text is refused at its end, and an
index over the limit at its bracket. -/
structure PointsInto (start : Nat) (text : List Char) (refusal : Refusal)
    (before after : List Char) : Prop where
  text : text = before ++ after
  position : refusal.position = start + byteLength before
  isUnfinished : refusal.isUnfinished = true ↔ after = []
  isIndexLimit : ∀ stop index bound, refusal = .indexLimit stop index bound →
    ∃ rest, after = '[' :: rest

theorem Fault.exists_pointsInto (fault : Fault limit start text refusal) :
    ∃ before after, PointsInto start text refusal before after := by
  have opening (word : List Char) : byteLength ('[' :: word) = 1 + byteLength word := rfl
  cases fault with
  | @openingInsideIndex word after plain =>
      refine ⟨'[' :: word, '[' :: after, by simp, ?_, by simp [Refusal.isUnfinished], by simp⟩
      rw [opening, Refusal.position, Nat.add_assoc]
  | @dotInsideIndex word after plain =>
      refine ⟨'[' :: word, '.' :: after, by simp, ?_, by simp [Refusal.isUnfinished], by simp⟩
      rw [opening, Refusal.position, Nat.add_assoc]
  | @invalidIndex word after plain unread =>
      exact ⟨['['], word ++ ']' :: after, rfl, rfl, by simp [Refusal.isUnfinished], by simp⟩
  | @overLimit word after index plain parsed exceeds =>
      refine ⟨[], '[' :: (word ++ ']' :: after), rfl, rfl, by simp [Refusal.isUnfinished], ?_⟩
      exact fun _ _ _ _ => ⟨_, rfl⟩
  | missingMarkAfterIndex valid noDot noOpening =>
      exact ⟨_, _, rfl, rfl, by simp [Refusal.isUnfinished], by simp⟩
  | openingAfterDot => exact ⟨_, _, rfl, rfl, by simp [Refusal.isUnfinished], by simp⟩
  | unmatchedClosing plain => exact ⟨_, _, rfl, rfl, by simp [Refusal.isUnfinished], by simp⟩
  | @unterminatedIndex word plain =>
      refine ⟨'[' :: word, [], by simp, ?_, by simp [Refusal.isUnfinished], by simp⟩
      rw [opening, Refusal.position, Nat.add_assoc]
  | @missingKey dots =>
      exact ⟨_, [], (List.append_nil _).symm, rfl, by simp [Refusal.isUnfinished], by simp⟩

theorem Refused.exists_pointsInto (refused : Refused limit start text refusal) :
    ∃ before after, PointsInto start text refusal before after := by
  induction refused with
  | here fault => exact fault.exists_pointsInto
  | @behind start first text refusal valid begins later inductionHypothesis =>
      obtain ⟨before, after, found⟩ := inductionHypothesis
      refine ⟨first.text ++ before, after, ?_, ?_, found.isUnfinished, found.isIndexLimit⟩
      · rw [found.text, List.append_assoc]
      · rw [found.position, byteLength_append, Nat.add_assoc]

/-! ## What follows a refused text -/

theorem Fault.append (fault : Fault limit start text refusal)
    (settled : refusal.isUnfinished = false) (suffix : List Char) :
    Fault limit start (text ++ suffix) refusal := by
  cases fault with
  | openingInsideIndex plain =>
      rw [List.cons_append, List.append_assoc]
      exact .openingInsideIndex plain
  | dotInsideIndex plain =>
      rw [List.cons_append, List.append_assoc]
      exact .dotInsideIndex plain
  | invalidIndex plain unread =>
      rw [List.cons_append, List.append_assoc]
      exact .invalidIndex plain unread
  | overLimit plain parsed exceeds =>
      rw [List.cons_append, List.append_assoc]
      exact .overLimit plain parsed exceeds
  | missingMarkAfterIndex valid noDot noOpening =>
      rw [List.append_assoc]
      exact .missingMarkAfterIndex valid noDot noOpening
  | openingAfterDot =>
      rw [List.append_assoc]
      exact .openingAfterDot
  | unmatchedClosing plain =>
      rw [List.append_assoc]
      exact .unmatchedClosing plain
  | unterminatedIndex plain => cases settled
  | missingKey => cases settled

/-- A fault that is settled stays what it is, whatever follows. -/
theorem Refused.append (refused : Refused limit start text refusal)
    (settled : refusal.isUnfinished = false) (suffix : List Char) :
    Refused limit start (text ++ suffix) refusal := by
  induction refused with
  | here fault => exact .here (fault.append settled suffix)
  | behind valid begins later inductionHypothesis =>
      obtain ⟨mark, inner, noClosing, rfl⟩ := begins
      rw [List.append_assoc]
      exact .behind valid ⟨mark, inner ++ suffix, noClosing, rfl⟩ (inductionHypothesis settled)

/-! ## Scanning finds the fault -/

/-- Scans a text from byte `start` on, where a step may begin. -/
def scanText (limit start : Nat) (text : List Char) : Except Refusal Plan :=
  scanKey limit false start (Pieces.ofText text).first (Pieces.ofText text).rest

theorem pieces_word_mark {word : List Char} (plain : unmarked word = true) (mark : Mark)
    (after : List Char) :
    Pieces.ofText (word ++ mark.toChar :: after) =
      ⟨word, (mark, (Pieces.ofText after).first) :: (Pieces.ofText after).rest⟩ := by
  rw [Pieces.ofText_append_of_unmarked plain, Pieces.ofText_mark, List.append_nil]

theorem pieces_word {word : List Char} (plain : unmarked word = true) :
    Pieces.ofText word = ⟨word, []⟩ := by
  have alone := Pieces.ofText_append_of_unmarked plain []
  simpa [Pieces.ofText] using alone

/-- Dots and a word in front of a text are scanned over, and the word then begins it. -/
theorem scanText_key {dots : Nat} {word : List Char} (plain : unmarked word = true)
    (text : List Char) :
    scanText limit start ((Spelling.key dots word).text ++ text) =
      scanKey limit (decide (0 < dots)) (start + dots) (word ++ (Pieces.ofText text).first)
        (Pieces.ofText text).rest := by
  cases dots with
  | zero =>
      rw [scanText, Spelling.text, List.replicate_zero, List.nil_append,
        Pieces.ofText_append_of_unmarked plain]
      rfl
  | succ dots =>
      rw [scanText, pieces_key dots word text plain, scanKey_dots, map_viaWord_nil]
      rfl

theorem scanText_opening (text : List Char) :
    scanText limit start ('[' :: text) =
      scanIndex limit start (Pieces.ofText text).first (Pieces.ofText text).rest := by
  have opening := Pieces.ofText_mark .opening text
  rw [Mark.toChar] at opening
  rw [scanText, opening, scanKey]
  simp [map_viaWord_nil]

/-- Where a word ends at a mark it is a key, and the scan goes on from the mark. -/
theorem scanKey_eq_error_iff {afterDot : Bool} {offset : Nat} {word next : List Char} {mark : Mark}
    {rest : List (Mark × List Char)} (nonempty : word ≠ []) :
    scanKey limit afterDot offset word ((mark, next) :: rest) = .error refusal ↔
      scanKey limit false (offset + byteLength word) [] ((mark, next) :: rest) =
        .error refusal := by
  cases mark with
  | dot => simp [scanKey, map_eq_error_iff]
  | opening => simp [scanKey, map_eq_error_iff, nonempty]
  | closing => simp [scanKey]

theorem BeginsStep.exists_pieces (begins : BeginsStep text) :
    ∃ mark next rest, mark ≠ Mark.closing ∧ Pieces.ofText text = ⟨[], (mark, next) :: rest⟩ := by
  obtain ⟨mark, inner, noClosing, rfl⟩ := begins
  exact ⟨mark, _, _, noClosing, Pieces.ofText_mark mark inner⟩

/-- Behind a valid index the path ends, or the next step begins. -/
theorem scanText_index {digits : List Char} (valid : (Spelling.index digits).IsValid limit)
    (text : List Char) :
    scanText limit start ((Spelling.index digits).text ++ text) =
      match (Pieces.ofText text).first, (Pieces.ofText text).rest with
      | [], [] => .ok ⟨[], (Spelling.index digits).step⟩
      | [], (.dot, next) :: rest =>
          (scanKey limit false (start + byteLength (Spelling.index digits).text) []
            ((.dot, next) :: rest)).map (via ⟨(Spelling.index digits).step, .object,
              start + byteLength (Spelling.index digits).text⟩)
      | [], (.opening, next) :: rest =>
          (scanKey limit false (start + byteLength (Spelling.index digits).text) []
            ((.opening, next) :: rest)).map (via ⟨(Spelling.index digits).step, .array,
              start + byteLength (Spelling.index digits).text⟩)
      | _, _ => .error (.malformed (start + byteLength (Spelling.index digits).text)
          .missingMarkAfterIndex) := by
  obtain ⟨parsed, withinLimit⟩ := parseIndex?_eq_some_iff_isValid.mpr ⟨valid, rfl⟩
  have size : start + byteLength (Spelling.index digits).text =
      start + 1 + byteLength digits + 1 := by
    simp only [Spelling.byteLength_text_index]
    omega
  have plain : unmarked digits = true := valid.unmarked
  rw [scanText, pieces_index digits text plain, scanKey, size]
  simp only [List.isEmpty_nil, Bool.and_false, Bool.false_eq_true, if_false, map_viaWord_nil,
    byteLength_nil, Nat.add_zero]
  rw [scanIndex, parsed]
  simp only [Nat.not_lt.mpr withinLimit, if_false]
  rfl

/-- A spelled step is scanned over where another one begins behind it. -/
theorem scanText_append_eq_error_iff {first : Spelling} (valid : first.IsValid limit)
    (begins : BeginsStep text) :
    scanText limit start (first.text ++ text) = .error refusal ↔
      scanText limit (start + byteLength first.text) text = .error refusal := by
  obtain ⟨mark, next, rest, noClosing, pieces⟩ := begins.exists_pieces
  cases first with
  | key dots word =>
      have plain : unmarked word = true := valid.unmarked
      rw [scanText_key plain, scanText, pieces, List.append_nil,
        scanKey_eq_error_iff valid.1, Spelling.byteLength_text_key, Nat.add_assoc]
  | index digits =>
      rw [scanText_index valid, scanText, pieces]
      cases mark with
      | dot => exact map_eq_error_iff
      | opening => exact map_eq_error_iff
      | closing => exact absurd rfl noClosing

theorem Fault.scanText_eq (fault : Fault limit start text refusal) :
    scanText limit start text = .error refusal := by
  cases fault with
  | @openingInsideIndex word after plain =>
      have pieces := pieces_word_mark plain .opening after
      rw [Mark.toChar] at pieces
      rw [scanText_opening, pieces, scanIndex]
  | @dotInsideIndex word after plain =>
      have pieces := pieces_word_mark plain .dot after
      rw [Mark.toChar] at pieces
      rw [scanText_opening, pieces, scanIndex]
  | @invalidIndex word after plain unread =>
      have pieces := pieces_word_mark plain .closing after
      rw [Mark.toChar] at pieces
      rw [scanText_opening, pieces, scanIndex, unread]
  | @overLimit word after index plain parsed exceeds =>
      have pieces := pieces_word_mark plain .closing after
      rw [Mark.toChar] at pieces
      rw [scanText_opening, pieces, scanIndex, parsed]
      simp [exceeds]
  | @missingMarkAfterIndex digits after character valid noDot noOpening =>
      rw [scanText_index valid]
      cases found : Mark.ofChar? character with
      | none => simp [Pieces.ofText, found]
      | some mark =>
          obtain rfl := Mark.ofChar?_eq_some_iff.mp found
          rw [Pieces.ofText_mark]
          cases mark with
          | dot => exact absurd rfl noDot
          | opening => exact absurd rfl noOpening
          | closing => rfl
  | @openingAfterDot dots after =>
      have pieces := Pieces.ofText_mark .opening after
      rw [Mark.toChar] at pieces
      rw [scanText_key rfl, pieces, scanKey]
      simp
  | @unmatchedClosing dots word after plain =>
      have pieces := Pieces.ofText_mark .closing after
      rw [Mark.toChar] at pieces
      rw [scanText_key plain, pieces, scanKey, List.append_nil, Spelling.byteLength_text_key,
        Nat.add_assoc]
  | @unterminatedIndex word plain => rw [scanText_opening, pieces_word plain, scanIndex]
  | @missingKey dots =>
      have scanned := @scanText_key limit start (dots + 1) [] rfl []
      rw [List.append_nil] at scanned
      rw [scanned]
      simp [Pieces.ofText, scanKey]

/-! ## Every refusal is one of these -/

theorem exists_word (text : List Char) :
    ∃ word tail, text = word ++ tail ∧ unmarked word = true ∧
      (tail = [] ∨ ∃ mark after, tail = Mark.toChar mark :: after) := by
  have whole := Pieces.toText_ofText text
  refine ⟨(Pieces.ofText text).first, Pieces.tailText (Pieces.ofText text).rest, whole.symm,
    Pieces.unmarked_first text, ?_⟩
  cases (Pieces.ofText text).rest with
  | nil => exact Or.inl rfl
  | cons piece rest => exact Or.inr ⟨piece.1, piece.2 ++ Pieces.tailText rest, rfl⟩

theorem exists_dots (text : List Char) :
    ∃ dots tail, text = List.replicate dots '.' ++ tail ∧ tail.head? ≠ some '.' := by
  induction text with
  | nil => exact ⟨0, [], rfl, by simp⟩
  | cons character rest inductionHypothesis =>
      by_cases dot : character = '.'
      · obtain ⟨dots, tail, rfl, noDot⟩ := inductionHypothesis
        exact ⟨dots + 1, tail, by simp [dot, List.replicate_succ], noDot⟩
      · exact ⟨0, character :: rest, rfl, by simp [dot]⟩

/-- A text that begins with a step that is spelled, at the end of which it ends or another step
begins. -/
def BeginsSpelled (limit : Nat) (text : List Char) : Prop :=
  ∃ first tail, Spelling.IsValid limit first ∧ text = first.text ++ tail ∧
    (tail = [] ∨ BeginsStep tail)

/-- An index is spelled, or goes wrong. -/
theorem exists_fault_or_beginsSpelled_opening (limit start : Nat) (text : List Char) :
    (∃ refusal, Fault limit start ('[' :: text) refusal) ∨ BeginsSpelled limit ('[' :: text) := by
  obtain ⟨word, tail, rfl, plain, rfl | ⟨mark, after, rfl⟩⟩ := exists_word text
  · rw [List.append_nil]
    exact Or.inl ⟨_, .unterminatedIndex plain⟩
  · cases mark with
    | dot => exact Or.inl ⟨_, .dotInsideIndex plain⟩
    | opening => exact Or.inl ⟨_, .openingInsideIndex plain⟩
    | closing =>
        cases parsed : parseIndex? (String.ofList word) with
        | none => exact Or.inl ⟨_, .invalidIndex plain parsed⟩
        | some index =>
            by_cases exceeds : limit < index
            · exact Or.inl ⟨_, .overLimit plain parsed exceeds⟩
            · have withinLimit := Nat.le_of_not_lt exceeds
              obtain ⟨valid, -⟩ := parseIndex?_eq_some_iff_isValid.mp ⟨parsed, withinLimit⟩
              have text : '[' :: (word ++ Mark.closing.toChar :: after) =
                  (Spelling.index word).text ++ after := by simp [Spelling.text, Mark.toChar]
              rw [text]
              cases after with
              | nil => exact Or.inr ⟨_, [], valid, rfl, Or.inl rfl⟩
              | cons character later =>
                  by_cases dot : character = '.'
                  · exact Or.inr ⟨_, _, valid, rfl, Or.inr ⟨.dot, later, by simp, by rw [dot]; rfl⟩⟩
                  · by_cases opening : character = '['
                    · exact Or.inr
                        ⟨_, _, valid, rfl, Or.inr ⟨.opening, later, by simp, by rw [opening]; rfl⟩⟩
                    · exact Or.inl ⟨_, .missingMarkAfterIndex valid dot opening⟩

theorem exists_fault_or_beginsSpelled (limit start : Nat) (nonempty : text ≠ []) :
    (∃ refusal, Fault limit start text refusal) ∨ BeginsSpelled limit text := by
  obtain ⟨dots, rest, rfl, noDot⟩ := exists_dots text
  obtain ⟨word, tail, rfl, plain, ends⟩ := exists_word rest
  rw [← List.append_assoc]
  by_cases empty : word = []
  · subst word
    rcases ends with rfl | ⟨mark, after, rfl⟩
    · obtain ⟨fewer, rfl⟩ : ∃ fewer, dots = fewer + 1 := by
        cases dots with
        | zero => simp at nonempty
        | succ fewer => exact ⟨fewer, rfl⟩
      rw [List.append_nil]
      exact Or.inl ⟨_, .missingKey⟩
    · cases mark with
      | dot => exact absurd rfl noDot
      | opening =>
          cases dots with
          | zero => exact exists_fault_or_beginsSpelled_opening limit start after
          | succ fewer => exact Or.inl ⟨_, .openingAfterDot⟩
      | closing => exact Or.inl ⟨_, .unmatchedClosing rfl⟩
  · have valid : (Spelling.key dots word).IsValid limit := ⟨empty, unmarked_iff.mp plain⟩
    rcases ends with rfl | ⟨mark, after, rfl⟩
    · exact Or.inr ⟨_, [], valid, rfl, Or.inl rfl⟩
    · cases mark with
      | dot => exact Or.inr ⟨_, _, valid, rfl, Or.inr ⟨.dot, after, by simp, rfl⟩⟩
      | opening => exact Or.inr ⟨_, _, valid, rfl, Or.inr ⟨.opening, after, by simp, rfl⟩⟩
      | closing => exact Or.inl ⟨_, .unmatchedClosing plain⟩

/-- A step that is spelled and nothing else is no error. -/
theorem scanText_spelling_ne_error {first : Spelling} (valid : first.IsValid limit) :
    scanText limit start first.text ≠ .error refusal := by
  rw [← List.append_nil first.text]
  cases first with
  | key dots word =>
      have plain : unmarked word = true := valid.unmarked
      rw [scanText_key plain]
      simp [Pieces.ofText, scanKey, valid.1]
  | index digits =>
      rw [scanText_index valid]
      simp [Pieces.ofText]

/-- A scan fails exactly where steps that are spelled have a fault behind them. -/
theorem scanText_eq_error_iff (nonempty : text ≠ []) :
    scanText limit start text = .error refusal ↔ Refused limit start text refusal := by
  constructor
  · intro failed
    -- What stands behind a spelled step is shorter than the text.
    induction size : text.length using Nat.strongRecOn generalizing start text with
    | ind length inductionHypothesis =>
        subst size
        rcases exists_fault_or_beginsSpelled limit start nonempty with
          ⟨found, fault⟩ | ⟨first, tail, valid, rfl, rfl | begins⟩
        · obtain rfl := Except.error.inj (fault.scanText_eq.symm.trans failed)
          exact .here fault
        · rw [List.append_nil] at failed
          exact absurd failed (scanText_spelling_ne_error valid)
        · have later := (scanText_append_eq_error_iff valid begins).mp failed
          have shorter : tail.length < (first.text ++ tail).length := by
            rw [List.length_append]
            exact Nat.lt_add_of_pos_left (List.length_pos_iff.mpr valid.text_ne_nil)
          exact .behind valid begins (inductionHypothesis _ shorter begins.ne_nil later rfl)
  · intro refused
    induction refused with
    | here fault => exact fault.scanText_eq
    | behind valid begins later inductionHypothesis =>
        exact (scanText_append_eq_error_iff valid begins).mpr (inductionHypothesis begins.ne_nil)

theorem ofPath_eq_error_iff {path : String} (nonempty : path ≠ "") :
    ofPath limit path = .error refusal ↔ Refused limit 0 path.toList refusal := by
  have characters : path.toList ≠ [] := fun none => nonempty (String.toList_eq_nil_iff.mp none)
  rw [← scanText_eq_error_iff characters, ofPath]
  split
  · rename_i none
    exact absurd none characters
  · rfl

/-! ## Unfinished paths -/

/-- What an unfinished text ends with. -/
inductive EndsOpen : List Char → Defect → Prop
  | unterminatedIndex {front word : List Char} (plain : unmarked word = true) :
      EndsOpen (front ++ '[' :: word) .unterminatedIndex
  | missingKey {front : List Char} : EndsOpen (front ++ ['.']) .missingKey

theorem Refused.endsOpen {offset : Nat} {defect : Defect}
    (refused : Refused limit start text (.malformed offset defect))
    (unfinished : (Refusal.malformed offset defect).isUnfinished = true) :
    EndsOpen text defect := by
  generalize shape : Refusal.malformed offset defect = refusal at refused unfinished
  induction refused with
  | here fault =>
      cases fault with
      | unterminatedIndex plain =>
          cases shape
          exact @EndsOpen.unterminatedIndex [] _ plain
      | @missingKey dots =>
          cases shape
          have last : (Spelling.key (dots + 1) []).text = List.replicate dots '.' ++ ['.'] := by
            rw [Spelling.text, List.append_nil, List.replicate_succ']
          rw [last]
          exact .missingKey
      | _ => cases unfinished
  | @behind start first text refusal valid begins later inductionHypothesis =>
      cases inductionHypothesis shape unfinished with
      | unterminatedIndex plain =>
          rw [← List.append_assoc]
          exact .unterminatedIndex plain
      | missingKey =>
          rw [← List.append_assoc]
          exact .missingKey

/-! ## Longer and shorter paths -/

theorem byteLength_eq_zero_iff {characters : List Char} :
    byteLength characters = 0 ↔ characters = [] := by
  cases characters with
  | nil => simp
  | cons character rest =>
      have positive := character.utf8Size_pos
      simp only [byteLength_cons, List.cons_ne_nil, iff_false]
      omega

/-- Of the refusals only these two are for the text of a path. -/
theorem Refused.refusal_cases (refused : Refused limit start text refusal) :
    (∃ offset defect, refusal = .malformed offset defect) ∨
      ∃ stop index, refusal = .indexLimit stop index limit := by
  induction refused with
  | here fault =>
      cases fault with
      | overLimit => exact Or.inr ⟨_, _, rfl⟩
      | _ => exact Or.inl ⟨_, _, rfl⟩
  | behind valid begins later inductionHypothesis => exact inductionHypothesis

/-- The unfinished texts are those that are refused at their end. -/
theorem Refused.isUnfinished_iff (refused : Refused limit start text refusal) :
    refusal.isUnfinished = true ↔
      ∃ defect, refusal = .malformed (start + byteLength text) defect := by
  obtain ⟨before, after, found⟩ := refused.exists_pointsInto
  have size : byteLength text = byteLength before + byteLength after := by
    rw [found.text, byteLength_append]
  have position := found.position
  rw [found.isUnfinished, ← byteLength_eq_zero_iff]
  rcases refused.refusal_cases with ⟨offset, defect, rfl⟩ | ⟨stop, index, rfl⟩
  · simp only [Refusal.position] at position
    simp only [Refusal.malformed.injEq, exists_eq_right']
    omega
  · obtain ⟨rest, rfl⟩ := found.isIndexLimit stop index limit rfl
    rw [@byteLength_eq_zero_iff ('[' :: rest)]
    simp

/-- No continuation mends a path that is refused before its end. -/
theorem ofPath_append_of_settled {path : String} (nonempty : path ≠ "")
    (refused : ofPath limit path = .error refusal) (settled : refusal.isUnfinished = false)
    (suffix : String) : ofPath limit (path ++ suffix) = .error refusal := by
  have longer : path ++ suffix ≠ "" := by
    intro none
    exact nonempty (String.append_eq_empty_iff.mp none).1
  rw [ofPath_eq_error_iff longer, String.toList_append]
  exact ((ofPath_eq_error_iff nonempty).mp refused).append settled suffix.toList

theorem EndsOpen.isUnfinished {offset : Nat} {defect : Defect} (endsOpen : EndsOpen text defect) :
    (Refusal.malformed offset defect).isUnfinished = true := by
  cases endsOpen <;> rfl

/-- A text is refused at its end for what it ends with, and for nothing else. -/
theorem Refused.atEnd_iff_endsOpen {offset : Nat} {defect : Defect}
    (refused : Refused limit start text (.malformed offset defect)) :
    offset = start + byteLength text ↔ EndsOpen text defect := by
  constructor
  · rintro rfl
    exact refused.endsOpen (refused.isUnfinished_iff.mpr ⟨defect, rfl⟩)
  · intro endsOpen
    obtain ⟨_, same⟩ := refused.isUnfinished_iff.mp endsOpen.isUnfinished
    exact (Refusal.malformed.inj same).1

/-- What is cut off before a refusal is the same in a longer path. -/
theorem upTo_position {path : String} {before after : List Char}
    (points : PointsInto 0 path.toList refusal before after) (suffix : String) :
    upTo (path ++ suffix) refusal.position = String.ofList before := by
  rw [upTo, points.position, Nat.zero_add, String.toList_append, points.text, List.append_assoc,
    takeBytes_append]

/-- A path that is refused at its end has no beginning that is refused before its own. -/
theorem refused_atEnd_of_append {part rest : String} {earlier : Refusal} {defect : Defect}
    (refused : ofPath limit (part ++ rest) =
      .error (.malformed (byteLength (part ++ rest).toList) defect))
    (earlierRefused : ofPath limit part = .error earlier) :
    earlier = .empty ∨ ∃ defect, earlier = .malformed (byteLength part.toList) defect := by
  by_cases emptyPart : part = ""
  · subst part
    exact Or.inl (Except.error.inj earlierRefused).symm
  · have found := (ofPath_eq_error_iff emptyPart).mp earlierRefused
    have unfinished := found.isUnfinished_iff
    rw [Nat.zero_add] at unfinished
    cases settled : earlier.isUnfinished with
    | true => exact Or.inr (unfinished.mp settled)
    | false =>
        have same := ofPath_append_of_settled emptyPart earlierRefused settled rest
        obtain rfl := Except.error.inj (same.symm.trans refused)
        have longer : part ++ rest ≠ "" := fun none =>
          emptyPart (String.append_eq_empty_iff.mp none).1
        have atEnd := ((ofPath_eq_error_iff longer).mp refused).isUnfinished_iff
        rw [Nat.zero_add] at atEnd
        rw [atEnd.mpr ⟨defect, rfl⟩] at settled
        cases settled

/-- A refusal of a path points between two characters, and one for an index over the limit at the
bracket of the index. Refused before its end, a path is refused in the same way whatever follows.
Refused at its end, a bracket is open or a key is missing there, and no shorter path is refused
before its own end. -/
theorem ofPath_append_of_refused {path : String} (nonempty : path ≠ "")
    (refused : ofPath limit path = .error refusal) :
    ((∃ offset defect, refusal = .malformed offset defect ∧
        offset ≤ byteLength path.toList ∧
        (∃ before after, path.toList = before ++ after ∧ byteLength before = offset) ∧
        (offset = byteLength path.toList ↔ EndsOpen path.toList defect)) ∨
      ∃ stop index, refusal = .indexLimit stop index limit ∧
        ∃ after, path.toList = (upTo path stop).toList ++ '[' :: after) ∧
    ((∀ defect, refusal ≠ .malformed (byteLength path.toList) defect) → ∀ suffix,
      ofPath limit (path ++ suffix) = .error refusal ∧
        ∀ stop index bound, refusal = .indexLimit stop index bound →
          refusal.report (path ++ suffix) = refusal.report path) ∧
    ∀ defect, refusal = .malformed (byteLength path.toList) defect →
      ∀ part rest earlier, path = part ++ rest → ofPath limit part = .error earlier →
        earlier = .empty ∨ ∃ defect, earlier = .malformed (byteLength part.toList) defect := by
  have found := (ofPath_eq_error_iff nonempty).mp refused
  obtain ⟨before, after, points⟩ := found.exists_pointsInto
  refine ⟨?_, ?_, ?_⟩
  · have position := points.position
    rw [Nat.zero_add] at position
    rcases found.refusal_cases with ⟨offset, defect, rfl⟩ | ⟨stop, index, rfl⟩
    · have atEnd := found.atEnd_iff_endsOpen
      rw [Nat.zero_add] at atEnd
      obtain rfl : offset = byteLength before := position
      refine Or.inl ⟨_, defect, rfl, ?_, ⟨before, after, points.text, rfl⟩, atEnd⟩
      rw [points.text, byteLength_append]
      exact Nat.le_add_right _ _
    · obtain ⟨rest, rfl⟩ := points.isIndexLimit _ _ _ rfl
      have begins := upTo_position points ""
      rw [String.append_empty] at begins
      refine Or.inr ⟨stop, index, rfl, rest, ?_⟩
      rw [show upTo path stop = String.ofList before from begins, String.toList_ofList]
      exact points.text
  · intro beforeEnd suffix
    have settled : refusal.isUnfinished = false := by
      rw [Bool.eq_false_iff, Ne, found.isUnfinished_iff, Nat.zero_add]
      rintro ⟨defect, same⟩
      exact beforeEnd defect same
    refine ⟨ofPath_append_of_settled nonempty refused settled suffix, ?_⟩
    rintro stop index bound rfl
    have begins := upTo_position points ""
    rw [String.append_empty] at begins
    have same : upTo (path ++ suffix) stop = upTo path stop :=
      (upTo_position points suffix).trans begins.symm
    rw [Refusal.report, Refusal.report, same]
  · rintro defect rfl part rest earlier rfl earlierRefused
    exact refused_atEnd_of_append refused earlierRefused

theorem refusals_of_index_over_limit_and_open_bracket :
    ofPath 7 "é[12]" = .error (.indexLimit 2 12 7) ∧
      (∀ suffix, ofPath 7 ("é[12]" ++ suffix) = .error (.indexLimit 2 12 7) ∧
        (Refusal.indexLimit 2 12 7).report ("é[12]" ++ suffix) = .indexLimit "é" 12 7) ∧
      ofPath 7 "é[12" = .error (.malformed 5 .unterminatedIndex) ∧
      EndsOpen "é[12".toList .unterminatedIndex ∧
      ∀ part rest earlier, "é[12" = part ++ rest → ofPath 7 part = .error earlier →
        earlier = .empty ∨ ∃ defect, earlier = .malformed (byteLength part.toList) defect := by
  have key : (Spelling.key 0 ['é']).IsValid 7 := by decide
  have overLimit : ofPath 7 "é[12]" = .error (.indexLimit 2 12 7) := by
    rw [ofPath_eq_error_iff (by decide)]
    have text : "é[12]".toList =
        (Spelling.key 0 ['é']).text ++ '[' :: (['1', '2'] ++ ']' :: []) := by decide
    rw [text]
    exact .behind key ⟨.opening, _, by decide, rfl⟩
      (.here (.overLimit (by decide) (by decide) (by decide)))
  have unterminated : ofPath 7 "é[12" = .error (.malformed 5 .unterminatedIndex) := by
    rw [ofPath_eq_error_iff (by decide)]
    have text : "é[12".toList = (Spelling.key 0 ['é']).text ++ '[' :: ['1', '2'] := by decide
    rw [text]
    exact .behind key ⟨.opening, _, by decide, rfl⟩ (.here (.unterminatedIndex (by decide)))
  obtain ⟨-, settled, -⟩ := ofPath_append_of_refused (by decide) overLimit
  obtain ⟨pointed, -, unfinished⟩ := ofPath_append_of_refused (by decide) unterminated
  refine ⟨overLimit, ?_, unterminated, ?_, ?_⟩
  · intro suffix
    obtain ⟨refused, reported⟩ := settled (by simp) suffix
    refine ⟨refused, ?_⟩
    rw [reported 2 12 7 rfl]
    decide
  · rcases pointed with ⟨offset, defect, same, -, -, atEnd⟩ | ⟨stop, index, same, -⟩
    · obtain ⟨rfl, rfl⟩ := Refusal.malformed.inj same
      exact atEnd.mp (by decide)
    · cases same
  · exact unfinished .unterminatedIndex (by decide)

end Plan

end TreePath
