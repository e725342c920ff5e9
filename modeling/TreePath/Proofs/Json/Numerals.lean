import Mathlib.Data.List.TakeWhile
import TreePath.Json.Numeral

set_option autoImplicit false

/-!
# Written numbers read back

A numeral ends where a text goes on with what cannot belong to it, so what is read from the numeral
alone is also read where it stands in a document. Integers are always read back. A float has the
fewest digits that name it when read exactly, but it is scaled in two rounded steps when it is read,
which miss some floats by a unit of the last place: `isLegible` says that a number is not one of
them.
-/

namespace TreePath.Json

/-! ## Numerals within a text -/

/-- Whether a text goes on with no part of a numeral. -/
def endsNumeral : List Char → Bool
  | [] => true
  | next :: _ => !(next.isDigit || next = '.' || next = 'e' || next = 'E')

theorem isDigit_eq_false_of_endsNumeral {next : Char} {rest : List Char}
    (ends : endsNumeral (next :: rest) = true) : next.isDigit = false := by
  simp_all [endsNumeral]

/-- A reader that reads of a text what it reads of its front, if the front may end there. -/
def ReadsFront {Result : Type} (read : List Char → Except Fault (Result × List Char)) : Prop :=
  ∀ ⦃text rest left : List Char⦄ ⦃result : Result⦄, endsNumeral rest = true →
    read text = .ok (result, left) → read (text ++ rest) = .ok (result, left ++ rest)

section Combined

variable {Result Other : Type} {read : List Char → Except Fault (Result × List Char)}

theorem ReadsFront.map (reads : ReadsFront read) (convert : Result → Other) :
    ReadsFront fun text => (read text).map fun result => (convert result.1, result.2) := by
  intro text rest left result ends taken
  cases found : read text with
  | error fault =>
      simp only [found] at taken
      cases taken
  | ok first =>
      simp only [found] at taken
      cases taken
      simp only [reads ends found]
      rfl

theorem ReadsFront.bind {next : Result → List Char → Except Fault (Other × List Char)}
    (reads : ReadsFront read) (goesOn : ∀ result, ReadsFront (next result)) :
    ReadsFront fun text => read text >>= fun result => next result.1 result.2 := by
  intro text rest left result ends taken
  cases found : read text with
  | error fault =>
      simp only [found] at taken
      cases taken
  | ok first =>
      simp only [found] at taken
      simp only [reads ends found]
      exact goesOn first.1 ends taken

end Combined

theorem takeWhile_isDigit_append {rest : List Char} (ends : endsNumeral rest = true)
    (text : List Char) :
    (text ++ rest).takeWhile Char.isDigit = text.takeWhile Char.isDigit ∧
      (text ++ rest).dropWhile Char.isDigit = text.dropWhile Char.isDigit ++ rest := by
  induction text with
  | nil =>
      cases rest with
      | nil => exact ⟨rfl, rfl⟩
      | cons next later => simp [isDigit_eq_false_of_endsNumeral ends]
  | cons character later inductionHypothesis =>
      cases digit : character.isDigit <;> simp [digit, inductionHypothesis]

theorem readDigits_eq_ok_iff {text digits left : List Char} :
    readDigits text = .ok (digits, left) ↔
      text.takeWhile Char.isDigit = digits ∧ digits ≠ [] ∧ text.dropWhile Char.isDigit = left := by
  rw [readDigits]
  split <;> grind

theorem readsFront_readDigits : ReadsFront readDigits := by
  intro text rest left digits ends read
  obtain ⟨taken, nonempty, dropped⟩ := readDigits_eq_ok_iff.mp read
  obtain ⟨takenStill, droppedStill⟩ := takeWhile_isDigit_append ends text
  exact readDigits_eq_ok_iff.mpr ⟨takenStill.trans taken, nonempty, by rw [droppedStill, dropped]⟩

theorem readWhole_zero_cons (next : Char) (rest : List Char) :
    readWhole ('0' :: next :: rest) =
      if next.isDigit then .error .malformed else .ok (['0'], next :: rest) :=
  rfl

theorem readWhole_of_ne_zero {first : Char} (notZero : first ≠ '0') (rest : List Char) :
    readWhole (first :: rest) = readDigits (first :: rest) := by
  rw [readWhole]
  intro _ same
  exact notZero (List.cons.inj same).1

theorem readsFront_readWhole : ReadsFront readWhole := by
  intro text rest left digits ends read
  cases text with
  | nil => cases read
  | cons first later =>
      -- A zero stands alone: where the text ends behind it, it matters what follows.
      by_cases zero : first = '0'
      · subst first
        cases later with
        | nil =>
            cases read
            cases rest with
            | nil => rfl
            | cons next further =>
                rw [List.singleton_append, readWhole_zero_cons,
                  isDigit_eq_false_of_endsNumeral ends]
                rfl
        | cons next further =>
            rw [readWhole_zero_cons] at read
            split at read
            · cases read
            · rename_i noDigit
              cases read
              exact if_neg noDigit
      · rw [readWhole_of_ne_zero zero] at read
        rw [List.cons_append, readWhole_of_ne_zero zero]
        exact readsFront_readDigits ends read

theorem readsFront_readFraction : ReadsFront readFraction := by
  intro text rest left fraction ends read
  cases text with
  | nil =>
      cases read
      rw [List.nil_append, readFraction]
      rintro later rfl
      simp [endsNumeral] at ends
  | cons first later =>
      by_cases point : first = '.'
      · subst first
        exact readsFront_readDigits.map some ends read
      · have noFraction (text : List Char) :
            readFraction (first :: text) = .ok (none, first :: text) := by
          rw [readFraction]
          intro _ same
          exact point (List.cons.inj same).1
        rw [noFraction] at read
        cases read
        exact noFraction (later ++ rest)

theorem readSign_append {text : List Char} (nonempty : text ≠ []) (rest : List Char) :
    readSign (text ++ rest) = ((readSign text).1, (readSign text).2 ++ rest) := by
  cases text with
  | nil => contradiction
  | cons first later =>
      unfold readSign
      split <;> simp_all

theorem readExponent_of_not_mark {first : Char} (noMark : (first = 'e' || first = 'E') = false)
    (rest : List Char) : readExponent (first :: rest) = .ok (none, first :: rest) := by
  rw [readExponent, noMark]
  rfl

theorem readExponent_of_mark {first : Char} (mark : (first = 'e' || first = 'E') = true)
    (rest : List Char) :
    readExponent (first :: rest) =
      (readDigits (readSign rest).2).map
        fun result => (some ((readSign rest).1, result.1), result.2) := by
  rw [readExponent, if_pos mark]

theorem readsFront_readExponent : ReadsFront readExponent := by
  intro text rest left exponent ends read
  cases text with
  | nil =>
      cases read
      cases rest with
      | nil => rfl
      | cons next later =>
          apply readExponent_of_not_mark
          simp_all [endsNumeral]
  | cons first later =>
      cases mark : (first = 'e' || first = 'E' : Bool) with
      | false =>
          rw [readExponent_of_not_mark mark] at read
          cases read
          exact readExponent_of_not_mark mark (later ++ rest)
      | true =>
          rw [readExponent_of_mark mark] at read
          -- Digits were read after the mark, so a sign that follows the text is not looked at.
          have nonempty : later ≠ [] := by
            rintro rfl
            cases read
          rw [List.cons_append, readExponent_of_mark mark, readSign_append nonempty]
          have signed := readsFront_readDigits.map fun digits => some ((readSign later).1, digits)
          exact signed ends read

/-- What `readNumeral` does after the sign. -/
def readUnsigned (negative : Bool) (text : List Char) : Except Fault (Numeral × List Char) :=
  readWhole text >>= fun whole =>
    readFraction whole.2 >>= fun fraction =>
      (readExponent fraction.2).map fun exponent =>
        (⟨negative, whole.1, fraction.1, exponent.1⟩, exponent.2)

theorem readNumeral_minus (rest : List Char) : readNumeral ('-' :: rest) = readUnsigned true rest :=
  rfl

theorem readNumeral_of_ne_minus {first : Char} (notMinus : first ≠ '-') (rest : List Char) :
    readNumeral (first :: rest) = readUnsigned false (first :: rest) := by
  unfold readNumeral
  split
  rename_i separated
  split at separated
  · rename_i same
    exact absurd (List.cons.inj same).1 notMinus
  · cases separated
    rfl

theorem readsFront_readNumeral : ReadsFront readNumeral := by
  have unsigned (negative : Bool) : ReadsFront (readUnsigned negative) :=
    readsFront_readWhole.bind fun _ => readsFront_readFraction.bind fun _ =>
      readsFront_readExponent.map _
  intro text rest left numeral ends read
  cases text with
  | nil => cases read
  | cons first later =>
      by_cases minus : first = '-'
      · subst first
        exact unsigned true ends read
      · rw [List.cons_append, readNumeral_of_ne_minus minus]
        rw [readNumeral_of_ne_minus minus] at read
        exact unsigned false ends read

theorem readNumber_eq_ok_iff {text left : List Char} {number : Number} :
    readNumber text = .ok (number, left) ↔
      ∃ numeral, readNumeral text = .ok (numeral, left) ∧ numeral.toNumber? = some number := by
  unfold readNumber
  cases readNumeral text with
  | error fault => simp [Bind.bind, Except.bind]
  | ok result =>
      obtain ⟨numeral, rest⟩ := result
      simp only [Bind.bind, Except.bind, pure, Except.pure]
      cases sized : numeral.toNumber? <;> grind

theorem readsFront_readNumber : ReadsFront readNumber := by
  intro text rest left number ends read
  obtain ⟨numeral, taken, sized⟩ := readNumber_eq_ok_iff.mp read
  exact readNumber_eq_ok_iff.mpr ⟨numeral, readsFront_readNumeral ends taken, sized⟩

/-- A number starts with a minus or a digit. -/
theorem isDigit_of_readNumber {first : Char} {text left : List Char} {number : Number}
    (read : readNumber (first :: text) = .ok (number, left)) :
    first = '-' ∨ first.isDigit = true := by
  by_contra neither
  obtain ⟨notMinus, notDigit⟩ := not_or.mp neither
  have notZero : first ≠ '0' := by
    rintro rfl
    exact notDigit rfl
  have noDigits : readDigits (first :: text) = .error .malformed := by
    rw [readDigits, List.takeWhile_cons_of_neg notDigit]
    rfl
  rw [readNumber, readNumeral_of_ne_minus notMinus, readUnsigned, readWhole_of_ne_zero notZero,
    noDigits] at read
  cases read

/-! ## Written numbers -/

/-- Whether the text of a number reads back as that number. -/
def Number.isLegible (number : Number) : Bool :=
  match readNumber number.write with
  | .ok (other, left) => other = number && left.isEmpty
  | .error _ => false

theorem Number.isLegible_iff {number : Number} :
    number.isLegible = true ↔ readNumber number.write = .ok (number, []) := by
  rw [isLegible]
  split
  · rename_i other left read
    simp [read]
  · rename_i fault read
    simp [read]

/-- A legible number is read back wherever it stands. -/
theorem readNumber_write {number : Number} (legible : number.isLegible = true) {rest : List Char}
    (ends : endsNumeral rest = true) : readNumber (number.write ++ rest) = .ok (number, rest) :=
  readsFront_readNumber ends (Number.isLegible_iff.mp legible)

/-- Some floats are read back as a neighbour. -/
example : (Number.float ⟨0x3b282db34012b251⟩ rfl).isLegible = false := by
  decide +kernel

/-! ## Integers -/

theorem isDigit_of_mem_digits {number : Nat} {character : Char}
    (membership : character ∈ Decimal.digits number) : character.isDigit = true :=
  Nat.isDigit_of_mem_toDigits (by decide) (by decide) membership

theorem readDigits_digits (number : Nat) :
    readDigits (Decimal.digits number) = .ok (Decimal.digits number, []) := by
  refine readDigits_eq_ok_iff.mpr ⟨?_, ?_, ?_⟩
  · exact List.takeWhile_eq_self_iff.mpr fun _ => isDigit_of_mem_digits
  · exact List.ne_nil_of_length_pos Nat.length_toDigits_pos
  · exact List.dropWhile_eq_nil_iff.mpr fun _ => isDigit_of_mem_digits

/-- No zero leads. -/
theorem exists_digits_eq_cons {number : Nat} (positive : 0 < number) :
    ∃ first rest, Decimal.digits number = first :: rest ∧ first ≠ '0' := by
  induction number using Nat.strongRecOn with
  | ind number inductionHypothesis =>
      rw [Decimal.digits, Nat.toDigits_eq_if (by decide)]
      split
      · refine ⟨_, _, rfl, ?_⟩
        exact fun zero => Nat.ne_of_gt positive (Nat.digitChar_eq_zero.mp zero)
      · obtain ⟨first, rest, shape, notZero⟩ := inductionHypothesis (number / 10) (by omega)
          (by omega)
        rw [Decimal.digits] at shape
        exact ⟨first, _, by rw [shape, List.cons_append], notZero⟩

theorem readWhole_digits (number : Nat) :
    readWhole (Decimal.digits number) = .ok (Decimal.digits number, []) := by
  rcases Nat.eq_zero_or_pos number with rfl | positive
  · rfl
  · obtain ⟨first, rest, shape, notZero⟩ := exists_digits_eq_cons positive
    rw [shape, readWhole_of_ne_zero notZero, ← shape, readDigits_digits]

theorem readUnsigned_digits (negative : Bool) (number : Nat) :
    readUnsigned negative (Decimal.digits number) =
      .ok (⟨negative, Decimal.digits number, none, none⟩, []) := by
  rw [readUnsigned, readWhole_digits]
  rfl

theorem digitsValue_digits (number : Nat) :
    Numeral.digitsValue (Decimal.digits number) = number :=
  Nat.ofDigitChars_toDigits (by decide) (by decide)

theorem readNumeral_write_int (value : Int) (least : leastInt ≤ value)
    (most : value ≤ greatestInt) :
    readNumeral (Number.int value least most).write =
      .ok (⟨decide (value < 0), Decimal.digits value.natAbs, none, none⟩, []) := by
  rw [Number.write]
  split
  · rename_i negative
    rw [List.singleton_append, readNumeral_minus, readUnsigned_digits, decide_eq_true negative]
  · rename_i natural
    obtain ⟨first, rest, shape⟩ :=
      List.exists_cons_of_length_pos (@Nat.length_toDigits_pos 10 value.natAbs)
    have notMinus : first ≠ '-' := by
      rintro rfl
      have digit := @isDigit_of_mem_digits value.natAbs '-' (by rw [Decimal.digits, shape]; simp)
      cases digit
    rw [List.nil_append, Decimal.digits, shape, readNumeral_of_ne_minus notMinus, ← shape]
    rw [← Decimal.digits, readUnsigned_digits, decide_eq_false natural]

theorem toNumber?_digits_natAbs {value : Int} (least : leastInt ≤ value)
    (most : value ≤ greatestInt) :
    Numeral.toNumber? ⟨decide (value < 0), Decimal.digits value.natAbs, none, none⟩ =
      some (.int value least most) := by
  have fits : Number.ofInt? value = some (.int value least most) := dif_pos ⟨least, most⟩
  rw [Numeral.toNumber?]
  simp only [digitsValue_digits, Option.isSome_none, Bool.or_self, Bool.false_eq_true, if_false]
  by_cases negative : value < 0
  · have magnitude : -(value.natAbs : Int) = value := by omega
    have nonzero : value.natAbs ≠ 0 := by omega
    rw [decide_eq_true negative, if_pos rfl, if_neg nonzero, magnitude, fits, Option.some_or]
  · have magnitude : (value.natAbs : Int) = value := by omega
    rw [decide_eq_false negative, if_neg Bool.false_ne_true, magnitude, fits, Option.some_or]

theorem isLegible_int (value : Int) (least : leastInt ≤ value) (most : value ≤ greatestInt) :
    (Number.int value least most).isLegible = true := by
  rw [Number.isLegible_iff, readNumber_eq_ok_iff]
  exact ⟨_, readNumeral_write_int value least most, toNumber?_digits_natAbs least most⟩

end TreePath.Json
