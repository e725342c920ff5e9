import TreePath.Number.Binary64

set_option autoImplicit false

/-!
# Equal numbers

Floats are equal if neither is a NaN and both have one canonical form, in which a zero has no sign.
-/

namespace TreePath.Binary64

/-- The number that stands for all that are equal to it. -/
def canonical (number : Binary64) : Binary64 :=
  if number.isZero then ⟨0⟩ else number

variable {left right number : Binary64}

theorem isNaN_eq_false_of_isZero (zero : number.isZero = true) : number.isNaN = false := by
  rw [isZero, beq_iff_eq] at zero
  rw [isNaN, zero]
  decide

theorem isNaN_eq_false_of_isFinite (finite : number.isFinite = true) : number.isNaN = false := by
  rw [isFinite, decide_eq_true_eq] at finite
  rw [isNaN, decide_eq_false_iff_not]
  omega

@[simp] theorem isZero_canonical (number : Binary64) :
    number.canonical.isZero = number.isZero := by
  unfold canonical
  cases zero : number.isZero with
  | true => rfl
  | false => exact zero

@[simp] theorem isNaN_canonical (number : Binary64) : number.canonical.isNaN = number.isNaN := by
  unfold canonical
  cases zero : number.isZero with
  | true => exact (isNaN_eq_false_of_isZero zero).symm
  | false => rfl

@[simp] theorem isFinite_canonical (number : Binary64) :
    number.canonical.isFinite = number.isFinite := by
  unfold canonical
  cases zero : number.isZero with
  | true =>
      rw [isZero, beq_iff_eq] at zero
      have finite : number.isFinite = true := by
        rw [isFinite, zero]
        decide
      rw [finite]
      rfl
  | false => rfl

theorem canonical_eq_iff :
    left.canonical = right.canonical ↔
      left.bits = right.bits ∨ left.isZero = true ∧ right.isZero = true := by
  constructor
  · intro same
    have zeros : left.isZero = right.isZero := by
      rw [← isZero_canonical left, same, isZero_canonical]
    cases zero : left.isZero with
    | true => exact Or.inr ⟨rfl, zeros ▸ zero⟩
    | false =>
        simp only [canonical, zero, zeros ▸ zero, Bool.false_eq_true, if_false] at same
        exact Or.inl (congrArg bits same)
  · rintro (bits | ⟨zero, otherZero⟩)
    · rw [show left = right from congrArg mk bits]
    · simp [canonical, zero, otherZero]

theorem equal_iff :
    left.equal right = true ↔ left.isNaN = false ∧ left.canonical = right.canonical := by
  rw [canonical_eq_iff]
  constructor
  · intro equal
    simp only [Binary64.equal, Bool.and_eq_true, Bool.or_eq_true, Bool.not_eq_true', beq_iff_eq]
      at equal
    exact ⟨equal.1.1, equal.2⟩
  · rintro ⟨number, same⟩
    have otherNumber : right.isNaN = false := by
      rw [← isNaN_canonical, ← canonical_eq_iff.mpr same, isNaN_canonical]
      exact number
    simpa [Binary64.equal, number, otherNumber] using same

end TreePath.Binary64
