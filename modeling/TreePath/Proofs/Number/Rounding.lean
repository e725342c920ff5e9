import TreePath.Number.Binary64

set_option autoImplicit false

/-!
# Rounding integers

An integer is rounded in units of the last place below its greatest power of two, and takes at most
two to the 53rd of them. So no integer of up to 1023 bits rounds to infinity.
-/

namespace TreePath.Binary64

theorem roundedQuotient_le (numerator denominator : Nat) :
    roundedQuotient numerator denominator ≤ numerator / denominator + 1 := by
  unfold roundedQuotient
  dsimp only
  split
  · omega
  · split <;> omega

theorem floorLog_one {value : Nat} (positive : value ≠ 0) : floorLog value 1 = value.log2 := by
  have one : Nat.log2 1 = 0 := by decide
  have noShift : (-(value.log2 : Int)).toNat = 0 := by omega
  have reached : ¬ value < 1 <<< value.log2 := by
    rw [Nat.one_shiftLeft, Nat.not_lt]
    exact Nat.log2_self_le positive
  simp only [floorLog, scale, one, Int.ofNat_zero, Int.sub_zero, Int.neg_neg, Int.toNat_natCast,
    noShift, Nat.shiftLeft_zero, if_neg reached]

/-- In units of its last place a number has at most 53 bits. -/
theorem scale_lt (value : Nat) :
    (scale value 1 (-(value.log2 - 52 : Int))).1 <
      2 * hiddenBit * (scale value 1 (-(value.log2 - 52 : Int))).2 := by
  have below : value < 2 ^ (value.log2 + 1) := Nat.lt_log2_self
  have power : 2 * hiddenBit = 2 ^ 53 := by decide
  simp only [scale, Nat.shiftLeft_eq, Nat.one_mul, power]
  by_cases long : 52 ≤ value.log2
  · have up : (-(value.log2 - 52 : Int)).toNat = 0 := by omega
    have down : (- -(value.log2 - 52 : Int)).toNat = value.log2 - 52 := by omega
    have split : value.log2 + 1 = 53 + (value.log2 - 52) := by omega
    rw [up, down, Nat.pow_zero, Nat.mul_one, ← Nat.pow_add, ← split]
    exact below
  · have up : (-(value.log2 - 52 : Int)).toNat = 52 - value.log2 := by omega
    have down : (- -(value.log2 - 52 : Int)).toNat = 0 := by omega
    have split : 53 = (value.log2 + 1) + (52 - value.log2) := by omega
    rw [up, down, Nat.pow_zero, Nat.mul_one, split, Nat.pow_add]
    exact Nat.mul_lt_mul_of_pos_right below (Nat.pow_pos (by decide))

theorem nearestMagnitude_one_lt_infinite {value : Nat} (small : value.log2 < 1023) :
    nearestMagnitude value 1 < infinite := by
  unfold nearestMagnitude
  by_cases zero : value = 0
  · rw [if_pos zero]
    decide
  · have unit : max (floorLog value 1 - 52) (-1074) = (value.log2 - 52 : Int) := by
      rw [floorLog_one zero]
      omega
    have units : roundedQuotient (scale value 1 (-(value.log2 - 52 : Int))).1
        (scale value 1 (-(value.log2 - 52 : Int))).2 ≤ 2 * hiddenBit :=
      Nat.le_trans (roundedQuotient_le _ _)
        (Nat.div_lt_of_lt_mul (Nat.mul_comm _ _ ▸ scale_lt value))
    have place : (value.log2 - 52 + 1074 : Int).toNat ≤ 2044 := by omega
    simp only [if_neg zero, unit]
    apply Nat.lt_of_le_of_lt (Nat.min_le_left _ _)
    calc (value.log2 - 52 + 1074 : Int).toNat * hiddenBit + roundedQuotient _ _
        ≤ 2044 * hiddenBit + 2 * hiddenBit := Nat.add_le_add (Nat.mul_le_mul_right _ place) units
      _ < infinite := by decide

theorem magnitude_ofMagnitude {magnitude : Nat} (fits : magnitude < signBit) (signed : Bool) :
    (ofMagnitude signed magnitude).magnitude = magnitude := by
  have bound : signBit + magnitude < 2 ^ 64 := by
    simp only [signBit] at fits ⊢
    omega
  have plain : magnitude < 2 ^ 64 := by omega
  cases signed with
  | false =>
      simp only [ofMagnitude, Binary64.magnitude, Bool.false_eq_true, if_false, UInt64.toNat_ofNat',
        Nat.mod_eq_of_lt plain, Nat.mod_eq_of_lt fits]
  | true =>
      simp only [ofMagnitude, Binary64.magnitude, if_true, UInt64.toNat_ofNat',
        Nat.mod_eq_of_lt bound, Nat.add_mod_left, Nat.mod_eq_of_lt fits]

/-- The nearest float to an integer of up to 1023 bits is finite. -/
theorem isFinite_ofInt {value : Int} (small : value.natAbs.log2 < 1023) :
    (ofInt value).isFinite = true := by
  have finite := nearestMagnitude_one_lt_infinite small
  have fits : nearestMagnitude value.natAbs 1 < signBit := Nat.lt_trans finite (by decide)
  rw [isFinite, ofInt, magnitude_ofMagnitude fits]
  exact decide_eq_true finite

end TreePath.Binary64
