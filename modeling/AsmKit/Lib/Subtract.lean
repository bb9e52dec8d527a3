import Mathlib.Tactic.IntervalCases

/-!
# What the flags of a subtraction say

The zero, borrow, sign and overflow of `x - y` decide every comparison of `x` and `y`.
-/

namespace Subtract

variable {w : Nat} (x y : BitVec w)

/-- The sign of the difference is not the one of the exact result. -/
def signedOverflow : Bool := (x.msb != y.msb) && ((x - y).msb != x.msb)

theorem sub_beq_zero : (x - y == 0) = (x == y) := by
  rw [Bool.eq_iff_iff, beq_iff_eq, beq_iff_eq]
  constructor
  · intro h
    have hback : x - y + y = y := by rw [h, BitVec.ofNat_eq_ofNat, BitVec.zero_add]
    rwa [BitVec.sub_add_cancel] at hback
  · rintro rfl
    exact BitVec.sub_self x

theorem ult_or_beq : (x.ult y || x == y) = x.ule y := by
  rw [Bool.eq_iff_iff]
  simp only [Bool.or_eq_true, beq_iff_eq, BitVec.ult_iff_lt, BitVec.ule_iff_le, BitVec.lt_def,
    BitVec.le_def, BitVec.toNat_eq]
  omega

theorem slt_or_beq : (x.slt y || x == y) = x.sle y := by
  rw [Bool.eq_iff_iff]
  simp only [Bool.or_eq_true, beq_iff_eq, BitVec.slt_iff_toInt_lt, BitVec.sle_iff_toInt_le,
    ← BitVec.toInt_inj]
  omega

/-- Sign and overflow differ just when the signed comparison holds. -/
theorem msb_bne_overflow : ((x - y).msb != signedOverflow x y) = x.slt y := by
  rw [BitVec.slt_eq_ult, signedOverflow]
  rcases w with _ | n
  · simp [BitVec.of_length_zero]
  · have hx := x.isLt
    have hy := y.isLt
    rw [Nat.pow_succ] at hx hy
    simp only [BitVec.msb_eq_decide, BitVec.ult_eq_decide, Nat.add_sub_cancel]
    by_cases h : y.toNat ≤ x.toNat
    · rw [BitVec.toNat_sub_of_le (BitVec.le_def.2 h)]
      generalize 2 ^ n = m at *
      by_cases hxm : m ≤ x.toNat <;> by_cases hym : m ≤ y.toNat <;>
        by_cases hd : m ≤ x.toNat - y.toNat <;> simp [hxm, hym, hd] <;> omega
    · rw [BitVec.toNat_sub_of_lt (BitVec.lt_def.2 (by omega)), Nat.pow_succ]
      generalize 2 ^ n = m at *
      by_cases hxm : m ≤ x.toNat <;> by_cases hym : m ≤ y.toNat <;>
        by_cases hd : m ≤ m * 2 - (y.toNat - x.toNat) <;> simp [hxm, hym, hd] <;> omega

end Subtract
