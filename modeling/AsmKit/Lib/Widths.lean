import Mathlib.Tactic.Ring

/-!
# Words read and written at a width

A container of `w` bits holds narrower values in its low bits, the rest are zero.
-/

namespace Widths

variable {w m n : Nat}

/-- The low `n` bits. -/
def low (n : Nat) (v : BitVec w) : BitVec w := (v.setWidth n).setWidth w

/-- The low `m` bits as a signed number of `n` bits. -/
def signed (m n : Nat) (v : BitVec w) : BitVec w := ((v.setWidth m).signExtend n).setWidth w

section

variable (v : BitVec w)

theorem low_getLsbD (i : Nat) : (low n v).getLsbD i = (decide (i < n) && v.getLsbD i) := by
  simp only [low, BitVec.getLsbD_setWidth]
  by_cases hi : i < w
  · simp [hi]
  · simp [hi, BitVec.getLsbD_of_ge v i (by omega)]

@[simp] theorem low_full : low w v = v := by simp [low]

theorem low_low_of_le (h : m ≤ n) : low n (low m v) = low m v := by
  apply BitVec.eq_of_getLsbD_eq
  intro i hi
  simp only [low_getLsbD]
  by_cases hm : i < m
  · simp [hm, show i < n by omega]
  · simp [hm]

@[simp] theorem low_low : low n (low n v) = low n v := low_low_of_le v (Nat.le_refl n)

@[simp] theorem low_zero : low n (0 : BitVec w) = 0 := by simp [low]

theorem setWidth_low (h : m ≤ n) : (low n v).setWidth m = v.setWidth m := by
  apply BitVec.eq_of_getLsbD_eq
  intro i hi
  rw [BitVec.getLsbD_setWidth, BitVec.getLsbD_setWidth, low_getLsbD,
    decide_eq_true (by omega : i < n), Bool.true_and]

@[simp] theorem signed_self : signed n n v = low n v := by simp [signed, low]

end

theorem signed_getLsbD (v : BitVec w) {i : Nat} (hi : i < w) :
    (signed m n v).getLsbD i =
      (decide (i < n) && if i < m then v.getLsbD i else decide (0 < m) && v.getLsbD (m - 1)) := by
  rw [signed, BitVec.getLsbD_setWidth, BitVec.getLsbD_signExtend, BitVec.getLsbD_setWidth,
    decide_eq_true hi, Bool.true_and]
  by_cases him : i < m
  · simp [him]
  · by_cases hm : 0 < m
    · simp [him, hm, BitVec.msb_eq_getLsbD_last]
    · have hzero : m = 0 := Nat.eq_zero_of_not_pos hm
      subst hzero
      simp [BitVec.msb_eq_getLsbD_last]

theorem signed_eq_low_iff (v : BitVec w) (hm : 0 < m) (hn : n ≤ w) :
    signed m n v = low n (low m v) ↔ n ≤ m ∨ v.getLsbD (m - 1) = false := by
  constructor
  · intro h
    by_cases hmn : n ≤ m
    · exact .inl hmn
    · right
      have hbit := congrArg (BitVec.getLsbD · m) h
      simp only [low_getLsbD] at hbit
      rw [signed_getLsbD v (by omega)] at hbit
      simpa [hm, Nat.lt_of_not_le hmn] using hbit
  · intro h
    apply BitVec.eq_of_getLsbD_eq
    intro i hi
    rw [signed_getLsbD v hi, low_getLsbD, low_getLsbD]
    by_cases hin : i < n
    · by_cases him : i < m
      · simp [hin, him]
      · have hsign : v.getLsbD (m - 1) = false := h.resolve_left (by omega)
        simp [hin, him, hsign]
    · simp [hin]

theorem low_setWidth {k : Nat} (x : BitVec k) (h : k ≤ n) :
    low n (x.setWidth w) = x.setWidth w := by
  apply BitVec.eq_of_getLsbD_eq
  intro i hi
  rw [low_getLsbD, BitVec.getLsbD_setWidth]
  by_cases hn : i < n
  · simp [hn]
  · simp [hn, BitVec.getLsbD_of_ge x i (by omega)]

/-! ## Arithmetic at a width -/

section

variable (h : n ≤ w) (a b : BitVec w)

include h

theorem low_add : low n (low n a + low n b) = low n (a + b) := by
  rw [low, BitVec.setWidth_add _ _ h, setWidth_low a (Nat.le_refl n), setWidth_low b (Nat.le_refl n),
    ← BitVec.setWidth_add _ _ h, low]

theorem low_mul : low n (low n a * low n b) = low n (a * b) := by
  rw [low, BitVec.setWidth_mul _ _ h, setWidth_low a (Nat.le_refl n), setWidth_low b (Nat.le_refl n),
    ← BitVec.setWidth_mul _ _ h, low]

end

end Widths
