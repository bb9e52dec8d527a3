import Mathlib.Tactic.IntervalCases

/-!
# Condition flags of the Arm architectures

A32 and A64 share the flags and the condition codes.
-/

namespace AsmKit.Isa

structure Nzcv where
  n : Bool
  z : Bool
  c : Bool
  v : Bool
deriving DecidableEq, Repr

namespace Nzcv

/-- The condition the upper three bits of a code name. -/
def base (f : Nzcv) : Nat → Bool
  | 0 => f.z
  | 1 => f.c
  | 2 => f.n
  | 3 => f.v
  | 4 => f.c && !f.z
  | 5 => f.n == f.v
  | 6 => f.n == f.v && !f.z
  | _ => true

/-- The low bit inverts the condition, but code 15 holds as 14 does. -/
def holds (f : Nzcv) (cond : BitVec 4) : Bool :=
  f.base (cond >>> 1).toNat ^^ (cond.getLsbD 0 && cond != 15)

theorem holds_always (f : Nzcv) (cond : BitVec 4) (h : 14 ≤ cond.toNat) : f.holds cond = true := by
  have hcond : cond = 14#4 ∨ cond = 15#4 := by
    have hlt := cond.isLt
    have hcases : cond.toNat = 14 ∨ cond.toNat = 15 := by omega
    rcases hcases with h14 | h15
    · exact .inl (BitVec.eq_of_toNat_eq h14)
    · exact .inr (BitVec.eq_of_toNat_eq h15)
  rcases hcond with rfl | rfl <;> rfl

theorem holds_flip (f : Nzcv) (cond : BitVec 4) (h : cond.toNat < 14) :
    f.holds (cond ^^^ 1) = !f.holds cond := by
  have hne : ∀ k : BitVec 4, 14 ≤ k.toNat → cond ≠ k := by
    rintro k hk rfl
    omega
  have hupper : (cond.toNat ^^^ 1) >>> 1 = cond.toNat >>> 1 := by
    simp [Nat.shiftRight_xor_distrib]
  have h15 : (cond != 15#4) = true := by simpa using hne 15 (by decide)
  have h15' : (cond ^^^ 1#4 != 15#4) = true := by
    simp only [bne_iff_ne]
    intro hx
    have h14 : cond = 15#4 ^^^ 1#4 := by rw [← hx, BitVec.xor_assoc, BitVec.xor_self, BitVec.xor_zero]
    exact hne _ (by decide) h14
  simp [holds, hupper, h15, h15']

end Nzcv

end AsmKit.Isa
