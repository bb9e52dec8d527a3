import AsmKit.Analysis.Values
import AsmKit.Isa.Compare

/-!
# What a compare relation says

A relation of the value analysis as a test on two words, and the conditions of Arm and x86 that it
stands for after a subtraction.
-/

namespace AsmKit

open Subtract

def CompareRelation.holds {w : Nat} (relation : CompareRelation) (x y : BitVec w) : Bool :=
  match relation with
  | .none => false
  | .eq => x == y
  | .ne => x != y
  | .ult => x.ult y
  | .ule => x.ule y
  | .ugt => y.ult x
  | .uge => y.ule x
  | .slt => x.slt y
  | .sle => x.sle y
  | .sgt => y.slt x
  | .sge => y.sle x
  | .bitClear => x &&& y == 0
  | .bitSet => x &&& y != 0

section

variable {w : Nat} (x y : BitVec w)

theorem holds_uge : CompareRelation.uge.holds x y = !x.ult y := BitVec.ule_eq_not_ult y x

theorem holds_ugt : CompareRelation.ugt.holds x y = !(x.ult y || x == y) := by
  rw [ult_or_beq, BitVec.ule_eq_not_ult, Bool.not_not]
  rfl

theorem holds_sge : CompareRelation.sge.holds x y = !x.slt y := BitVec.sle_eq_not_slt

theorem holds_sgt : CompareRelation.sgt.holds x y = !(x.slt y || x == y) := by
  rw [slt_or_beq, BitVec.sle_eq_not_slt, Bool.not_not]
  rfl

end

/-! ## Arm -/

section

variable {w : Nat} (x y : BitVec w)

theorem ofSub_base_0 : (Isa.Nzcv.ofSub x y).base 0 = (x == y) := sub_beq_zero x y

theorem ofSub_base_1 : (Isa.Nzcv.ofSub x y).base 1 = !x.ult y := rfl

theorem ofSub_base_4 : (Isa.Nzcv.ofSub x y).base 4 = !(x.ult y || x == y) := by
  rw [Bool.not_or, ← sub_beq_zero]
  rfl

theorem ofSub_base_5 : (Isa.Nzcv.ofSub x y).base 5 = !x.slt y := by
  rw [← msb_bne_overflow, bne, Bool.not_not]
  rfl

theorem ofSub_base_6 : (Isa.Nzcv.ofSub x y).base 6 = !(x.slt y || x == y) := by
  rw [Bool.not_or, ← ofSub_base_5, ← ofSub_base_0]
  rfl

end

theorem Arm.takenRelation_holds {w : Nat} (condition : BitVec 4)
    (h : Arm.takenRelation (condition.setWidth 32) ≠ .none) (x y : BitVec w) :
    (Arm.takenRelation (condition.setWidth 32)).holds x y =
      (Isa.Nzcv.ofSub x y).holds condition := by
  have hcases : ∀ c : BitVec 4, c = 0 ∨ c = 1 ∨ c = 2 ∨ c = 3 ∨ c = 8 ∨ c = 9 ∨ c = 10 ∨ c = 11 ∨
      c = 12 ∨ c = 13 ∨ Arm.takenRelation (c.setWidth 32) = .none := by decide
  rcases hcases condition with rfl | rfl | rfl | rfl | rfl | rfl | rfl | rfl | rfl | rfl | hnone
  · show (x == y) = ((Isa.Nzcv.ofSub x y).base 0 ^^ false)
    rw [ofSub_base_0, Bool.xor_false]
  · show (!(x == y)) = ((Isa.Nzcv.ofSub x y).base 0 ^^ true)
    rw [ofSub_base_0, Bool.xor_true]
  · show CompareRelation.uge.holds x y = ((Isa.Nzcv.ofSub x y).base 1 ^^ false)
    rw [ofSub_base_1, holds_uge, Bool.xor_false]
  · show x.ult y = ((Isa.Nzcv.ofSub x y).base 1 ^^ true)
    rw [ofSub_base_1, Bool.xor_true, Bool.not_not]
  · show CompareRelation.ugt.holds x y = ((Isa.Nzcv.ofSub x y).base 4 ^^ false)
    rw [ofSub_base_4, holds_ugt, Bool.xor_false]
  · show x.ule y = ((Isa.Nzcv.ofSub x y).base 4 ^^ true)
    rw [ofSub_base_4, Bool.xor_true, Bool.not_not, ult_or_beq]
  · show CompareRelation.sge.holds x y = ((Isa.Nzcv.ofSub x y).base 5 ^^ false)
    rw [ofSub_base_5, holds_sge, Bool.xor_false]
  · show x.slt y = ((Isa.Nzcv.ofSub x y).base 5 ^^ true)
    rw [ofSub_base_5, Bool.xor_true, Bool.not_not]
  · show CompareRelation.sgt.holds x y = ((Isa.Nzcv.ofSub x y).base 6 ^^ false)
    rw [ofSub_base_6, holds_sgt, Bool.xor_false]
  · show x.sle y = ((Isa.Nzcv.ofSub x y).base 6 ^^ true)
    rw [ofSub_base_6, Bool.xor_true, Bool.not_not, slt_or_beq]
  · exact absurd hnone h

/-! ## x86 -/

/-- What a relation asks of the flags after `cmp`. -/
def X86.flagsTest (relation : CompareRelation) (f : Isa.X86.Flags) : Bool :=
  match relation with
  | .eq => f.zf
  | .ne => !f.zf
  | .ult => f.cf
  | .uge => !f.cf
  | .ule => f.cf || f.zf
  | .ugt => !(f.cf || f.zf)
  | .slt => f.sf != f.of
  | .sge => !(f.sf != f.of)
  | .sle => f.zf || f.sf != f.of
  | .sgt => !(f.zf || f.sf != f.of)
  | _ => false

theorem X86.takenRelation_test (opcode : Byte)
    (h : X86.takenRelation (X86.jccMnemonicId opcode) ≠ .none) (f : Isa.X86.Flags) :
    X86.flagsTest (X86.takenRelation (X86.jccMnemonicId opcode)) f = f.holds (opcode.setWidth 4) := by
  have hlow : ∀ op : Byte, X86.jccMnemonicId op = X86.jccMnemonicId ((op.setWidth 4).setWidth 8) := by
    decide
  rw [hlow] at h ⊢
  generalize opcode.setWidth 4 = cc at h ⊢
  obtain ⟨cf, pf, zf, sf, of⟩ := f
  revert h
  revert cc cf pf zf sf of
  decide

section

variable {w : Nat} (x y : BitVec w)

theorem X86.flagsTest_ofSub {relation : CompareRelation} (hclear : relation ≠ .bitClear)
    (hset : relation ≠ .bitSet) :
    X86.flagsTest relation (Isa.X86.Flags.ofSub x y) = relation.holds x y := by
  have hzero : (Isa.X86.Flags.ofSub x y).zf = (x == y) := sub_beq_zero x y
  have hsign : ((Isa.X86.Flags.ofSub x y).sf != (Isa.X86.Flags.ofSub x y).of) = x.slt y :=
    msb_bne_overflow x y
  have hcarry : (Isa.X86.Flags.ofSub x y).cf = x.ult y := rfl
  cases relation with
  | none => rfl
  | eq => exact hzero
  | ne => exact congrArg (!·) hzero
  | ult => rfl
  | uge => rw [holds_uge]; rfl
  | ule => rw [X86.flagsTest, hcarry, hzero]; exact ult_or_beq x y
  | ugt => rw [X86.flagsTest, hcarry, hzero, holds_ugt]
  | slt => exact hsign
  | sge => rw [X86.flagsTest, hsign, holds_sge]
  | sle => rw [X86.flagsTest, hsign, hzero, Bool.or_comm]; exact slt_or_beq x y
  | sgt => rw [X86.flagsTest, hsign, hzero, holds_sgt, Bool.or_comm]
  | bitClear => exact absurd rfl hclear
  | bitSet => exact absurd rfl hset

end

end AsmKit
