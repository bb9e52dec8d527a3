import AsmKit.Isa.A64

/-!
# The immediate moves of A64

`movz` writes a shifted halfword, `movn` its complement at the width of the register.
-/

namespace AsmKit.Isa.A64

open SignedField

structure MovWide where
  wide : Bool
  negate : Bool
  hw : BitVec 2
  imm : BitVec 16
  rd : BitVec 5
deriving DecidableEq, Repr

/-- A register of 32 bits has two halfwords only. -/
def decodeMovWide (w : BitVec 32) : Option MovWide :=
  if w &&& 0x3f800000 = 0x12800000 ∧ (w.getLsbD 31 = true ∨ w.getLsbD 22 = false) then
    some ⟨w.getLsbD 31, !w.getLsbD 30, field 2 21 w, field 16 5 w, field 5 0 w⟩
  else none

/-- What the register holds afterwards: a move of 32 bits clears the upper half. -/
def MovWide.value (m : MovWide) : BitVec 64 :=
  let half : BitVec 64 := m.imm.setWidth 64 <<< (16 * m.hw.toNat)
  let v := if m.negate then ~~~half else half
  if m.wide then v else (v.setWidth 32).setWidth 64

/-- The moves that write the bare halfword. -/
def MovWide.Bare (m : MovWide) : Prop :=
  if m.negate then m.wide = false ∧ m.hw = 1 ∧ m.imm = 0xffff else m.hw = 0 ∨ m.imm = 0

theorem half_cases : ∀ hw : BitVec 2, hw = 0 ∨ hw = 1 ∨ hw = 2 ∨ hw = 3 := by decide

theorem hw_of_decode {w : BitVec 32} {m : MovWide} (h : decodeMovWide w = some m)
    (hwide : m.wide = false) : m.hw = 0 ∨ m.hw = 1 := by
  unfold decodeMovWide at h
  split at h
  · rename_i hw
    cases h
    have h31 : w.getLsbD 31 = false := hwide
    have h22 : w.getLsbD 22 = false := hw.2.resolve_left (by rw [h31]; decide)
    have htop : (field 2 21 w).getLsbD 1 = false := by
      rw [field_getLsbD, h22, Bool.and_false]
    have hcases : ∀ hw : BitVec 2, hw.getLsbD 1 = false → hw = 0 ∨ hw = 1 := by decide
    exact hcases _ htop
  · cases h

theorem MovWide.value_eq_imm_iff {m : MovWide} (hnarrow : m.wide = false → m.hw = 0 ∨ m.hw = 1) :
    m.value = m.imm.setWidth 64 ↔ m.Bare := by
  obtain ⟨wide, negate, hw, imm, rd⟩ := m
  rcases half_cases hw with rfl | rfl | rfl | rfl <;> cases wide <;> cases negate <;>
    simp [value, Bare] at hnarrow ⊢ <;> bv_omega

end AsmKit.Isa.A64
