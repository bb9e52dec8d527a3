import Mathlib.Logic.Function.Iterate

/-!
# The IT blocks of Thumb

`ITSTATE` holds the condition of the next instruction in its upper half; the low half says how many
are still to come. Advancing shifts the low five bits.
-/

namespace AsmKit.Isa.It

/-- The state an `it` sets up. -/
def start (firstcond mask : BitVec 4) : BitVec 8 := firstcond ++ mask

def condition (it : BitVec 8) : BitVec 4 := it.extractLsb' 4 4

/-- The state behind an instruction of the block. -/
def advance (it : BitVec 8) : BitVec 8 :=
  if it.setWidth 3 = 0 then 0 else it.extractLsb' 5 3 ++ (it.setWidth 5 <<< 1)

/-- The low half is never zero within a block. -/
def Active (it : BitVec 8) : Prop := it.setWidth 4 ≠ 0

/-- How many instructions an `it` covers. -/
def blockLength (mask : BitVec 4) : Nat := 4 - mask.ctz.toNat

theorem advance_zero : advance 0 = 0 := rfl

theorem advance_active : ∀ it, advance it ≠ 0 → Active (advance it) := by
  unfold Active
  decide

/-- From the end of a block on there is no state. -/
theorem iterate_advance_of_le : ∀ firstcond mask : BitVec 4, mask ≠ 0 →
    advance^[blockLength mask] (start firstcond mask) = 0 := by
  decide

end AsmKit.Isa.It
