import AsmKit.Isa.A64
import AsmKit.Lib.OffsetRange

/-!
# The offsets of the A64 branches

Where a direct branch keeps its offset: `b` and `bl` in 26 bits, the conditional branches in 19, the
tests of a bit in 14, the compares of two registers in 9.
-/

namespace AsmKit.Isa.A64

open SignedField

/-- `cb<cc>`, `cbb<cc>` and `cbh<cc>`: compare and branch. -/
def isCmpBr (w : BitVec 32) : Bool := w &&& 0x7e000000 == 0x74000000

/-- The field of an offset in words: its width and its lowest bit. -/
structure OffsetPlace where
  bits : Nat
  lo : Nat
deriving DecidableEq, Repr

/-- `b.<cc>` and `bc.<cc>` differ in a bit below the offset. -/
def branchPlace (w : BitVec 32) : Option OffsetPlace :=
  if isB w then some ⟨26, 0⟩
  else if w &&& 0xff000000 == 0x54000000 || isCb w then some ⟨19, 5⟩
  else if isTb w then some ⟨14, 5⟩
  else if isCmpBr w then some ⟨9, 5⟩
  else none

namespace OffsetPlace

/-- The bits of the word that hold the offset. -/
def fieldMask (place : OffsetPlace) : BitVec 32 := mask 32 place.bits <<< place.lo

/-- The distance from the branch to its target. -/
def offset (place : OffsetPlace) (w : BitVec 32) : BitVec 64 := scaled (field place.bits place.lo w)

/-- The words that differ from `w` at most in the offset. -/
def SameOpcode (place : OffsetPlace) (w w' : BitVec 32) : Prop :=
  w' &&& ~~~place.fieldMask = w &&& ~~~place.fieldMask

end OffsetPlace

theorem branchPlace_bounds {w : BitVec 32} {place : OffsetPlace} (h : branchPlace w = some place) :
    0 < place.bits ∧ place.bits ≤ 26 ∧ place.lo + place.bits ≤ 32 := by
  unfold branchPlace at h
  split_ifs at h <;> cases h <;> decide

/-- Only `b` and `bl` have the widest field. -/
theorem branchPlace_bits_iff {w : BitVec 32} {place : OffsetPlace} (h : branchPlace w = some place) :
    place.bits = 26 ↔ isB w = true := by
  unfold branchPlace at h
  split_ifs at h with hb <;> cases h
  · exact iff_of_true rfl hb
  all_goals exact iff_of_false (by decide) hb

/-- With every offset in its place, a word names the distances that the field can express. -/
theorem exists_offset_iff {place : OffsetPlace} (h : place.lo + place.bits ≤ 32) (w : BitVec 32)
    (disp : BitVec 64) :
    (∃ w', place.SameOpcode w w' ∧ place.offset w' = disp) ↔ Expressible place.bits 2 disp := by
  constructor
  · rintro ⟨w', -, hoffset⟩
    exact ⟨_, hoffset⟩
  · rintro ⟨f, hf⟩
    refine ⟨setField place.bits place.lo w (f.setWidth 32), ?_, ?_⟩
    · refine setField_and _ _ _ _ _ ?_
      exact BitVec.and_not_self _
    · rw [OffsetPlace.offset, field_setField _ _ _ _ h, BitVec.setWidth_setWidth_of_le _ (by omega),
        BitVec.setWidth_eq]
      exact hf

end AsmKit.Isa.A64
