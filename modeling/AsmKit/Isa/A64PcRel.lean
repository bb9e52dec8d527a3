import AsmKit.Isa.A64

/-!
# The pc-relative words of A64

The five layouts of an offset, the address an offset names, and the offsets a layout can hold.
-/

namespace AsmKit.Isa.A64

open SignedField

/-! ## Layouts -/

inductive OffsetKind where
  | imm26 | imm19 | imm14 | adr | adrp
deriving DecidableEq, Repr

/-- `ldr`, `ldrsw` and `prfm` of a literal. The fourth SIMD form is not allocated. -/
def isLiteral (w : BitVec 32) : Bool :=
  w &&& 0x3b000000 == 0x18000000 && w &&& 0xff000000 != 0xdc000000

def isAdr (w : BitVec 32) : Bool := w &&& 0x9f000000 == 0x10000000
def isAdrp (w : BitVec 32) : Bool := w &&& 0x9f000000 == 0x90000000

def offsetKind (w : BitVec 32) : Option OffsetKind :=
  if isB w then some .imm26
  else if isBCond w || isCb w || isLiteral w then some .imm19
  else if isTb w then some .imm14
  else if isAdr w then some .adr
  else if isAdrp w then some .adrp
  else none

/-- The offset of `adr` and `adrp`, `immhi:immlo`. -/
def off21 (w : BitVec 32) : BitVec 21 := field 19 5 w ++ field 2 29 w

namespace OffsetKind

/-- The width of the offset field. -/
def bits : OffsetKind → Nat
  | imm26 => 26
  | imm19 => 19
  | imm14 => 14
  | adr | adrp => 21

/-- The offset counts units of `2 ^ scale` bytes. -/
def scale : OffsetKind → Nat
  | imm26 | imm19 | imm14 => 2
  | adr => 0
  | adrp => 12

/-- The bits of the word that hold the offset. -/
def fieldMask : OffsetKind → BitVec 32
  | imm26 => mask 32 26
  | imm19 => mask 32 19 <<< 5
  | imm14 => mask 32 14 <<< 5
  | adr | adrp => mask 32 2 <<< 29 ||| mask 32 19 <<< 5

def offset : OffsetKind → BitVec 32 → BitVec 64
  | imm26, w => scaled (off26 w)
  | imm19, w => scaled (off19 w)
  | imm14, w => scaled (off14 w)
  | adr, w => (off21 w).signExtend 64
  | adrp, w => (off21 w).signExtend 64 <<< 12

/-- What the offset is added to: the address of the instruction, or its page. -/
def base : OffsetKind → BitVec 64 → BitVec 64
  | adrp, address => address &&& ~~~mask 64 12
  | _, address => address

/-- The address a word names. -/
def target (kind : OffsetKind) (w : BitVec 32) (address : BitVec 64) : BitVec 64 :=
  kind.base address + kind.offset w

/-- The distance lies between the least and the greatest that the field can hold. -/
def InRange (kind : OffsetKind) (disp : BitVec 64) : Prop :=
  -(2 ^ (kind.bits - 1) : Int) * 2 ^ kind.scale ≤ disp.toInt ∧
    disp.toInt ≤ (2 ^ (kind.bits - 1) - 1) * 2 ^ kind.scale

instance (kind : OffsetKind) (disp : BitVec 64) : Decidable (kind.InRange disp) :=
  inferInstanceAs (Decidable (_ ∧ _))

/-- The distance is one that the field can hold. -/
def Holds (kind : OffsetKind) (disp : BitVec 64) : Prop :=
  (2 ^ kind.scale : Int) ∣ disp.toInt ∧ kind.InRange disp

instance (kind : OffsetKind) (disp : BitVec 64) : Decidable (kind.Holds disp) :=
  inferInstanceAs (Decidable (_ ∧ _))

theorem Holds.fits {kind : OffsetKind} {disp : BitVec 64} (h : kind.Holds disp) :
    Fits kind.bits (disp.toInt / 2 ^ kind.scale) := by
  obtain ⟨-, hlo, hhi⟩ := h
  have hpos : (0 : Int) < 2 ^ kind.scale := by positivity
  refine ⟨(Int.le_ediv_iff_mul_le hpos).2 hlo, ?_⟩
  exact Int.lt_of_le_sub_one ((Int.ediv_le_ediv hpos hhi).trans_eq (Int.mul_ediv_cancel _ hpos.ne'))

/-- The word with another offset. -/
def setOffset : OffsetKind → BitVec 32 → BitVec 64 → BitVec 32
  | imm26, w, disp => setField 26 0 w ((disp.sshiftRight 2).setWidth 32)
  | imm19, w, disp => setField 19 5 w ((disp.sshiftRight 2).setWidth 32)
  | imm14, w, disp => setField 14 5 w ((disp.sshiftRight 2).setWidth 32)
  | adr, w, disp => setField 19 5 (setField 2 29 w (disp.setWidth 32)) (disp.setWidth 32 >>> 2)
  | adrp, w, disp =>
    let pages := (disp.sshiftRight 12).setWidth 32
    setField 19 5 (setField 2 29 w pages) (pages >>> 2)

end OffsetKind

/-! ## Setting an offset -/

theorem setOffset_and_not_fieldMask (kind : OffsetKind) (w : BitVec 32) (disp : BitVec 64) :
    kind.setOffset w disp &&& ~~~kind.fieldMask = w &&& ~~~kind.fieldMask := by
  have h21 (v : BitVec 32) :
      setField 19 5 (setField 2 29 w v) (v >>> 2) &&& ~~~OffsetKind.adr.fieldMask =
        w &&& ~~~OffsetKind.adr.fieldMask := by
    have h19 : (mask 32 19 <<< 5) &&& ~~~OffsetKind.adr.fieldMask = 0#32 := by rfl
    have h2 : (mask 32 2 <<< 29) &&& ~~~OffsetKind.adr.fieldMask = 0#32 := by rfl
    rw [setField_and _ _ _ _ _ h19, setField_and _ _ _ _ _ h2]
  cases kind with
  | imm26 => exact setField_and 26 0 w _ _ (by rfl)
  | imm19 => exact setField_and 19 5 w _ _ (by rfl)
  | imm14 => exact setField_and 14 5 w _ _ (by rfl)
  | adr => exact h21 _
  | adrp => exact h21 _

theorem setOffset_and_of_disjoint (kind : OffsetKind) (w : BitVec 32) (disp : BitVec 64)
    {k : BitVec 32} (hk : k &&& ~~~kind.fieldMask = k) :
    kind.setOffset w disp &&& k = w &&& k := by
  have h := setOffset_and_not_fieldMask kind w disp
  rw [← hk, BitVec.and_comm k, ← BitVec.and_assoc, h, BitVec.and_assoc]

theorem off21_set (w v : BitVec 32) :
    off21 (setField 19 5 (setField 2 29 w v) (v >>> 2)) = v.setWidth 21 := by
  rw [off21, field_setField _ _ _ _ (by decide),
    field_setField_of_disjoint _ _ _ _ (by decide) (by decide), field_setField _ _ _ _ (by decide)]
  apply BitVec.eq_of_getLsbD_eq
  intro i hi
  rw [BitVec.getLsbD_append]
  rcases Nat.lt_or_ge i 2 with hlow | hhigh
  · simp [hlow, hi]
  · have hback : 2 + (i - 2) = i := by omega
    simp [Nat.not_lt.2 hhigh, hback, hi, show i - 2 < 19 by omega]

theorem offset_setOffset (kind : OffsetKind) (w : BitVec 32) {disp : BitVec 64}
    (h : kind.Holds disp) : kind.offset (kind.setOffset w disp) = disp := by
  have hfits := h.fits
  have hdvd := h.1
  cases kind <;> simp only [OffsetKind.offset, OffsetKind.setOffset]
  case imm26 =>
    rw [off26, field_setField _ _ _ _ (by decide), BitVec.setWidth_setWidth_of_le _ (by decide)]
    exact scaled_field_round_trip disp (by decide) (by decide) (by decide) hdvd hfits
  case imm19 =>
    rw [off19, field_setField _ _ _ _ (by decide), BitVec.setWidth_setWidth_of_le _ (by decide)]
    exact scaled_field_round_trip disp (by decide) (by decide) (by decide) hdvd hfits
  case imm14 =>
    rw [off14, field_setField _ _ _ _ (by decide), BitVec.setWidth_setWidth_of_le _ (by decide)]
    exact scaled_field_round_trip disp (by decide) (by decide) (by decide) hdvd hfits
  case adr =>
    rw [off21_set, BitVec.setWidth_setWidth_of_le _ (by decide)]
    refine signExtend_setWidth_of_fits disp (by decide) (by decide) ?_
    simpa [OffsetKind.scale, OffsetKind.bits] using hfits
  case adrp =>
    rw [off21_set, BitVec.setWidth_setWidth_of_le _ (by decide)]
    exact scaled_field_round_trip disp (by decide) (by decide) (by decide) hdvd hfits

end AsmKit.Isa.A64
