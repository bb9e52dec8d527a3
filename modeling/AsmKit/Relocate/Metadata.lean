import AsmKit.Relocate.Prologue

/-!
# Relocation and the operand metadata

No relocation looks at what the metadata lays over the operands.
-/

namespace AsmKit

theorem find?_map_withInfos (infos : List OperandInfo) (p : Operand → Bool)
    (hp : ∀ o : Operand, p (o.withInfos infos) = p o) (ops : List Operand) :
    (ops.map (Operand.withInfos infos)).find? p = (ops.find? p).map (Operand.withInfos infos) := by
  rw [List.find?_map]
  congr 2
  exact funext hp

theorem operand0_metadata (tables : Tables) (inst : Inst) :
    (applyOperandMetadata tables inst).operand0 = inst.operand0 ∨
      (applyOperandMetadata tables inst).operand0 =
        inst.operand0.withInfos (tables.operandInfos inst.arch inst.id) := by
  unfold applyOperandMetadata Inst.operand0
  cases inst.operands with
  | nil => exact .inl rfl
  | cons o os => exact .inr rfl

variable {engine : Engine} {relocatedAddress : BitVec 64} {capacity : Nat}

/-! ## A64 -/

namespace A64

theorem findPcRelOperand_metadata (tables : AsmKit.Tables) (inst : Inst) :
    findPcRelOperand (applyOperandMetadata tables inst) =
      (findPcRelOperand inst).map (Operand.withInfos (tables.operandInfos inst.arch inst.id)) := by
  rw [findPcRelOperand, applyOperandMetadata, ← List.map_take]
  exact find?_map_withInfos _ _ (fun o => by rw [Operand.withInfos_kind]) _

theorem relocate_metadata (tables : AsmKit.Tables) (inst : Inst) :
    relocate (applyOperandMetadata tables inst) relocatedAddress capacity =
      relocate inst relocatedAddress capacity := by
  rw [relocate, relocate, findPcRelOperand_metadata]
  cases findPcRelOperand inst with
  | none => rfl
  | some operand =>
    have htarget : operandTarget (applyOperandMetadata tables inst)
        (operand.withInfos (tables.operandInfos inst.arch inst.id)) = operandTarget inst operand := by
      rw [operandTarget, operandTarget, Operand.withInfos_absTarget, Operand.withInfos_imm]
      rfl
    simp only [Option.map_some, htarget]
    rfl

end A64

/-! ## ARM -/

namespace Arm

theorem relocate_metadata (tables : AsmKit.Tables) (inst : Inst) :
    relocate engine (applyOperandMetadata tables inst) relocatedAddress capacity =
      relocate engine inst relocatedAddress capacity := by
  have htarget : (applyOperandMetadata tables inst).operand0.absTarget = inst.operand0.absTarget := by
    rcases operand0_metadata tables inst with h | h <;> simp [h]
  unfold relocate relocateDirect
  rw [htarget]
  rfl

end Arm

/-! ## x86 -/

namespace X86

theorem pcRelativeOperandTarget_metadata (tables : AsmKit.Tables) (inst : Inst)
    (infos : List OperandInfo) (operand : Operand) :
    pcRelativeOperandTarget (applyOperandMetadata tables inst) (operand.withInfos infos) =
      pcRelativeOperandTarget inst operand := by
  simp only [pcRelativeOperandTarget, Operand.withInfos_kind, Operand.withInfos_mem,
    Operand.withInfos_absTarget, Operand.withInfos_imm]
  rfl

theorem target0_metadata (tables : AsmKit.Tables) (inst : Inst) :
    pcRelativeOperandTarget (applyOperandMetadata tables inst)
        (applyOperandMetadata tables inst).operand0 =
      pcRelativeOperandTarget inst inst.operand0 := by
  rcases operand0_metadata tables inst with h | h
  · rw [h]
    rfl
  · rw [h, pcRelativeOperandTarget_metadata]

theorem pcRelOperand_metadata (tables : AsmKit.Tables) (inst : Inst) :
    pcRelOperand (applyOperandMetadata tables inst) =
      (pcRelOperand inst).map (Operand.withInfos (tables.operandInfos inst.arch inst.id)) := by
  rw [pcRelOperand, applyOperandMetadata, ← List.map_take]
  refine find?_map_withInfos _ _ (fun o => ?_) _
  rw [isPcRelOperand, isPcRelOperand, isRipMemory, isRipMemory, Operand.withInfos_kind,
    Operand.withInfos_absTarget, Operand.withInfos_mem]

theorem operands_metadata_eq_nil (tables : AsmKit.Tables) (inst : Inst) :
    (applyOperandMetadata tables inst).operands = [] ↔ inst.operands = [] :=
  List.map_eq_nil_iff

theorem relocateRip_metadata (tables : AsmKit.Tables) (inst : Inst) :
    relocateRip (applyOperandMetadata tables inst) relocatedAddress capacity =
      relocateRip inst relocatedAddress capacity := by
  have hfind : findRipDisp (applyOperandMetadata tables inst) = findRipDisp inst := rfl
  rw [relocateRip, relocateRip, hfind, pcRelOperand_metadata]
  cases findRipDisp inst with
  | none => rfl
  | some dispOff =>
    cases pcRelOperand inst with
    | none => rfl
    | some operand => simp only [Option.map_some, pcRelativeOperandTarget_metadata]; rfl

theorem relocate_metadata (tables : AsmKit.Tables) (inst : Inst) :
    relocate engine (applyOperandMetadata tables inst) relocatedAddress capacity =
      relocate engine inst relocatedAddress capacity := by
  have hdirect : ∀ isCall, relocateDirect engine isCall (applyOperandMetadata tables inst)
      relocatedAddress capacity = relocateDirect engine isCall inst relocatedAddress capacity := by
    intro isCall
    simp only [relocateDirect, operands_metadata_eq_nil, target0_metadata]
  have hcond : relocateCond engine (applyOperandMetadata tables inst) relocatedAddress capacity =
      relocateCond engine inst relocatedAddress capacity := by
    simp only [relocateCond, operands_metadata_eq_nil, target0_metadata]
    rfl
  simp only [relocate, hdirect, hcond, relocateRip_metadata, ne_eq, operands_metadata_eq_nil]
  rfl

end X86

/-! ## `asmkit_relocate_inst` -/

theorem relocateInst_metadata (tables : Tables) (inst : Inst) :
    relocateInst engine (applyOperandMetadata tables inst) relocatedAddress capacity =
      relocateInst engine inst relocatedAddress capacity := by
  unfold relocateInst
  simp only [X86.relocate_metadata, Arm.relocate_metadata, A64.relocate_metadata]

end AsmKit
