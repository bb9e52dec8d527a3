import AsmKit.Core.Types

/-!
# What the analyses and the relocations share

`asmkit_inst_semantics_t`, and the verbatim copy that ends every relocation.
-/

namespace AsmKit

structure BranchInfo where
  isBranch : Bool := false
  isCall : Bool := false
  isReturn : Bool := false
  isConditional : Bool := false
  isDirect : Bool := false
  isIndirect : Bool := false
  hasTarget : Bool := false
  target : BitVec 64 := 0
  minDisp : Int := 0
  maxDisp : Int := 0
deriving DecidableEq, Repr

structure PcRelativeInfo where
  isPcRelative : Bool := false
  isLiteralLoad : Bool := false
  isAddressMaterialization : Bool := false
  isControlFlow : Bool := false
  operandIndex : Nat := 0
  originalTarget : BitVec 64 := 0
deriving DecidableEq, Repr

structure InstSemantics where
  instClass : InstClass
  hazardFlags : BitVec 64 := 0
  branch : BranchInfo := {}
  pcRel : PcRelativeInfo := {}
  relocKind : RelocKind := .none
  minEmitSize : Nat := 0
  maxEmitSize : Nat := 0
  clobberMaskLo : BitVec 64 := 0
  clobberMaskHi : BitVec 64 := 0
deriving DecidableEq, Repr

/-- A branch or a call. -/
def InstClass.isTransfer : InstClass → Bool
  | .directBranch | .condBranch | .directCall | .indirectBranch | .indirectCall => true
  | _ => false

/-- A branch or a call whose target is part of the instruction. -/
def InstClass.isDirectTransfer : InstClass → Bool
  | .directBranch | .condBranch | .directCall => true
  | _ => false

/-- What the analysers of the overlays share: the branch fields of a branch or a call. -/
def analyzeTransfer (inst : Inst) : BitVec 64 × BranchInfo :=
  if inst.instClass.isTransfer then
    let isCall := inst.instClass == .directCall || inst.instClass == .indirectCall
    let isDirect := inst.has InstFlag.direct
    (if isCall then Hazard.branch ||| Hazard.call else Hazard.branch,
      { isBranch := !isCall, isCall, isConditional := inst.instClass == .condBranch
        isDirect, isIndirect := !isDirect })
  else (0, {})

/-- The instruction as it is. -/
def copyInst (inst : Inst) (capacity : Nat) : EmitOut :=
  emitBytes { size := inst.size } inst.bytes capacity

end AsmKit
