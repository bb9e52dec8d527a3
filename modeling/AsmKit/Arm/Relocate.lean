import AsmKit.Arm.Decode
import AsmKit.Arm.Emit
import AsmKit.Core.Semantics

/-!
# Analysis and relocation of ARM instructions

`arm_analyze` and `arm_relocate` of the ARM overlay.
-/

namespace AsmKit.Arm

/-! ## Analysis -/

def analyze (inst : Inst) : InstSemantics :=
  let (hazards, branch) := analyzeTransfer inst
  let isIt : Bool := inst.instClass == .armIt
  let stateSwitch := if inst.has InstFlag.stateSwitch then Hazard.stateSwitch else 0
  let sem : InstSemantics :=
    { instClass := inst.instClass, relocKind := if isIt then .reject else .copyAsIs
      minEmitSize := inst.size, maxEmitSize := inst.size
      hazardFlags := (if isIt then Hazard.armIt else 0) ||| hazards ||| stateSwitch, branch }
  if inst.has InstFlag.pcRelative ∧ inst.operands ≠ [] then
    let target := inst.operand0.absTarget
    let isControlFlow := inst.instClass.isDirectTransfer
    { sem with
      hazardFlags := sem.hazardFlags ||| Hazard.pcRelative
      pcRel := { isPcRelative := true, originalTarget := target
                 isLiteralLoad := inst.has InstFlag.literal, isControlFlow }
      branch := { sem.branch with hasTarget := isControlFlow, target }
      relocKind := .reencodeWithNewPc
      maxEmitSize := 12 }
  else sem

/-! ## Relocation -/

/-- A direct branch or call is built anew from its target alone. -/
def relocateDirect (engine : Engine) (inst : Inst) (relocatedAddress : BitVec 64)
    (capacity : Nat) : EmitOut :=
  let isCall : Bool := inst.instClass == .directCall
  let target := inst.operand0.absTarget
  let rel := emitRel engine isCall relocatedAddress target capacity
  if rel.status = .ok ∨ rel.status = .outputTooSmall ∨ engine.config.mode ≠ .armA32 then rel
  else emitAbsA32 isCall target capacity

def relocate (engine : Engine) (inst : Inst) (relocatedAddress : BitVec 64) (capacity : Nat) :
    EmitOut :=
  if inst.instClass = .armIt then { status := .unsupportedRelocation }
  else if inst.instClass = .directBranch ∨ inst.instClass = .directCall then
    relocateDirect engine inst relocatedAddress capacity
  else if inst.has InstFlag.pcRelative then { status := .unsupportedRelocation }
  else copyInst inst capacity

end AsmKit.Arm
