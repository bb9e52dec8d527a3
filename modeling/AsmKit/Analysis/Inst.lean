import AsmKit.A64.Relocate
import AsmKit.Arm.Relocate
import AsmKit.X86.Relocate

/-!
# `asmkit_analyze_inst`

The targets with native code bring their analysis along, the analyses of BPF and WebAssembly are
here.
-/

namespace AsmKit

/-- `bpf_analyze`. -/
def Bpf.analyze (inst : Inst) : InstSemantics :=
  let isPseudo : Bool := inst.instClass == .bpfPseudo
  let isJump : Bool := inst.instClass == .directBranch || inst.instClass == .condBranch
  let isCall : Bool := inst.instClass == .directCall
  let isReturn : Bool := inst.instClass == .return_
  let target := if isJump then inst.operand0.absTarget else 0
  { instClass := inst.instClass
    hazardFlags := (if isPseudo then Hazard.unsupportedReloc else 0) |||
      (if isJump then Hazard.branch ||| Hazard.pcRelative else 0) |||
      (if isCall then Hazard.call else 0) ||| (if isReturn then Hazard.return_ else 0)
    branch := { isBranch := isJump, isCall, isReturn, isConditional := inst.instClass == .condBranch
                isDirect := isJump || isCall, hasTarget := isJump, target }
    pcRel := { isPcRelative := isJump, isControlFlow := isJump, originalTarget := target }
    relocKind :=
      if isJump then .reencodeWithNewPc else if isPseudo then .reject else .copyAsIs
    minEmitSize := inst.size, maxEmitSize := inst.size }

/-- `wasm_analyze`. -/
def Wasm.analyze (inst : Inst) : InstSemantics :=
  let isStructured : Bool := match inst.instClass with
    | .wasmBlock | .wasmLoop | .wasmIf | .wasmElse | .wasmEnd => true
    | _ => false
  let isBranch : Bool := match inst.instClass with
    | .directBranch | .condBranch | .indirectBranch => true
    | _ => false
  let isCall : Bool := inst.instClass == .directCall || inst.instClass == .indirectCall
  let isReturn : Bool := inst.instClass == .return_
  { instClass := inst.instClass
    hazardFlags := (if isStructured then Hazard.structuredCf else 0) |||
      (if isBranch then Hazard.branch ||| Hazard.structuredCf else 0) |||
      (if isCall then Hazard.call else 0) |||
      (if isReturn then Hazard.return_ ||| Hazard.structuredCf else 0)
    branch := { isBranch, isCall, isReturn, isConditional := inst.instClass == .condBranch
                isDirect := (isBranch && inst.instClass != .indirectBranch) ||
                  inst.instClass == .directCall
                isIndirect := inst.instClass == .indirectBranch || inst.instClass == .indirectCall }
    relocKind := .copyAsIs
    minEmitSize := inst.size, maxEmitSize := inst.size }

def analyzeInst (engine : Engine) (inst : Inst) : Except Status InstSemantics :=
  match engine.target.arch with
  | .x86 => .ok (X86.analyze inst)
  | .arm => .ok (Arm.analyze inst)
  | .aarch64 => .ok (A64.analyze inst)
  | .bpf => .ok (Bpf.analyze inst)
  | .wasm => .ok (Wasm.analyze inst)

end AsmKit
