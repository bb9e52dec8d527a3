import AsmKit.X86.Decode
import AsmKit.X86.Emit
import AsmKit.Core.Semantics

/-!
# Analysis and relocation of x86 instructions

`x86_analyze` and `x86_relocate` of the x86 overlay, with the scan that finds the opcode and the
displacement of an instruction a second time.
-/

namespace AsmKit.X86

/-! ## Finding the opcode and the displacement -/

/-- `x86_find_opcode`: the offset of the first byte that is no prefix. -/
def findOpcode (inst : Inst) : Option Nat :=
  (List.range (min inst.size maxInstBytes)).find? fun i =>
    !(isLegacyPrefix (inst.byte i) || isRexPrefix inst.mode (inst.byte i))

/-- Where `x86_find_rip_disp` expects ModRM: behind the opcode, or behind the byte after `0f`. -/
def scannedModrm (inst : Inst) : Option Nat :=
  (findOpcode inst).map fun i => if inst.byte i = 0x0f then i + 2 else i + 1

/-- `x86_find_rip_disp`. -/
def findRipDisp (inst : Inst) : Option Nat :=
  (scannedModrm inst).bind fun i =>
    if inst.mode = .x86_64 ∧ inst.byte i &&& 0xc7 = 5 ∧ i + 5 ≤ inst.size then some (i + 1) else none

/-! ## The relative operand -/

/-- `x86_pc_relative_operand_target`. -/
def pcRelativeOperandTarget (inst : Inst) (operand : Operand) : BitVec 64 :=
  let next := inst.address + BitVec.ofNat 64 inst.size
  if operand.kind = .mem ∧ operand.mem.base = Reg.rip ∧ operand.absTarget = 0 then
    next + operand.mem.displacement
  else if operand.absTarget ≠ 0 ∨ operand.imm = 0 then operand.absTarget
  else next + operand.imm

def isRipMemory (operand : Operand) : Bool := operand.kind == .mem && operand.mem.base == Reg.rip

def isPcRelOperand (operand : Operand) : Bool :=
  operand.kind == .pcRel || operand.absTarget != 0 || isRipMemory operand

/-- `x86_pc_rel_operand`. -/
def pcRelOperand (inst : Inst) : Option Operand := (inst.operands.take maxOperands).find? isPcRelOperand

def pcRelOperandIndex (inst : Inst) : Nat := (inst.operands.take maxOperands).findIdx isPcRelOperand

/-! ## Analysis -/

/-- `x86_set_branch_limits`. -/
def withBranchLimits (branch : BranchInfo) (width : Nat) : BranchInfo :=
  match width with
  | 8 => { branch with minDisp := -128, maxDisp := 127 }
  | 16 => { branch with minDisp := -32768, maxDisp := 32767 }
  | _ => { branch with minDisp := -2147483648, maxDisp := 2147483647 }

def analyze (inst : Inst) : InstSemantics :=
  let (hazards, branch) := analyzeTransfer inst
  let cet := if inst.instClass = .cetEndbr then Hazard.cet ||| Hazard.landingPad else 0
  let rejected := inst.has InstFlag.unsupportedReloc
  let unsupported := if rejected then Hazard.unsupportedReloc else 0
  let ret := if inst.instClass = .return_ then Hazard.return_ else 0
  let sem : InstSemantics :=
    { instClass := inst.instClass, relocKind := if rejected then .reject else .copyAsIs
      minEmitSize := inst.size, maxEmitSize := inst.size
      hazardFlags := cet ||| unsupported ||| hazards ||| ret
      branch := { branch with isReturn := inst.instClass == .return_ } }
  if ¬ inst.has InstFlag.pcRelative then sem
  else match pcRelOperand inst with
    | none => sem
    | some operand =>
      let target := pcRelativeOperandTarget inst operand
      let isControlFlow := inst.instClass.isDirectTransfer
      { sem with
        hazardFlags := sem.hazardFlags ||| Hazard.pcRelative
        pcRel := { isPcRelative := true, originalTarget := target
                   operandIndex := pcRelOperandIndex inst, isControlFlow }
        branch := withBranchLimits { sem.branch with hasTarget := isControlFlow, target } operand.width
        relocKind := .reencodeWithNewPc
        maxEmitSize := if inst.instClass = .condBranch then 16 else 14 }

/-! ## Relocation -/

/-- A direct jump or call, in its absolute form where the relative one does not reach. -/
def relocateDirect (engine : Engine) (isCall : Bool) (inst : Inst) (relocatedAddress : BitVec 64)
    (capacity : Nat) : EmitOut :=
  if inst.operands = [] then { status := .unsupportedRelocation }
  else
    let target := pcRelativeOperandTarget inst inst.operand0
    let rel := emitRel engine isCall relocatedAddress target capacity
    if rel.status = .ok ∨ rel.status = .outputTooSmall ∨ engine.config.mode ≠ .x86_64 then rel
    else emitAbs isCall target capacity

/-- The inverted condition over an absolute jump. -/
def emitJccAbs (cc : Byte) (target : BitVec 64) (capacity : Nat) : EmitOut :=
  emitBytes { size := 16 } ((0x70 ||| ((cc ^^^ 1) &&& 0x0f)) :: 14 :: absCode false target) capacity

/-- The opcode byte that holds the condition. -/
def condOpcode (inst : Inst) (i : Nat) : Byte :=
  if inst.byte i = 0x0f ∧ i + 1 < inst.size then inst.byte (i + 1) else inst.byte i

/-- A conditional branch. `loop` has no form that reaches farther. -/
def relocateCond (engine : Engine) (inst : Inst) (relocatedAddress : BitVec 64) (capacity : Nat) :
    EmitOut :=
  if inst.operands = [] then { status := .unsupportedRelocation }
  else
    let target := pcRelativeOperandTarget inst inst.operand0
    match findOpcode inst with
    | none => { status := .unsupportedRelocation }
    | some i =>
      let op := condOpcode inst i
      if isShortJcc op ∨ isNearJcc op then
        let jcc := emitJcc (op &&& 0x0f) relocatedAddress target capacity
        if jcc.status = .ok ∨ jcc.status = .outputTooSmall ∨ engine.config.mode ≠ .x86_64 then jcc
        else emitJccAbs op target capacity
      else { status := .unsupportedRelocation }

/-- `code` with `patch` stored at `offset`. -/
def patchBytes (code patch : List Byte) (offset : Nat) : List Byte :=
  code.take offset ++ patch ++ code.drop (offset + patch.length)

/-- An instruction with a relative operand that is no branch: the displacement is stored anew. -/
def relocateRip (inst : Inst) (relocatedAddress : BitVec 64) (capacity : Nat) : EmitOut :=
  match findRipDisp inst, pcRelOperand inst with
  | some dispOff, some operand =>
    let disp := pcRelativeOperandTarget inst operand -
      (relocatedAddress + BitVec.ofNat 64 inst.size)
    if i64FitsI32 disp then
      emitBytes { size := inst.size }
        (patchBytes inst.bytes (store32le (disp.setWidth 32)) dispOff) capacity
    else { status := .branchOutOfRange }
  | _, _ => { status := .unsupportedRelocation }

/-- `x86_relocate`. -/
def relocate (engine : Engine) (inst : Inst) (relocatedAddress : BitVec 64) (capacity : Nat) : EmitOut :=
  match inst.instClass with
  | .directCall => relocateDirect engine true inst relocatedAddress capacity
  | .directBranch => relocateDirect engine false inst relocatedAddress capacity
  | .condBranch => relocateCond engine inst relocatedAddress capacity
  | _ =>
    if inst.has InstFlag.pcRelative ∧ inst.operands ≠ [] then relocateRip inst relocatedAddress capacity
    else copyInst inst capacity

end AsmKit.X86
