import AsmKit.Lib.Bytes

/-!
# The data model

The enumerations and records of the public headers. Fixed-width integers are `BitVec`, sizes and
offsets are `Nat`. An operand list holds the operands the record counts.
-/

namespace AsmKit

/-! ## Enumerations -/

inductive Status where
  | ok
  | invalidArgument
  | unsupportedArch
  | unsupportedMode
  | unsupportedFeature
  | unsupportedTargetOperation
  | decodeFailed
  | encodeFailed
  | outputTooSmall
  | workspaceTooSmall
  | unsupportedInstruction
  | unsupportedRelocation
  | branchOutOfRange
  | requiresBranchIsland
  | forbiddenClobber
  | featureDisabled
  | internal
deriving DecidableEq, Repr

inductive Arch where
  | x86 | arm | aarch64 | bpf | wasm
deriving DecidableEq, Repr

inductive Mode where
  | default | x86_16 | x86_32 | x86_64 | armA32 | armThumb | aarch64 | bpf64 | wasm32 | wasm64
deriving DecidableEq, Repr

inductive BranchMode where
  | auto | directOnly | absoluteOnly | preferDirect | preferClobberless | allowScratchClobber
deriving DecidableEq, Repr

inductive InstClass where
  | other | nop | hint | landingPad
  | directBranch | indirectBranch | condBranch | directCall | indirectCall | return_
  | load | store | alu | system | barrier | pac | bti | cetEndbr | armIt
  | wasmBlock | wasmLoop | wasmIf | wasmElse | wasmEnd | bpfPseudo
deriving DecidableEq, Repr

inductive OperandKind where
  | none | reg | imm | mem | pcRel | wasmBlocktype | wasmIndex | opaque_ | x86Rounding
deriving DecidableEq, Repr

inductive RelocKind where
  | none | copyAsIs | reencodeWithNewPc | expandToSequence | reject
deriving DecidableEq, Repr

/-! ## Flag words -/

/-- Some bit of `mask` is set in `flags`. -/
def hasFlag (flags mask : BitVec 32) : Bool := flags &&& mask != 0

theorem hasFlag_or_eq_false {a b mask : BitVec 32} :
    hasFlag (a ||| b) mask = false ↔ hasFlag a mask = false ∧ hasFlag b mask = false := by
  simp only [hasFlag, bne_eq_false_iff_eq]
  rw [BitVec.and_comm, BitVec.and_or_distrib_left, BitVec.and_comm mask, BitVec.and_comm mask]
  exact BitVec.or_eq_zero_iff

namespace InstFlag

def pcRelative : BitVec 32 := 1 <<< 0
def direct : BitVec 32 := 1 <<< 1
def conditional : BitVec 32 := 1 <<< 2
def call : BitVec 32 := 1 <<< 3
def return_ : BitVec 32 := 1 <<< 4
def terminator : BitVec 32 := 1 <<< 5
def literal : BitVec 32 := 1 <<< 6
def stateSwitch : BitVec 32 := 1 <<< 7
def pairPrefix : BitVec 32 := 1 <<< 8
def unsupportedReloc : BitVec 32 := 1 <<< 9
def x86Lock : BitVec 32 := 1 <<< 10
def x86Rep : BitVec 32 := 1 <<< 11
def x86Repne : BitVec 32 := 1 <<< 12

end InstFlag

namespace OperandFlag

def explicit : BitVec 32 := 1 <<< 0
def read : BitVec 32 := 1 <<< 1
def write : BitVec 32 := 1 <<< 2
def relative : BitVec 32 := 1 <<< 3
def memory : BitVec 32 := 1 <<< 4
def signed : BitVec 32 := 1 <<< 5
def x86Zeroing : BitVec 32 := 1 <<< 6
def x86Broadcast : BitVec 32 := 1 <<< 7
def aarch64ExtendedReg : BitVec 32 := 1 <<< 8
def registerList : BitVec 32 := 1 <<< 9
def vectorList : BitVec 32 := 1 <<< 10
def registerPair : BitVec 32 := 1 <<< 12

end OperandFlag

namespace Attr

def x86Nf : BitVec 32 := 1 <<< 14
def x86Sae : BitVec 32 := 1 <<< 15

end Attr

namespace Hazard

def pcRelative : BitVec 64 := 1 <<< 0
def branch : BitVec 64 := 1 <<< 1
def call : BitVec 64 := 1 <<< 2
def return_ : BitVec 64 := 1 <<< 3
def landingPad : BitVec 64 := 1 <<< 4
def pac : BitVec 64 := 1 <<< 5
def bti : BitVec 64 := 1 <<< 6
def cet : BitVec 64 := 1 <<< 7
def armIt : BitVec 64 := 1 <<< 8
def stateSwitch : BitVec 64 := 1 <<< 9
def structuredCf : BitVec 64 := 1 <<< 10
def unsupportedReloc : BitVec 64 := 1 <<< 11

end Hazard

/-! ## Instructions -/

structure MemoryOperand where
  base : Nat := 0
  index : Nat := 0
  segment : Nat := 0
  displacement : BitVec 64 := 0
  addressWidth : Nat := 0
  scale : BitVec 8 := 0
deriving DecidableEq, Repr

structure Operand where
  kind : OperandKind := .none
  flags : BitVec 32 := 0
  reg : Nat := 0
  shiftReg : Nat := 0
  imm : BitVec 64 := 0
  absTarget : BitVec 64 := 0
  mem : MemoryOperand := {}
  width : Nat := 0
  shiftKind : Nat := 0
  shiftAmount : Nat := 0
  extendKind : Nat := 0
  extendAmount : Nat := 0
  operandIndex : Nat := 0
deriving DecidableEq, Repr

/-- `asmkit_operand_none`. -/
def Operand.empty : Operand := {}

def Operand.ofReg (reg width : Nat) : Operand := { kind := .reg, reg, width }

def Operand.ofImm (imm : BitVec 64) (width : Nat) : Operand := { kind := .imm, imm, width }

def Operand.ofOpaque (value : BitVec 64) (width : Nat) : Operand :=
  { kind := .opaque_, imm := value, width }

def Operand.ofPcRel (disp : BitVec 64) (width : Nat) : Operand :=
  { kind := .pcRel, imm := disp, width }

def Operand.atIndex (operand : Operand) (index : Nat) : Operand :=
  { operand with operandIndex := index }

@[simp] theorem Operand.atIndex_kind (operand : Operand) (index : Nat) :
    (operand.atIndex index).kind = operand.kind := rfl

@[simp] theorem Operand.atIndex_imm (operand : Operand) (index : Nat) :
    (operand.atIndex index).imm = operand.imm := rfl

@[simp] theorem Operand.atIndex_absTarget (operand : Operand) (index : Nat) :
    (operand.atIndex index).absTarget = operand.absTarget := rfl

def maxInstBytes : Nat := 16
def maxOperands : Nat := 8
def maxBlockInstructions : Nat := 32

/-- `bytes` holds the first `size` of the 16 bytes of the record, the rest are zero. -/
structure Inst where
  arch : Arch
  mode : Mode
  id : Nat := 0
  mnemonicId : Nat := 0
  instClass : InstClass := .other
  address : BitVec 64 := 0
  size : Nat := 0
  bytes : List Byte := []
  flags : BitVec 32 := 0
  attributes : BitVec 32 := 0
  operands : List Operand := []
deriving DecidableEq, Repr

/-- `inst->bytes[i]`. -/
def Inst.byte (inst : Inst) (i : Nat) : Byte := inst.bytes.getD i 0

/-- `inst->operands[0]`, which is read also when there is none. -/
def Inst.operand0 (inst : Inst) : Operand := inst.operands.headD .empty

def Inst.has (inst : Inst) (flag : BitVec 32) : Bool := hasFlag inst.flags flag

/-! ## Emission -/

structure EmitOptions where
  mode : BranchMode := .auto
  allowedClobberMaskLo : BitVec 64 := 0
  allowedClobberMaskHi : BitVec 64 := 0
deriving DecidableEq, Repr

structure EmitResult where
  size : Nat := 0
  requiredAlignment : Nat := 0
  clobberMaskLo : BitVec 64 := 0
  clobberMaskHi : BitVec 64 := 0
  flags : BitVec 32 := 0
deriving DecidableEq, Repr

/-- What an emitter leaves behind: its status, the result record, and the bytes it stored, which
lie from the start of the output buffer on. -/
structure EmitOut where
  status : Status
  result : EmitResult := {}
  code : List Byte := []
deriving DecidableEq, Repr

/-- `*out_code = code` under a capacity check, with the result filled in before the check. -/
def emitBytes (result : EmitResult) (code : List Byte) (capacity : Nat) : EmitOut :=
  if capacity < result.size then { status := .outputTooSmall, result }
  else { status := .ok, result, code }

theorem emitBytes_ok {result : EmitResult} {code : List Byte} {capacity : Nat}
    (h : result.size ≤ capacity) : emitBytes result code capacity = { status := .ok, result, code } := by
  simp [emitBytes, Nat.not_lt.2 h]

theorem emitBytes_status_ok_iff {result : EmitResult} {code : List Byte} {capacity : Nat} :
    (emitBytes result code capacity).status = .ok ↔ result.size ≤ capacity := by
  unfold emitBytes
  split <;> simp <;> omega

theorem emitBytes_settled (result : EmitResult) (code : List Byte) (capacity : Nat) (p : Prop) :
    (emitBytes result code capacity).status = .ok ∨
      (emitBytes result code capacity).status = .outputTooSmall ∨ p := by
  unfold emitBytes
  split
  · exact .inr (.inl rfl)
  · exact .inl rfl

theorem emitBytes_eq_of_ok {result : EmitResult} {code : List Byte} {capacity : Nat}
    (h : (emitBytes result code capacity).status = .ok) :
    emitBytes result code capacity = { status := .ok, result, code } :=
  emitBytes_ok (emitBytes_status_ok_iff.1 h)

@[simp] theorem emitBytes_result (result : EmitResult) (code : List Byte) (capacity : Nat) :
    (emitBytes result code capacity).result = result := by
  unfold emitBytes
  split <;> rfl

/-- `options != 0 ? options->mode : ASMKIT_BRANCH_AUTO`. -/
def emitMode (options : Option EmitOptions) : BranchMode := (options.map (·.mode)).getD .auto

/-- `asmkit_branch_plan_bound_t`. -/
structure BranchPlanBound where
  size : Nat := 0
  requiresNearIsland : Bool := false
  islandMinDistance : Int := 0
  islandMaxDistance : Int := 0
  clobberMaskLo : BitVec 64 := 0
  clobberMaskHi : BitVec 64 := 0
deriving DecidableEq, Repr

end AsmKit
