import AsmKit.A64.Decode
import AsmKit.Arm.Decode
import AsmKit.X86.Decode

/-!
# `asmkit_decode_one` and `asmkit_decode_block_until`

The decoder of the engine's target with the operand metadata laid over it, and the block decoder,
which goes on until enough bytes are covered. The generated tables are a parameter, with the
decoders of the targets that have no native code.
-/

namespace AsmKit

/-- `asmkit_operand_info_t`, as far as it is laid over an operand. -/
structure OperandInfo where
  flags : BitVec 32
  width : Nat
deriving DecidableEq, Repr

structure Tables where
  x86 : X86.Tables
  arm : Arm.Tables
  a64 : A64.Tables
  /-- `asmkit_gen_*_instruction_operand_infos`, none where an id has no entry. -/
  operandInfos : Arch → Nat → List OperandInfo
  /-- The decoders of BPF and WebAssembly. -/
  decodeOther : Engine → List Byte → BitVec 64 → Inst → Except Status Inst

/-- Tables with no rows: what the decoders know by hand. -/
def noTables : Tables where
  x86 := { bucket := fun _ => [], fastRecord := fun _ _ _ _ => none }
  arm := { a32Candidates := fun _ => [], thumbCandidates := fun _ _ => []
           decodeTdOperands := fun _ _ _ => none }
  a64 := { candidates := fun _ => [], pstateLiterals := [], hasWritebackBaseFirst := fun _ => false }
  operandInfos _ _ := []
  decodeOther _ _ _ _ := .error .unsupportedTargetOperation

/-- A cleared record. -/
def Engine.emptyInst (engine : Engine) : Inst :=
  { arch := engine.config.arch, mode := engine.config.mode }

/-! ## One instruction -/

/-- An operand with the information the table has at its place. -/
def Operand.withInfos (infos : List OperandInfo) (o : Operand) : Operand :=
  match infos[o.operandIndex]? with
  | some info =>
    { o with flags := o.flags ||| info.flags, width := if o.width = 0 then info.width else o.width }
  | none => o

/-- `asmkit_decode_apply_operand_metadata`. -/
def applyOperandMetadata (tables : Tables) (inst : Inst) : Inst :=
  { inst with
    operands := inst.operands.map (Operand.withInfos (tables.operandInfos inst.arch inst.id)) }

/-- The decoder of the target. Only x86 reads what the record held before. -/
def targetDecodeOne (tables : Tables) (engine : Engine) (code : List Byte) (address : BitVec 64)
    (prior : Inst) : Except Status Inst :=
  match engine.target.arch with
  | .x86 => X86.decodeOne engine tables.x86 code address prior
  | .arm => Arm.decodeOne tables.arm engine code address
  | .aarch64 => A64.decodeOne tables.a64 engine code address
  | .bpf | .wasm => tables.decodeOther engine code address prior

def decodeOne (tables : Tables) (engine : Engine) (code : List Byte) (address : BitVec 64)
    (prior : Inst) : Except Status Inst :=
  (targetDecodeOne tables engine code address prior).map (applyOperandMetadata tables)

/-! ## What the metadata leaves alone -/

section

variable (infos : List OperandInfo) (o : Operand)

@[simp] theorem Operand.withInfos_kind : (o.withInfos infos).kind = o.kind := by
  unfold withInfos
  split <;> rfl

@[simp] theorem Operand.withInfos_reg : (o.withInfos infos).reg = o.reg := by
  unfold withInfos
  split <;> rfl

@[simp] theorem Operand.withInfos_imm : (o.withInfos infos).imm = o.imm := by
  unfold withInfos
  split <;> rfl

@[simp] theorem Operand.withInfos_absTarget : (o.withInfos infos).absTarget = o.absTarget := by
  unfold withInfos
  split <;> rfl

@[simp] theorem Operand.withInfos_mem : (o.withInfos infos).mem = o.mem := by
  unfold withInfos
  split <;> rfl

theorem Operand.withInfos_width (h : o.width ≠ 0) : (o.withInfos infos).width = o.width := by
  unfold withInfos
  split
  · exact if_neg h
  · rfl

theorem Operand.withInfos_flags :
    (o.withInfos infos).flags = o.flags ||| (infos[o.operandIndex]?.map OperandInfo.flags).getD 0 := by
  unfold withInfos
  split <;> simp [*]

end

theorem decodeOne_eq_ok {tables : Tables} {engine : Engine} {code : List Byte} {address : BitVec 64}
    {prior inst : Inst} (h : decodeOne tables engine code address prior = .ok inst) :
    ∃ inst0, targetDecodeOne tables engine code address prior = .ok inst0 ∧
      inst = applyOperandMetadata tables inst0 := by
  unfold decodeOne at h
  cases hdec : targetDecodeOne tables engine code address prior with
  | error status => rw [hdec] at h; cases h
  | ok inst0 => rw [hdec] at h; cases h; exact ⟨inst0, rfl, rfl⟩

theorem decodeOne_x86 {tables : Tables} {engine : Engine} {code : List Byte} {address : BitVec 64}
    {prior inst : Inst} (harch : engine.target.arch = .x86)
    (h : decodeOne tables engine code address prior = .ok inst) :
    ∃ inst0, X86.decodeOne engine tables.x86 code address prior = .ok inst0 ∧
      inst = applyOperandMetadata tables inst0 := by
  obtain ⟨inst0, hdec, hinst⟩ := decodeOne_eq_ok h
  simp only [targetDecodeOne, harch] at hdec
  exact ⟨inst0, hdec, hinst⟩

theorem decodeOne_arm {tables : Tables} {engine : Engine} {code : List Byte} {address : BitVec 64}
    {prior inst : Inst} (harch : engine.target.arch = .arm)
    (h : decodeOne tables engine code address prior = .ok inst) :
    ∃ inst0, Arm.decodeOne tables.arm engine code address = .ok inst0 ∧
      inst = applyOperandMetadata tables inst0 := by
  obtain ⟨inst0, hdec, hinst⟩ := decodeOne_eq_ok h
  simp only [targetDecodeOne, harch] at hdec
  exact ⟨inst0, hdec, hinst⟩

theorem decodeOne_aarch64 {tables : Tables} {engine : Engine} {code : List Byte}
    {address : BitVec 64} {prior inst : Inst} (harch : engine.target.arch = .aarch64)
    (h : decodeOne tables engine code address prior = .ok inst) :
    ∃ inst0, A64.decodeOne tables.a64 engine code address = .ok inst0 ∧
      inst = applyOperandMetadata tables inst0 := by
  obtain ⟨inst0, hdec, hinst⟩ := decodeOne_eq_ok h
  simp only [targetDecodeOne, harch] at hdec
  exact ⟨inst0, hdec, hinst⟩

/-! ## A block -/

structure Block where
  insts : List Inst := []
  totalSize : Nat := 0
deriving DecidableEq, Repr

def Block.push (block : Block) (inst : Inst) : Block :=
  ⟨block.insts ++ [inst], block.totalSize + inst.size⟩

/-- The loop of `asmkit_decode_block_until`. `fuel` bounds the instructions still to come, and
`priors` is what the array held before, by place. -/
def decodeBlockLoop (tables : Tables) (engine : Engine) (code : List Byte) (address : BitVec 64)
    (minSize : Nat) (priors : Nat → Inst) : Nat → Block → Except Status Block
  | 0, block => .ok block
  | fuel + 1, block =>
    if minSize ≤ block.totalSize then .ok block
    else
      let rest := code.drop block.totalSize
      match decodeOne tables engine rest (address + BitVec.ofNat 64 block.totalSize)
          (priors block.insts.length) with
      | .error status => .error status
      | .ok inst =>
        if inst.size = 0 ∨ rest.length < inst.size then .error .decodeFailed
        else if inst.has InstFlag.terminator then .ok (block.push inst)
        else decodeBlockLoop tables engine code address minSize priors fuel (block.push inst)

def decodeBlockUntil (tables : Tables) (engine : Engine) (code : List Byte) (address : BitVec 64)
    (minSize capacity : Nat) (priors : Nat → Inst) : Except Status Block :=
  if capacity = 0 then .error .invalidArgument
  else
    match decodeBlockLoop tables engine code address minSize priors
        (min capacity maxBlockInstructions) {} with
    | .error status => .error status
    | .ok block => if block.totalSize < minSize then .error .outputTooSmall else .ok block

end AsmKit
