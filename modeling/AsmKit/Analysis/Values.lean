import AsmKit.Bpf.Decode
import AsmKit.Analysis.State

/-!
# `asmkit_analyze_inst_values`

What an instruction does to values: up to eight effects, and the condition it defines or uses.
-/

namespace AsmKit

/-! ## The result -/

inductive ValueRefKind where
  | none | operand | register | immediate | pc | temporary | controlTarget
deriving DecidableEq, Repr

structure ValueRef where
  kind : ValueRefKind := .none
  operandIndex : Nat := 0
  width : Nat := 0
  registerId : Nat := 0
  immediate : BitVec 64 := 0
deriving DecidableEq, Repr

inductive ValueEffectKind where
  | unknownClobber | copy | address | add | sub | mul | shiftLeft | and | or | xor
  | shiftRightLogical | shiftRightArithmetic | rotateLeft | rotateRight | signExtend | zeroExtend
  | load | store | compare | conditionUse
deriving DecidableEq, Repr

structure ValueEffect where
  kind : ValueEffectKind
  destination : ValueRef := {}
  sources : List ValueRef := []
deriving DecidableEq, Repr

def maxValueEffects : Nat := 8

inductive CompareRelation where
  | none | eq | ne | ult | ule | ugt | uge | slt | sle | sgt | sge | bitClear | bitSet
deriving DecidableEq, Repr

inductive ConditionState where
  | none | x86Flags | armFlags | aarch64Flags | bpfInline
deriving DecidableEq, Repr

structure ConditionInfo where
  definesCondition : Bool := false
  consumesCondition : Bool := false
  state : ConditionState := .none
  takenRelation : CompareRelation := .none
  left : ValueRef := {}
  right : ValueRef := {}
deriving DecidableEq, Repr

structure ValueAnalysis where
  effects : List ValueEffect := []
  condition : ConditionInfo := {}
deriving DecidableEq, Repr

/-! ## References and effects -/

/-- `asmkit_value_operand`. -/
def valueOperand (inst : Inst) (index : Option Nat) : ValueRef :=
  match index with
  | none => {}
  | some i =>
    match inst.operands[i]? with
    | none => {}
    | some o =>
      { kind := .operand, operandIndex := i, width := o.width
        registerId := if o.kind = .reg then o.reg else 0
        immediate := if o.kind = .imm ∨ o.kind = .pcRel then o.imm else 0 }

def valueImmediate (value : BitVec 64) (width : Nat) : ValueRef :=
  { kind := .immediate, width, immediate := value }

def valueTemporary (index width : Nat) : ValueRef := { kind := .temporary, operandIndex := index, width }

def valueControlTarget (width : Nat) : ValueRef := { kind := .controlTarget, width }

/-- `asmkit_value_add_effect`, with the effect filled in. -/
def ValueAnalysis.addEffect (va : ValueAnalysis) (effect : ValueEffect) : ValueAnalysis :=
  if maxValueEffects ≤ va.effects.length then va else { va with effects := va.effects ++ [effect] }

def findMemoryOperand (inst : Inst) : Option Nat := inst.operands.findIdx? (·.kind == .mem)

def findDestinationOperand (inst : Inst) : Option Nat :=
  (inst.operands.findIdx? (hasFlag ·.flags OperandFlag.write)).or
    (if inst.operands = [] then none else some 0)

def findSourceOperand (inst : Inst) (destination memory : Option Nat) : Option Nat :=
  (List.range inst.operands.length).find? fun i =>
    some i != destination && some i != memory &&
      (hasFlag (inst.operands.getD i .empty).flags OperandFlag.read || i != 0)

/-- `asmkit_emit_memory_effect`. -/
def emitMemoryEffect (inst : Inst) (va : ValueAnalysis) : ValueAnalysis :=
  let destination := findDestinationOperand inst
  let memory := findMemoryOperand inst
  if memory = none then va
  else if inst.instClass = .store ∨ destination = memory then
    let source := findSourceOperand inst memory none
    va.addEffect { kind := .store, destination := valueOperand inst memory
                   sources := if source = none then [] else [valueOperand inst source] }
  else if destination ≠ none then
    va.addEffect { kind := .load, destination := valueOperand inst destination
                   sources := [valueOperand inst memory] }
  else va

/-- `asmkit_emit_binary_effect`. -/
def emitBinaryEffect (inst : Inst) (kind : ValueEffectKind) (va : ValueAnalysis) : ValueAnalysis :=
  let destination := findDestinationOperand inst
  if destination = none ∨ inst.operands.length < 2 then va
  else
    va.addEffect { kind, destination := valueOperand inst destination
                   sources :=
                     if 3 ≤ inst.operands.length then
                       [valueOperand inst (some 1), valueOperand inst (some 2)]
                     else
                       [valueOperand inst destination,
                         valueOperand inst (if destination = some 0 then some 1 else some 0)] }

/-- An effect of the first kind in the list that the mnemonic has. -/
def emitBinaryOf (kinds : List (Nat × ValueEffectKind)) (inst : Inst) (va : ValueAnalysis) :
    ValueAnalysis :=
  match kinds.lookup inst.mnemonicId with
  | some kind => emitBinaryEffect inst kind va
  | none => va

/-- The copy of a register move. It stays empty when an operand is missing. -/
def emitCopy (inst : Inst) (va : ValueAnalysis) : ValueAnalysis :=
  let destination := findDestinationOperand inst
  let source := findSourceOperand inst destination none
  if destination = none ∨ source = none then va.addEffect { kind := .copy }
  else
    va.addEffect { kind := .copy, destination := valueOperand inst destination
                   sources := [valueOperand inst source] }

/-- The widening of the destination. It stays empty when there is none. -/
def emitExtend (inst : Inst) (kind : ValueEffectKind) (va : ValueAnalysis) : ValueAnalysis :=
  let destination := findDestinationOperand inst
  if destination = none then va.addEffect { kind }
  else
    va.addEffect { kind, destination := valueOperand inst destination
                   sources := [valueOperand inst destination] }

def emitAddress (inst : Inst) (source : ValueRef) (va : ValueAnalysis) : ValueAnalysis :=
  va.addEffect { kind := .address, destination := valueOperand inst (findDestinationOperand inst)
                 sources := [source] }

/-- `asmkit_emit_compare`: the first two operands, whatever the instruction. -/
def emitCompare (inst : Inst) (state : ConditionState) (va : ValueAnalysis) : ValueAnalysis :=
  if inst.operands.length < 2 then va
  else
    let left := valueOperand inst (some 0)
    let right := valueOperand inst (some 1)
    let va := va.addEffect { kind := .compare, sources := [left, right] }
    { va with condition := { va.condition with definesCondition := true, state, left, right } }

/-! ## x86 -/

namespace X86.Mnemonic

def add : Nat := base + 10
def and : Nat := base + 32
def cmp : Nat := base + 102
def dec : Nat := base + 178
def imul : Nat := base + 305
def inc : Nat := base + 308
def ja : Nat := base + 329
def jae : Nat := base + 330
def jb : Nat := base + 331
def jbe : Nat := base + 332
def je : Nat := base + 334
def jg : Nat := base + 336
def jge : Nat := base + 337
def jl : Nat := base + 338
def jle : Nat := base + 339
def jne : Nat := base + 342
def lea : Nat := base + 407
def movsx : Nat := base + 484
def movzx : Nat := base + 488
def or : Nat := base + 501
def rol : Nat := base + 709
def ror : Nat := base + 710
def sar : Nat := base + 722
def shl : Nat := base + 763
def shr : Nat := base + 766
def sub : Nat := base + 793
def test : Nat := base + 822
def xor : Nat := base + 1871

end X86.Mnemonic

namespace X86

def binaryKinds : List (Nat × ValueEffectKind) :=
  [(Mnemonic.add, .add), (Mnemonic.sub, .sub), (Mnemonic.imul, .mul), (Mnemonic.shl, .shiftLeft),
    (Mnemonic.and, .and), (Mnemonic.or, .or), (Mnemonic.xor, .xor),
    (Mnemonic.shr, .shiftRightLogical), (Mnemonic.sar, .shiftRightArithmetic),
    (Mnemonic.rol, .rotateLeft), (Mnemonic.ror, .rotateRight)]

/-- `asmkit_x86_taken_relation`. -/
def takenRelation (mnemonic : Nat) : CompareRelation :=
  ([(Mnemonic.ja, .ugt), (Mnemonic.jae, .uge), (Mnemonic.jb, .ult), (Mnemonic.jbe, .ule),
    (Mnemonic.je, .eq), (Mnemonic.jne, .ne), (Mnemonic.jg, .sgt), (Mnemonic.jge, .sge),
    (Mnemonic.jl, .slt), (Mnemonic.jle, .sle)].lookup mnemonic).getD .none

/-- The instructions that compare their operands. -/
def isCompare (mnemonic : Nat) : Bool :=
  mnemonic == Mnemonic.cmp || mnemonic == Mnemonic.test || mnemonic == Mnemonic.sub

/-- The instructions that set flags in another way. -/
def setsFlags (mnemonic : Nat) : Bool :=
  [Mnemonic.add, Mnemonic.imul, Mnemonic.shl, Mnemonic.and, Mnemonic.or, Mnemonic.xor, Mnemonic.shr,
    Mnemonic.sar, Mnemonic.rol, Mnemonic.ror, Mnemonic.inc, Mnemonic.dec].contains mnemonic

def isMove (mnemonic : Nat) : Bool :=
  [Mnemonic.mov, Mnemonic.movsx, Mnemonic.movsxd, Mnemonic.movzx].contains mnemonic

def valueEffects (inst : Inst) (control : ControlAnalysis) (va : ValueAnalysis) : ValueAnalysis :=
  let mnemonic := inst.mnemonicId
  let destination := findDestinationOperand inst
  let memory := findMemoryOperand inst
  let va := if isMove mnemonic ∧ memory ≠ none ∧ va.effects = [] then emitMemoryEffect inst va else va
  if mnemonic = Mnemonic.lea ∧ destination ≠ none then
    emitAddress inst
      (if control.semantics.pcRel.isPcRelative then
        valueImmediate control.semantics.pcRel.originalTarget 64
      else valueOperand inst memory) va
  else if mnemonic = Mnemonic.mov ∧ memory = none ∧ destination ≠ none then emitCopy inst va
  else if mnemonic = Mnemonic.movsx ∨ mnemonic = Mnemonic.movsxd then
    emitExtend inst .signExtend (if memory = none then emitCopy inst va else va)
  else if mnemonic = Mnemonic.movzx then
    emitExtend inst .zeroExtend (if memory = none then emitCopy inst va else va)
  else emitBinaryOf binaryKinds inst va

def defineCondition (inst : Inst) (va : ValueAnalysis) : ValueAnalysis :=
  if isCompare inst.mnemonicId then emitCompare inst .x86Flags va
  else if setsFlags inst.mnemonicId then
    { va with condition := { va.condition with definesCondition := true, state := .x86Flags } }
  else va

def useCondition (inst : Inst) (va : ValueAnalysis) : ValueAnalysis :=
  let takenRelation := takenRelation inst.mnemonicId
  if takenRelation ≠ .none then
    { va with condition := { va.condition with
        takenRelation, consumesCondition := true, state := .x86Flags } }
  else { va with condition := { va.condition with takenRelation } }

def values (inst : Inst) (control : ControlAnalysis) (va : ValueAnalysis) : ValueAnalysis :=
  useCondition inst (defineCondition inst (valueEffects inst control va))

end X86

/-! ## ARM -/

namespace Arm.Mnemonic

def add : Nat := base + 3
def addw : Nat := base + 4
def adr : Nat := base + 5
def and : Nat := base + 10
def asr : Nat := base + 11
def cbnz : Nat := base + 33
def cbz : Nat := base + 34
def cmp : Nat := base + 41
def eor : Nat := base + 76
def lsl : Nat := base + 120
def lsr : Nat := base + 122
def mov : Nat := base + 130
def movs : Nat := base + 131
def orr : Nat := base + 143
def ror : Nat := base + 172
def sub : Nat := base + 281
def subw : Nat := base + 283
def tbb : Nat := base + 293
def tbh : Nat := base + 294

end Arm.Mnemonic

namespace Arm

def binaryKinds : List (Nat × ValueEffectKind) :=
  [(Mnemonic.add, .add), (Mnemonic.addw, .add), (Mnemonic.sub, .sub), (Mnemonic.subw, .sub),
    (Mnemonic.lsl, .shiftLeft), (Mnemonic.and, .and), (Mnemonic.orr, .or), (Mnemonic.eor, .xor),
    (Mnemonic.lsr, .shiftRightLogical), (Mnemonic.asr, .shiftRightArithmetic),
    (Mnemonic.ror, .rotateRight)]

/-- `asmkit_arm_taken_relation`. -/
def takenRelation (condition : BitVec 32) : CompareRelation :=
  match condition.toNat with
  | 0 => .eq
  | 1 => .ne
  | 2 => .uge
  | 3 => .ult
  | 8 => .ugt
  | 9 => .ule
  | 10 => .sge
  | 11 => .slt
  | 12 => .sgt
  | 13 => .sle
  | _ => .none

/-- A table branch: the entry is loaded, widened, doubled and added to the pc. -/
def emitTableBranch (inst : Inst) (va : ValueAnalysis) : ValueAnalysis :=
  let entryWidth := if inst.mnemonicId = Mnemonic.tbb then 8 else 16
  let pc := ((inst.address + 4) &&& ~~~3) ||| 1
  let load : ValueEffect :=
    { kind := .load, destination := valueTemporary 0 entryWidth
      sources := [valueOperand inst (findMemoryOperand inst)] }
  let extend : ValueEffect :=
    { kind := .zeroExtend, destination := valueTemporary 1 32
      sources := [valueTemporary 0 entryWidth] }
  let double : ValueEffect :=
    { kind := .mul, destination := valueTemporary 2 32
      sources := [valueTemporary 1 32, valueImmediate 2 32] }
  let target : ValueEffect :=
    { kind := .add, destination := valueControlTarget 32
      sources := [valueImmediate pc 32, valueTemporary 2 32] }
  (((va.addEffect load).addEffect extend).addEffect double).addEffect target

def valueEffects (inst : Inst) (control : ControlAnalysis) (va : ValueAnalysis) : ValueAnalysis :=
  let mnemonic := inst.mnemonicId
  if (mnemonic = Mnemonic.tbb ∨ mnemonic = Mnemonic.tbh) ∧ findMemoryOperand inst ≠ none then
    emitTableBranch inst va
  else if (mnemonic = Mnemonic.adr ∨ control.semantics.pcRel.isAddressMaterialization) ∧
      findDestinationOperand inst ≠ none then
    emitAddress inst (valueImmediate control.semantics.pcRel.originalTarget 32) va
  else if mnemonic = Mnemonic.mov ∨ mnemonic = Mnemonic.movs then emitCopy inst va
  else emitBinaryOf binaryKinds inst va

/-- `cbz` and `cbnz` compare their register with zero. -/
def zeroCondition (inst : Inst) (state : ConditionState) (takenRelation : CompareRelation) :
    ConditionInfo :=
  { definesCondition := true, consumesCondition := true, state, takenRelation
    left := valueOperand inst (some 0), right := valueImmediate 0 inst.operand0.width }

def useCondition (inst : Inst) (control : ControlAnalysis) (va : ValueAnalysis) : ValueAnalysis :=
  if inst.mnemonicId = Mnemonic.cbz then
    { va with condition := zeroCondition inst .armFlags .eq }
  else if inst.mnemonicId = Mnemonic.cbnz then
    { va with condition := zeroCondition inst .armFlags .ne }
  else if control.semantics.branch.isConditional ∧ control.predicate.kind = .armCondition then
    { va with condition := { va.condition with
        consumesCondition := true, state := .armFlags
        takenRelation := takenRelation control.predicate.predicateId } }
  else va

def values (inst : Inst) (control : ControlAnalysis) (va : ValueAnalysis) : ValueAnalysis :=
  let va := valueEffects inst control va
  useCondition inst control
    (if inst.mnemonicId = Mnemonic.cmp then emitCompare inst .armFlags va else va)

end Arm

/-! ## AArch64 -/

namespace A64.Mnemonic

def add : Nat := base + 7
def and : Nat := base + 34
def asr : Nat := base + 39
def eor : Nat := base + 350
def ldrsb : Nat := base + 719
def ldrsh : Nat := base + 720
def lsl : Nat := base + 817
def lsr : Nat := base + 819
def mov : Nat := base + 832
def movn : Nat := base + 837
def movz : Nat := base + 840
def orr : Nat := base + 862
def ror : Nat := base + 1000
def sub : Nat := base + 1342

end A64.Mnemonic

namespace A64

def binaryKinds : List (Nat × ValueEffectKind) :=
  [(Mnemonic.add, .add), (Mnemonic.sub, .sub), (Mnemonic.lsl, .shiftLeft), (Mnemonic.and, .and),
    (Mnemonic.orr, .or), (Mnemonic.eor, .xor), (Mnemonic.lsr, .shiftRightLogical),
    (Mnemonic.asr, .shiftRightArithmetic), (Mnemonic.ror, .rotateRight)]

def values (inst : Inst) (control : ControlAnalysis) (va : ValueAnalysis) : ValueAnalysis :=
  let mnemonic := inst.mnemonicId
  let va :=
    if (mnemonic = Mnemonic.adr ∨ mnemonic = Mnemonic.adrp ∨
        control.semantics.pcRel.isAddressMaterialization) ∧ findDestinationOperand inst ≠ none then
      emitAddress inst (valueImmediate control.semantics.pcRel.originalTarget 64) va
    else if mnemonic = Mnemonic.mov ∨ mnemonic = Mnemonic.movz ∨ mnemonic = Mnemonic.movn then
      emitCopy inst va
    else emitBinaryOf binaryKinds inst va
  let va :=
    if mnemonic = Mnemonic.ldrsw ∨ mnemonic = Mnemonic.ldrsh ∨ mnemonic = Mnemonic.ldrsb then
      emitExtend inst .signExtend va
    else va
  if mnemonic = Mnemonic.cbz ∨ mnemonic = Mnemonic.tbz then
    { va with condition := Arm.zeroCondition inst .aarch64Flags .eq }
  else if mnemonic = Mnemonic.cbnz ∨ mnemonic = Mnemonic.tbnz then
    { va with condition := Arm.zeroCondition inst .aarch64Flags .ne }
  else va

end A64

/-! ## BPF -/

namespace Bpf.Mnemonic

def add : Nat := base + 2
def and : Nat := base + 3
def arsh : Nat := base + 4
def mov : Nat := base + 29
def mul : Nat := base + 30
def or : Nat := base + 32
def sll : Nat := base + 33
def srl : Nat := base + 34
def sub : Nat := base + 37
def xor : Nat := base + 40

end Bpf.Mnemonic

namespace Bpf

def binaryKinds : List (Nat × ValueEffectKind) :=
  [(Mnemonic.add, .add), (Mnemonic.sub, .sub), (Mnemonic.mul, .mul), (Mnemonic.sll, .shiftLeft),
    (Mnemonic.and, .and), (Mnemonic.or, .or), (Mnemonic.xor, .xor),
    (Mnemonic.srl, .shiftRightLogical), (Mnemonic.arsh, .shiftRightArithmetic)]

def values (inst : Inst) (va : ValueAnalysis) : ValueAnalysis :=
  if inst.mnemonicId = Mnemonic.mov then emitCopy inst va else emitBinaryOf binaryKinds inst va

end Bpf

/-! ## The analysis -/

def analyzeInstValues (engine : Engine) (inst : Inst) (control : ControlAnalysis) :
    Except Status ValueAnalysis :=
  if engine.config.arch ≠ inst.arch ∨ engine.config.mode ≠ inst.mode then .error .unsupportedMode
  else
    let va :=
      if inst.instClass = .load ∨ inst.instClass = .store then emitMemoryEffect inst {} else {}
    match inst.arch with
    | .x86 => .ok (X86.values inst control va)
    | .arm => .ok (Arm.values inst control va)
    | .aarch64 => .ok (A64.values inst control va)
    | .bpf => .ok (Bpf.values inst va)
    | .wasm => .error .unsupportedArch

/-! ## Effects leave the condition alone -/

section

variable (inst : Inst) (va : ValueAnalysis)

@[simp] theorem addEffect_condition (effect : ValueEffect) :
    (va.addEffect effect).condition = va.condition := by
  unfold ValueAnalysis.addEffect
  split <;> rfl

@[simp] theorem emitMemoryEffect_condition : (emitMemoryEffect inst va).condition = va.condition := by
  simp only [emitMemoryEffect]
  split
  · rfl
  split
  · simp
  split <;> simp

@[simp] theorem emitBinaryEffect_condition (kind : ValueEffectKind) :
    (emitBinaryEffect inst kind va).condition = va.condition := by
  simp only [emitBinaryEffect]
  split <;> simp

@[simp] theorem emitBinaryOf_condition (kinds : List (Nat × ValueEffectKind)) :
    (emitBinaryOf kinds inst va).condition = va.condition := by
  unfold emitBinaryOf
  split <;> simp

@[simp] theorem emitCopy_condition : (emitCopy inst va).condition = va.condition := by
  simp only [emitCopy]
  split <;> simp

@[simp] theorem emitExtend_condition (kind : ValueEffectKind) :
    (emitExtend inst kind va).condition = va.condition := by
  simp only [emitExtend]
  split <;> simp

@[simp] theorem emitAddress_condition (source : ValueRef) :
    (emitAddress inst source va).condition = va.condition := by
  simp [emitAddress]

theorem X86.valueEffects_condition (control : ControlAnalysis) :
    (X86.valueEffects inst control va).condition = va.condition := by
  have hmove : (if isMove inst.mnemonicId ∧ findMemoryOperand inst ≠ none ∧ va.effects = [] then
      emitMemoryEffect inst va else va).condition = va.condition := by
    split <;> simp
  simp only [X86.valueEffects]
  generalize (if isMove inst.mnemonicId ∧ findMemoryOperand inst ≠ none ∧ va.effects = [] then
    emitMemoryEffect inst va else va) = moved at hmove ⊢
  split
  · simp [hmove]
  split
  · simp [hmove]
  split
  · rw [emitExtend_condition]
    split <;> simp [hmove]
  split
  · rw [emitExtend_condition]
    split <;> simp [hmove]
  · simp [hmove]

theorem Arm.valueEffects_condition (control : ControlAnalysis) :
    (Arm.valueEffects inst control va).condition = va.condition := by
  simp only [Arm.valueEffects]
  split
  · simp [emitTableBranch]
  split
  · simp
  split <;> simp

end

end AsmKit
