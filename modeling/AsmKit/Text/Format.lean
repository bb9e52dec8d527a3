import AsmKit.Decode.Block
import AsmKit.Text.Arm
import AsmKit.Text.Builder
import Mathlib

/-!
# `asmkit_format_inst`

The formatter, call by call as it goes through the builder. A call that hands the mnemonic on gives
back false.
-/

namespace AsmKit.Text

/-- The generated names. A mnemonic there is for every number, if only `unknown`. -/
structure TextTables where
  mnemonic : Arch → Nat → String
  registerName : Arch → Nat → Option String
  operandInfo : Arch → Nat → Nat → Option OperandInfo

/-! ## Operands -/

/-- `asmkit_text_register_name`, which does not look at the width. -/
def registerName (tables : TextTables) (arch : Arch) (registerId _width : Nat) : Option String :=
  if registerId < 2 ^ 32 then tables.registerName arch registerId else none

def appendRegister (tables : TextTables) (builder : Builder) (arch : Arch) (registerId width : Nat) :
    Builder :=
  match registerName tables arch registerId width with
  | some name => builder.appendCstr name
  | none => (builder.appendChar 'r').appendUnsignedDec (BitVec.ofNat 64 registerId)

/-- The width of the registers of an address. -/
def addressWidth (mem : MemoryOperand) : Nat := if mem.addressWidth ≠ 0 then mem.addressWidth else 64

/-- The index with its scale. -/
def appendIndex (tables : TextTables) (builder : Builder) (arch : Arch) (mem : MemoryOperand) : Builder :=
  let builder := if mem.base ≠ 0 then builder.appendChar '+' else builder
  let builder := appendRegister tables builder arch mem.index (addressWidth mem)
  if 1 < mem.scale then (builder.appendChar '*').appendUnsignedDec (mem.scale.setWidth 64) else builder

def appendDisplacement (builder : Builder) (mem : MemoryOperand) : Builder :=
  if mem.displacement ≠ 0 ∧ (mem.base ≠ 0 ∨ mem.index ≠ 0) then
    let builder := if 0 < mem.displacement.toInt then builder.appendChar '+' else builder
    builder.appendSignedDec mem.displacement
  else if mem.base = 0 ∧ mem.index = 0 then builder.appendSignedDec mem.displacement
  else builder

def appendMemory (tables : TextTables) (builder : Builder) (arch : Arch) (mem : MemoryOperand) :
    Builder :=
  let builder :=
    if mem.segment ≠ 0 then (appendRegister tables builder arch mem.segment 16).appendChar ':'
    else builder
  let builder := builder.appendChar '['
  let builder :=
    if mem.base ≠ 0 then appendRegister tables builder arch mem.base (addressWidth mem) else builder
  let builder := if mem.index ≠ 0 then appendIndex tables builder arch mem else builder
  (appendDisplacement builder mem).appendChar ']'

/-- `asmkit_text_append_operand`. -/
def appendOperand (tables : TextTables) (builder : Builder) (inst : Inst) (operand : Operand) :
    Builder :=
  let width :=
    match tables.operandInfo inst.arch inst.id operand.operandIndex with
    | some info => if info.width ≠ 0 then info.width else operand.width
    | none => operand.width
  match operand.kind with
  | .reg => appendRegister tables builder inst.arch operand.reg width
  | .imm | .wasmBlocktype | .wasmIndex => builder.appendSignedDec operand.imm
  | .mem => appendMemory tables builder inst.arch operand.mem
  | .pcRel => builder.appendHex operand.absTarget
  | .none | .opaque_ | .x86Rounding => builder.appendChar '?'

/-! ## Mnemonics -/

/-- `asmkit_text_append_arm_conditional_branch_mnemonic`. -/
def appendArmConditionalBranchMnemonic (builder : Builder) (mnemonic : String) (inst : Inst) :
    Builder × Bool :=
  if inst.arch ≠ .arm ∨ (mnemonic ≠ "b" ∧ mnemonic ≠ "bl") ∨ ¬ inst.has InstFlag.conditional then
    (builder, false)
  else
    let condition := armBranchCondition inst
    if 0x0e ≤ condition then (builder, false)
    else
      match conditionName condition.toNat with
      | none => (builder, false)
      | some name => ((builder.appendCstr mnemonic).appendChars name, true)

/-- The second operand of `cps`: the interrupts that are masked. -/
def appendCpsMask (builder : Builder) (inst : Inst) : Builder × Bool :=
  match inst.operands[1]? with
  | none => (builder, true)
  | some operand =>
    if operand.kind ≠ .imm then (builder, true)
    else
      let mask := operand.imm
      let builder := builder.appendChar ' '
      let builder := if mask &&& 4 ≠ 0 then builder.appendChar 'a' else builder
      let builder := if mask &&& 2 ≠ 0 then builder.appendChar 'i' else builder
      let builder := if mask &&& 1 ≠ 0 then builder.appendChar 'f' else builder
      let wroteMask : Bool := mask &&& 4 ≠ 0 ∨ mask &&& 2 ≠ 0 ∨ mask &&& 1 ≠ 0
      (if wroteMask then builder else builder.appendSignedDec mask, true)

/-- `asmkit_text_append_arm_cps_mnemonic`. -/
def appendArmCpsMnemonic (builder : Builder) (mnemonic : String) (inst : Inst) : Builder × Bool :=
  if inst.arch ≠ .arm ∨ mnemonic ≠ "cps" ∨ inst.operands = [] ∨ inst.operand0.kind ≠ .imm then
    (builder, false)
  else if inst.operand0.imm = 1 then appendCpsMask (builder.appendCstr "cpsid") inst
  else if inst.operand0.imm = 0 then appendCpsMask (builder.appendCstr "cpsie") inst
  else (builder, false)

/-- `ASMKIT_ARM_SHIFT_RRX`. -/
def armShiftRrx : Nat := 4

/-- `asmkit_text_append_arm_rrx_mnemonic`. -/
def appendArmRrxMnemonic (builder : Builder) (mnemonic : String) (inst : Inst) : Builder × Bool :=
  if inst.arch = .arm ∧ inst.mode = .armThumb ∧ mnemonic = "rrx" ∧ 4 ≤ inst.size then
    (builder.appendCstr (if inst.byte 0 &&& 0x10 ≠ 0 then "rrxs" else "rrx"), true)
  else if inst.arch ≠ .arm ∨ mnemonic ≠ "mov" then (builder, false)
  else
    match inst.operands[1]? with
    | none => (builder, false)
    | some operand =>
      if operand.kind ≠ .reg ∨ operand.shiftKind ≠ armShiftRrx then (builder, false)
      else
        let setFlags : Bool :=
          inst.mode = .armA32 ∧ 4 ≤ inst.size ∧ load32le inst.bytes &&& 0x00100000 ≠ 0
        (builder.appendCstr (if setFlags then "rrxs" else "rrx"), true)

/-- `asmkit_text_append_arm_it_mnemonic`. -/
def appendArmItMnemonic (builder : Builder) (mnemonic : String) (inst : Inst) : Builder × Bool :=
  if inst.arch ≠ .arm ∨ inst.mode ≠ .armThumb ∨ mnemonic ≠ "it" ∨ inst.size < 2 then (builder, false)
  else
    let (condition, mask) := itFields inst
    if mask = 0 then (builder, false)
    else
      let condition := if condition = 0x0f then 0x0e else condition
      match conditionName condition.toNat with
      | none => (builder, false)
      | some name =>
        let builder := ((List.range 4).reverse.filter (trailingZeroes mask < ·)).foldl
          (fun builder bit =>
            builder.appendChar (if mask.getLsbD bit = condition.getLsbD 0 then 't' else 'e'))
          (builder.appendCstr "it")
        ((builder.appendChar ' ').appendChars name, true)

/-- `asmkit_text_append_aarch64_conditional_mnemonic`. -/
def appendAarch64ConditionalMnemonic (builder : Builder) (mnemonic : String) (inst : Inst) :
    Builder × Bool :=
  if inst.arch ≠ .aarch64 ∨ mnemonic ≠ "b" ∨ ¬ inst.has InstFlag.conditional ∨ inst.operands = [] ∨
      inst.operand0.kind ≠ .imm then (builder, false)
  else
    match conditionName (inst.operand0.imm.setWidth 32).toNat with
    | none => (builder, false)
    | some condition => ((builder.appendCstr "b.").appendChars condition, true)

/-- The hint of a `bti`: its operand, else a field of the word. -/
def btiHint (inst : Inst) : BitVec 64 :=
  if inst.operands ≠ [] ∧ inst.operand0.kind = .imm then inst.operand0.imm
  else if 4 ≤ inst.size then ((load32le inst.bytes >>> 5) &&& 0x7f).setWidth 64
  else 0

/-- `asmkit_text_append_aarch64_bti_mnemonic`. -/
def appendAarch64BtiMnemonic (builder : Builder) (mnemonic : String) (inst : Inst) : Builder × Bool :=
  if inst.arch ≠ .aarch64 ∨ mnemonic ≠ "bti" then (builder, false)
  else
    let builder := builder.appendCstr "bti"
    let hint := btiHint inst
    (if hint = 34 then builder.appendCstr " c"
      else if hint = 36 then builder.appendCstr " j"
      else if hint = 38 then builder.appendCstr " jc"
      else builder, true)

/-! ## The instruction -/

/-- The prefixes of x86. -/
def appendPrefixes (builder : Builder) (mnemonic : String) (inst : Inst) : Builder :=
  let builder :=
    if inst.arch = .x86 ∧ inst.has InstFlag.x86Lock then builder.appendCstr "lock " else builder
  if inst.arch = .x86 ∧ inst.has InstFlag.x86Repne then builder.appendCstr "repne "
  else if inst.arch = .x86 ∧ inst.has InstFlag.x86Rep then
    if "cmps".toList.isPrefixOf mnemonic.toList ∨ "scas".toList.isPrefixOf mnemonic.toList then
      builder.appendCstr "repe "
    else builder.appendCstr "rep "
  else builder

/-- What the first call that takes the mnemonic leaves to do: the operand to begin with, and whether
the operands are left out. -/
structure AfterMnemonic where
  builder : Builder
  firstOperand : Nat := 0
  suppressOperands : Bool := false

def appendMnemonic (builder : Builder) (mnemonic : String) (inst : Inst) : AfterMnemonic :=
  let (builder, done) := appendArmCpsMnemonic builder mnemonic inst
  if done then { builder, suppressOperands := true }
  else
  let (builder, done) := appendArmRrxMnemonic builder mnemonic inst
  if done then { builder }
  else
  let (builder, done) := appendArmConditionalBranchMnemonic builder mnemonic inst
  if done then { builder }
  else
  let (builder, done) := appendArmItMnemonic builder mnemonic inst
  if done then { builder, suppressOperands := true }
  else
  let (builder, done) := appendAarch64ConditionalMnemonic builder mnemonic inst
  if done then { builder, firstOperand := 1 }
  else
  let (builder, done) := appendAarch64BtiMnemonic builder mnemonic inst
  if done then { builder, suppressOperands := true }
  else { builder := builder.appendCstr mnemonic }

/-- The loop over the operands, with a comma in front of all but the first. -/
def appendOperands (tables : TextTables) (builder : Builder) (inst : Inst) : List Operand → Builder
  | [] => builder
  | operand :: operands =>
    operands.foldl (fun builder operand => appendOperand tables (builder.appendCstr ", ") inst operand)
      (appendOperand tables builder inst operand)

/-- `asmkit_text_format_with_operands`. -/
def formatWithOperands (tables : TextTables) (mnemonic : String) (inst : Inst)
    (outText : Option (List Char)) (outCapacity : Nat) : TextOut :=
  let builder := appendPrefixes (.init outText outCapacity) mnemonic inst
  let after := appendMnemonic builder mnemonic inst
  let builder :=
    if ¬ after.suppressOperands ∧ after.firstOperand < inst.operands.length then
      appendOperands tables (after.builder.appendChar ' ') inst
        ((inst.operands.take maxOperands).drop after.firstOperand)
    else after.builder
  builder.finish

/-- `asmkit_text_copy`. -/
def textCopy (text : String) (outText : Option (List Char)) (outCapacity : Nat) : TextOut :=
  ((Builder.init outText outCapacity).appendCstr text).finish

/-- `asmkit_format_inst`. -/
def formatInst (tables : TextTables) (engine : Engine) (inst : Inst) (outText : Option (List Char))
    (outCapacity : Nat) : TextOut :=
  let textId := if inst.mnemonicId ≠ 0 then inst.mnemonicId else inst.id
  let mnemonic := tables.mnemonic engine.config.arch textId
  if inst.operands = [] ∧
      ¬ hasFlag inst.flags (InstFlag.x86Lock ||| InstFlag.x86Rep ||| InstFlag.x86Repne) then
    textCopy mnemonic outText outCapacity
  else formatWithOperands tables mnemonic inst outText outCapacity

end AsmKit.Text
