import AsmKit.Bpf.Decode
import AsmKit.Encode.Inst

/-!
# The BPF encoder

`asmkit_gen_bpf_encode_inst`: the row of the instruction, by its id or else by its mnemonic and
operands, and the fields that its form fills. A register is given by its number in the word, where
the decoder states its id.
-/

namespace AsmKit.Bpf

/-! ## The row of an instruction -/

/-- `bpf_reg_ok`. -/
def regOk (reg : Nat) : Bool := reg ≤ 15

/-- `bpf_operand_width_matches`. -/
def operandWidthMatches (operand : Operand) (width : Nat) : Bool :=
  width == 0 || if operand.width = 0 then width == 64 else operand.width == width

/-- `bpf_operand_is_reg`. -/
def operandIsReg (operand : Operand) (width : Nat) : Bool :=
  operand.kind == .reg && regOk operand.reg && operandWidthMatches operand width

/-- `bpf_operand_is_imm`. -/
def operandIsImm (operand : Operand) : Bool := operand.kind == .imm

/-- What `bpf_operand_is_mem` and `bpf_operand_is_abs_mem` check alike. -/
def operandIsPlainMem (operand : Operand) (width : Nat) : Bool :=
  operand.kind == .mem && operand.reg == 0 && operand.imm == 0 && operand.mem.index == 0 &&
    operand.mem.segment == 0 && (operand.mem.scale == 0 || operand.mem.scale == 1) &&
    operandWidthMatches operand width

/-- `bpf_operand_is_mem`. -/
def operandIsMem (operand : Operand) (width : Nat) : Bool :=
  operandIsPlainMem operand width && regOk operand.mem.base && i64FitsI16 operand.mem.displacement

/-- `bpf_operand_is_abs_mem`. -/
def operandIsAbsMem (operand : Operand) (width : Nat) : Bool :=
  operandIsPlainMem operand width && operand.mem.base == 0 && i64FitsI32 operand.mem.displacement

/-- `bpf_operand_is_target`. -/
def operandIsTarget (operand : Operand) : Bool := operand.kind == .pcRel || operand.kind == .imm

/-- The operands are those of the row's form. -/
def Record.operandsMatch (record : Record) (operands : List Operand) : Bool :=
  let width := record.width
  match record.form, operands with
  | .aluRR, [a, b] => operandIsReg a width && operandIsReg b width
  | .aluRI, [a, b] => operandIsReg a width && operandIsImm b
  | .aluDst, [] => record.kind == .return_
  | .aluDst, [a] => record.kind != .return_ && operandIsReg a width
  | .loadMem, [a, b] => operandIsReg a 0 && operandIsMem b width
  | .storeMemReg, [a, b] => operandIsMem a width && operandIsReg b 0
  | .storeMemImm, [a, b] => operandIsMem a width && operandIsImm b
  | .branch, [a] => operandIsTarget a
  | .branchRR, [a, b, c] => operandIsTarget a && operandIsReg b width && operandIsReg c width
  | .branchRI, [a, b, c] => operandIsTarget a && operandIsReg b width && operandIsImm c
  | .callImm, [a] => operandIsImm a
  | .callReg, [a] => operandIsReg a 64
  | .ldImm64, [a, b] => operandIsReg a 64 && operandIsImm b
  | .loadAbs, [a] => operandIsAbsMem a width
  | .loadInd, [a] => operandIsReg a 64
  | _, _ => false

/-- `bpf_record_matches_mnemonic_operands`. -/
def Record.matchesInst (record : Record) (inst : Inst) : Bool :=
  record.mnemonicId == inst.mnemonicId && inst.mnemonicId != 0 && record.operandsMatch inst.operands

/-- `bpf_find_record_by_id`, and where it finds none `bpf_find_record_by_mnemonic`. -/
def findInstRecord (records : List Record) (engine : Engine) (inst : Inst) : Option Record :=
  records.find? (fun record => record.id == inst.id && engine.featuresMatch record.featureBits) <|>
  records.find? fun record => record.matchesInst inst && engine.featuresMatch record.featureBits

/-- `saw_feature_blocked_candidate`, where no row was found. -/
def blockedByFeature (records : List Record) (engine : Engine) (inst : Inst) : Bool :=
  records.any fun record => (record.id == inst.id || record.matchesInst inst) &&
    !engine.featuresMatch record.featureBits

/-! ## Words -/

/-- The fields of a word, and of the word behind a wide load. -/
structure Word where
  opcode : Byte
  regs : Byte := 0
  off : BitVec 16 := 0
  imm : BitVec 32 := 0
  high : BitVec 32 := 0
deriving DecidableEq, Repr

def Word.bytes (word : Word) (size : Nat) : List Byte :=
  ([word.opcode, word.regs] ++ store16le word.off ++ store32le word.imm ++ store32le 0 ++
    store32le word.high).take size

/-- The word of a row before its form is filled. -/
def Record.blank (record : Record) : Word where
  opcode := record.opcode
  off := if record.matchOff then record.fixedOff else 0
  imm := if record.matchImm then record.fixedImm else 0

/-- The registers of a word: the source in the upper half. -/
def regsByte (src dst : Nat) : Byte := BitVec.ofNat 8 src <<< 4 ||| BitVec.ofNat 8 dst

/-- The displacement of a branch from behind it. -/
def branchDisp (inst : Inst) (target : Operand) : BitVec 64 :=
  if target.kind = .pcRel ∧ (target.absTarget ≠ 0 ∨ target.imm = 0) then
    target.absTarget - (inst.address + 8)
  else target.imm

/-- `bpf_pack_branch`. What was stored before a failure stays. -/
def packBranch (inst : Inst) (word : Word) : Status × Word :=
  match inst.operands with
  | [] => (.encodeFailed, word)
  | target :: _ =>
    let disp := branchDisp inst target
    if disp &&& 7 ≠ 0 then (.encodeFailed, word)
    else if !i64FitsI16 (disp.sdiv 8) then (.branchOutOfRange, word)
    else (.ok, { word with off := (disp.sdiv 8).setWidth 16 })

/-- A word where a check holds. -/
def fill (check : Bool) (blank word : Word) : Status × Word :=
  if check then (.ok, word) else (.encodeFailed, blank)

/-- The word behind the branch field. -/
def thenFill (packed : Status × Word) (check : Bool) (word : Word → Word) : Status × Word :=
  if packed.1 ≠ .ok then packed else fill check packed.2 (word packed.2)

/-- The switch over the form. -/
def encodeForm (record : Record) (inst : Inst) : Status × Word :=
  let blank := record.blank
  match record.form, inst.operands with
  | .aluRR, a :: b :: _ =>
    fill (regOk a.reg && regOk b.reg) blank { blank with regs := regsByte b.reg a.reg }
  | .aluRI, a :: b :: _ =>
    fill (regOk a.reg && i64FitsI32 b.imm) blank
      { blank with regs := BitVec.ofNat 8 a.reg, imm := b.imm.setWidth 32 }
  | .aluDst, operands =>
    if record.kind = .return_ then (.ok, blank)
    else match operands with
      | a :: _ => fill (regOk a.reg) blank { blank with regs := BitVec.ofNat 8 a.reg }
      | [] => (.encodeFailed, blank)
  | .loadMem, a :: b :: _ =>
    fill (regOk a.reg && operandIsMem b record.width) blank
      { blank with regs := regsByte b.mem.base a.reg, off := b.mem.displacement.setWidth 16 }
  | .storeMemReg, a :: b :: _ =>
    fill (operandIsMem a record.width && regOk b.reg) blank
      { blank with regs := regsByte b.reg a.mem.base, off := a.mem.displacement.setWidth 16 }
  | .storeMemImm, a :: b :: _ =>
    fill (operandIsMem a record.width && i64FitsI32 b.imm) blank
      { blank with
        regs := BitVec.ofNat 8 a.mem.base, off := a.mem.displacement.setWidth 16
        imm := b.imm.setWidth 32 }
  | .branch, _ => packBranch inst blank
  | .branchRR, _ :: b :: c :: _ =>
    thenFill (packBranch inst blank) (regOk b.reg && regOk c.reg) fun word =>
      { word with regs := regsByte c.reg b.reg }
  | .branchRI, _ :: b :: c :: _ =>
    thenFill (packBranch inst blank) (regOk b.reg && i64FitsI32 c.imm) fun word =>
      { word with regs := BitVec.ofNat 8 b.reg, imm := c.imm.setWidth 32 }
  | .branchRR, _ | .branchRI, _ => thenFill (packBranch inst blank) false id
  | .callImm, a :: _ => fill (i64FitsI32 a.imm) blank { blank with imm := a.imm.setWidth 32 }
  | .callReg, a :: _ => fill (regOk a.reg) blank { blank with regs := BitVec.ofNat 8 a.reg }
  | .ldImm64, a :: b :: _ =>
    fill (regOk a.reg) blank
      { blank with
        regs := BitVec.ofNat 8 a.reg, imm := b.imm.setWidth 32, high := (b.imm >>> 32).setWidth 32 }
  | .loadAbs, a :: _ =>
    fill (operandIsAbsMem a record.width) blank
      { blank with imm := a.mem.displacement.setWidth 32 }
  | .loadInd, a :: _ => fill (regOk a.reg) blank { blank with regs := regsByte a.reg 0 }
  | _, _ => (.encodeFailed, blank)

/-! ## The encoder -/

/-- `asmkit_gen_bpf_encode_inst`. -/
def encodeInst (records : List Record) (engine : Engine) (inst : Inst) (capacity : Nat) : EncodeOut :=
  if inst.arch ≠ .bpf ∨ inst.mode ≠ engine.config.mode ∨ inst.mode ≠ .bpf64 then
    { status := .unsupportedInstruction }
  else match findInstRecord records engine inst with
    | none =>
      if blockedByFeature records engine inst then { status := .unsupportedFeature }
      else { status := .unsupportedInstruction }
    | some record =>
      if capacity < record.size then { status := .outputTooSmall, size := record.size }
      else
        let (status, word) := encodeForm record inst
        { status, size := record.size, code := word.bytes record.size }

end AsmKit.Bpf
