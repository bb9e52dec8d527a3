import AsmKit.X86.Operands

/-!
# The x86 decoder

`asmkit_gen_x86_decode_one`: the prefixes, the opcode and its map, then the forms without ModRM and
the forms with it. Branches, `nop`, `endbr` and a few fallbacks are decoded by hand, the rest by the
rows of the tables.
-/

namespace AsmKit.X86

def maxInstructionBytes : Nat := 15

/-! ## Prefixes -/

def isLegacyPrefix (b : Byte) : Bool :=
  b ∈ ([0xf0, 0xf2, 0xf3, 0x2e, 0x36, 0x3e, 0x26, 0x64, 0x65, 0x66, 0x67] : List Byte)

def isRexPrefix (mode : Mode) (b : Byte) : Bool := mode == .x86_64 && 0x40 ≤ b && b ≤ 0x4f

def PrefixState.init (mode : Mode) : PrefixState := { operand16 := mode == .x86_16 }

def PrefixState.legacy (mode : Mode) (p : PrefixState) (b : Byte) : PrefixState :=
  if b = 0x66 then { p with operand16 := mode != .x86_16, prefix66 := true, mandatoryPrefix := 0x66 }
  else if b = 0x67 then { p with address16 := true }
  else if b = 0xf0 then { p with prefixFlags := p.prefixFlags ||| InstFlag.x86Lock }
  else if b = 0xf2 then { p with prefixF2 := true, mandatoryPrefix := 0xf2 }
  else if b = 0xf3 then { p with prefixF3 := true, mandatoryPrefix := 0xf3 }
  else if b = 0x26 then { p with segmentReg := Reg.es }
  else if b = 0x2e then { p with segmentReg := Reg.cs }
  else if b = 0x36 then { p with segmentReg := Reg.ss }
  else if b = 0x3e then { p with segmentReg := Reg.ds }
  else if b = 0x64 then { p with segmentReg := Reg.fs }
  else { p with segmentReg := Reg.gs }

def bit8 (set : Bool) : Byte := if set then 8 else 0

/-- REX, or the payload of REX2. -/
def PrefixState.rex (p : PrefixState) (b : Byte) : PrefixState :=
  { p with
    rexSeen := true, rexW := b &&& 8 != 0
    rexR := bit8 (b &&& 4 != 0), rexX := bit8 (b &&& 2 != 0), rexB := bit8 (b &&& 1 != 0) }

/-- The prefixes from offset `i` on, and the offset behind them. -/
def scanPrefixes (mode : Mode) : List Byte → Nat → PrefixState → PrefixState × Nat
  | [], i, p => (p, i)
  | b :: rest, i, p =>
    if maxInstructionBytes ≤ i then (p, i)
    else if isLegacyPrefix b then scanPrefixes mode rest (i + 1) (p.legacy mode b)
    else if isRexPrefix mode b then scanPrefixes mode rest (i + 1) (p.rex b)
    else match rest with
      | rex2 :: rest' =>
        if mode = .x86_64 ∧ b = 0xd5 then scanPrefixes mode rest' (i + 2) (p.rex rex2) else (p, i)
      | [] => (p, i)

/-! ## Opcodes -/

/-- The prefixes with the opcode behind them; `next` is the offset behind the opcode. -/
structure Head where
  prefixes : PrefixState
  opcodeMap : Nat
  opcode : Byte
  next : Nat
deriving DecidableEq, Repr

def vexEvexMapId (selector : Byte) : Option Nat :=
  if 1 ≤ selector ∧ selector ≤ 3 then some selector.toNat
  else if 4 ≤ selector ∧ selector ≤ 7 then some (selector.toNat + 4)
  else none

def xopMapId (selector : Byte) : Option Nat :=
  if selector = 8 then some 4 else if selector = 9 then some 5
  else if selector = 10 then some 6 else none

/-- REX as the first payload byte of VEX, XOP and EVEX has it, inverted. -/
def PrefixState.vectorRex (p : PrefixState) (b : Byte) : PrefixState :=
  { p with
    rexSeen := true
    rexR := bit8 (b &&& 0x80 == 0), rexX := bit8 (b &&& 0x40 == 0), rexB := bit8 (b &&& 0x20 == 0) }

/-- The payload byte that VEX and XOP share. -/
def PrefixState.vector (p : PrefixState) (vectorType : VectorType) (b : Byte) : PrefixState :=
  { p with
    vectorType, vectorL := b &&& 4 != 0, vectorPp := b &&& 3, vectorVvvv := (~~~b >>> 3) &&& 0x0f }

/-- The `w` bit of VEX, XOP and EVEX. -/
def PrefixState.vectorWide (p : PrefixState) (b : Byte) : PrefixState :=
  { p with vectorW := b &&& 0x80 != 0, rexW := b &&& 0x80 != 0 }

def PrefixState.evex (p : PrefixState) (b1 b2 b3 : Byte) : PrefixState :=
  let p := ((p.vectorRex b1).vector .evex b2).vectorWide b2
  { p with
    vectorL := b3 &&& 0x20 != 0, vectorL2 := b3 &&& 0x40 != 0
    vectorVvvv := (if b3 &&& 8 = 0 then 0x10 else 0) ||| ((~~~b2 >>> 3) &&& 0x0f)
    evexAaa := b3 &&& 7, evexZ := b3 &&& 0x80 != 0, evexB := b3 &&& 0x10 != 0
    evexNf := b3 &&& 4 != 0, evexU := b2 &&& 4 == 0
    rexR := p.rexR ||| (if b1 &&& 0x10 = 0 then 16 else 0)
    evexRmHigh16 := if b1 &&& 0x40 = 0 then 16 else 0 }

/-- `62`, `c4` and `c5` are prefixes in 64-bit mode; elsewhere where no memory form is meant. -/
def isVectorPrefix (mode : Mode) (code : List Byte) (i : Nat) : Bool :=
  mode == .x86_64 || (i + 1 < code.length && code.getD (i + 1) 0 &&& 0xc0 == 0xc0)

def isXopPrefix (code : List Byte) (i : Nat) : Bool :=
  i + 1 < code.length && code.getD (i + 1) 0 &&& 0x38 != 0

/-- An opcode of the maps without a vector prefix. -/
def parseLegacyOpcode (code : List Byte) (p : PrefixState) (i : Nat) : Option Head :=
  let op := code.getD i 0
  if op ≠ 0x0f then some ⟨p, 0, op, i + 1⟩
  else if code.length ≤ i + 1 then none
  else
    let opcode := code.getD (i + 1) 0
    if opcode ≠ 0x38 ∧ opcode ≠ 0x3a then some ⟨p, 1, opcode, i + 2⟩
    else if code.length ≤ i + 2 then none
    else some ⟨p, if opcode = 0x38 then 2 else 3, code.getD (i + 2) 0, i + 3⟩

/-- The opcode at offset `i`. -/
def parseOpcode (mode : Mode) (code : List Byte) (p : PrefixState) (i : Nat) : Option Head :=
  let op := code.getD i 0
  let b1 := code.getD (i + 1) 0
  let b2 := code.getD (i + 2) 0
  if op = 0x62 ∧ isVectorPrefix mode code i then
    if code.length ≤ i + 4 then none
    else (vexEvexMapId (b1 &&& 7)).map fun map =>
      ⟨p.evex b1 b2 (code.getD (i + 3) 0), map, code.getD (i + 4) 0, i + 5⟩
  else if op = 0xc4 ∧ isVectorPrefix mode code i then
    if code.length ≤ i + 3 then none
    else (vexEvexMapId (b1 &&& 0x1f)).map fun map =>
      ⟨((p.vectorRex b1).vector .vex b2).vectorWide b2, map, code.getD (i + 3) 0, i + 4⟩
  else if op = 0xc5 ∧ isVectorPrefix mode code i then
    if code.length ≤ i + 2 then none
    else some ⟨{ p.vector .vex b1 with rexSeen := true, rexR := bit8 (b1 &&& 0x80 == 0) }, 1, b2, i + 3⟩
  else if op = 0x8f ∧ isXopPrefix code i then
    if code.length ≤ i + 3 then none
    else (xopMapId (b1 &&& 0x1f)).map fun map =>
      ⟨((p.vectorRex b1).vector .xop b2).vectorWide b2, map, code.getD (i + 3) 0, i + 4⟩
  else parseLegacyOpcode code p i

/-- A repeat prefix on an instruction that takes one is a flag of it. -/
def Head.markRep (h : Head) : Head :=
  let p := h.prefixes
  if acceptsRedundantRepPrefix h.opcodeMap h.opcode then
    { h with prefixes := { p with
      prefixFlags := p.prefixFlags |||
        if p.prefixF2 then InstFlag.x86Repne else if p.prefixF3 then InstFlag.x86Rep else 0 } }
  else h

@[simp] theorem Head.markRep_opcodeMap (h : Head) : h.markRep.opcodeMap = h.opcodeMap := by
  unfold markRep
  split <;> rfl

@[simp] theorem Head.markRep_opcode (h : Head) : h.markRep.opcode = h.opcode := by
  unfold markRep
  split <;> rfl

@[simp] theorem Head.markRep_next (h : Head) : h.markRep.next = h.next := by
  unfold markRep
  split <;> rfl

@[simp] theorem Head.markRep_operand16 (h : Head) :
    h.markRep.prefixes.operand16 = h.prefixes.operand16 := by
  unfold markRep
  split <;> rfl

@[simp] theorem Head.markRep_vectorType (h : Head) :
    h.markRep.prefixes.vectorType = h.prefixes.vectorType := by
  unfold markRep
  split <;> rfl

/-- Prefixes and opcode of the instruction at the start of the code. -/
def parseHead (mode : Mode) (code : List Byte) : Option Head :=
  let (p, i) := scanPrefixes mode code 0 (.init mode)
  if code.length ≤ i ∨ maxInstructionBytes ≤ i then none
  else (parseOpcode mode code p i).map Head.markRep

def Head.isLegacy (h : Head) : Bool := h.prefixes.vectorType == .normal

def hasModrm1 (op : Byte) : Bool :=
  op ≤ 0x3f || op ∈ ([0x62, 0x63, 0x69, 0x6b, 0xc0, 0xc1, 0xf6, 0xf7] : List Byte) ||
    (0x80 ≤ op && op ≤ 0x8f) || (0xc4 ≤ op && op ≤ 0xc7) || (0xd0 ≤ op && op ≤ 0xd3) ||
    (0xd8 ≤ op && op ≤ 0xdf) || 0xfe ≤ op

def hasModrm0f (op : Byte) : Bool :=
  !((0x80 ≤ op && op ≤ 0x8f) ||
    op ∈ ([0x05, 0x07, 0x0b, 0x0e, 0x31, 0x32, 0x33, 0x34, 0x35, 0x77, 0xa0, 0xa1, 0xa2, 0xa8, 0xa9]
      : List Byte))

/-- `x86_generic_opcode_has_modrm`. -/
def Head.hasModrm (h : Head) : Bool :=
  !h.isLegacy || match h.opcodeMap with
    | 0 => hasModrm1 h.opcode
    | 1 => hasModrm0f h.opcode
    | _ => true

/-! ## Finishing -/

namespace Id

def other : Nat := 1
def nop : Nat := 2
def endbr : Nat := 3
def jmpRel : Nat := 5
def callRel : Nat := 6
def jccRel : Nat := 7
def loopRel : Nat := 8
def ripRel : Nat := 11

end Id

variable (engine : Engine)

/-- `x86_finish` and `x86_finish_td`; none when the instruction is too long. -/
def finish (code : List Byte) (address : BitVec 64) (size id mnemonicId : Nat)
    (instClass : InstClass) (flags : BitVec 32) : Option Inst :=
  if size = 0 ∨ maxInstructionBytes < size ∨ code.length < size then none
  else some
    { arch := .x86, mode := engine.config.mode, id, mnemonicId, instClass, address, size
      bytes := code.take size, flags }

/-- `x86_add_pc_operand`. -/
def pcOperand (immPtr : List Byte) (immSize : Nat) (address : BitVec 64) (len : Nat) : Operand :=
  let imm := readSigned immPtr immSize
  { kind := .pcRel, imm, absTarget := address + BitVec.ofNat 64 len + imm, width := immSize * 8
    flags := OperandFlag.explicit ||| OperandFlag.read ||| OperandFlag.relative ||| OperandFlag.signed }

/-! ## Forms without ModRM -/

def operandImmSize (operand16 : Bool) : Nat := if operand16 then 2 else 4

def nearBranchImmSize (mode : Mode) (operand16 : Bool) : Nat :=
  if mode = .x86_64 then 4 else operandImmSize operand16

def isShortJcc (opcode : Byte) : Bool := 0x70 ≤ opcode && opcode ≤ 0x7f
def isNearJcc (opcode : Byte) : Bool := 0x80 ≤ opcode && opcode ≤ 0x8f
def isLoop (opcode : Byte) : Bool := 0xe0 ≤ opcode && opcode ≤ 0xe2

def isRelBranch (opcode : Byte) : Bool :=
  opcode == 0xe8 || opcode == 0xe9 || opcode == 0xeb || isShortJcc opcode || isLoop opcode

/-- Id, mnemonic, class and flags of a relative branch. -/
structure RelBranch where
  id : Nat
  mnemonicId : Nat
  instClass : InstClass
  flags : BitVec 32

def relBranch (opcodeMap : Nat) (opcode : Byte) : RelBranch :=
  let flags := InstFlag.pcRelative ||| InstFlag.direct
  if opcodeMap = 0 ∧ opcode = 0xe8 then
    ⟨Id.callRel, Mnemonic.call, .directCall, flags ||| InstFlag.call⟩
  else if opcodeMap = 1 ∨ isShortJcc opcode then
    ⟨Id.jccRel, jccMnemonicId opcode, .condBranch, flags ||| InstFlag.conditional⟩
  else if isLoop opcode then
    ⟨Id.loopRel, loopMnemonicId opcode, .condBranch, flags ||| InstFlag.conditional⟩
  else ⟨Id.jmpRel, Mnemonic.jmp, .directBranch, flags ||| InstFlag.terminator⟩

/-- A relative branch. One that is too long keeps the record of `prior`, all but the operand, and
the mnemonic of a conditional one. -/
def decodeRelBranch (code : List Byte) (address : BitVec 64) (prior : Inst) (h : Head) (immSize : Nat) :
    Except Status Inst :=
  let len := h.next + immSize
  if code.length < len then .error .decodeFailed
  else
    let b := relBranch h.opcodeMap h.opcode
    let inst := (finish engine code address len b.id b.mnemonicId b.instClass
      (b.flags ||| h.prefixes.prefixFlags)).getD
        (if b.instClass = .condBranch then { prior with mnemonicId := b.mnemonicId } else prior)
    .ok { inst with operands := [pcOperand (code.drop h.next) immSize address len] }

def relBranchImmSize (mode : Mode) (h : Head) : Nat :=
  if h.opcodeMap = 0 ∧ (h.opcode = 0xeb ∨ isShortJcc h.opcode ∨ isLoop h.opcode) then 1
  else nearBranchImmSize mode h.prefixes.operand16

/-- The row of an instruction without ModRM. -/
def decodeTdNoModrm (code : List Byte) (address : BitVec 64) (prior : Inst) (h : Head)
    (record : Record) : Except Status Inst :=
  let len := h.next + record.immSize + record.extraImmSize
  if code.length < len ∨ maxInstructionBytes < len then .error .decodeFailed
  else
    let immPtr := code.drop h.next
    let inst := (finish engine code address len record.id record.mnemonicId record.instClass
      (record.flags ||| h.prefixes.prefixFlags)).getD prior
    let inst := populateTdOperands engine
      { record, prefixes := h.prefixes, opcode := h.opcode, modrm := { next := h.next }
        displacement := 0, immPtr, address, len } inst
    .ok (if record.immPcRel then
      { inst with
        flags := inst.flags ||| InstFlag.pcRelative
        operands :=
          if inst.operands.isEmpty then [pcOperand immPtr record.immSize address len]
          else inst.operands }
      else inst)

def isOut (opcode : Byte) : Bool := opcode ∈ ([0xe6, 0xe7, 0xee, 0xef] : List Byte)
def isIoImm (opcode : Byte) : Bool := 0xe4 ≤ opcode && opcode ≤ 0xe7
def isIo (opcode : Byte) : Bool := isIoImm opcode || (0xec ≤ opcode && opcode ≤ 0xef)

/-- `in` and `out`. -/
def decodeIo (code : List Byte) (address : BitVec 64) (prior : Inst) (h : Head) : Except Status Inst :=
  let immSize := if isIoImm h.opcode then 1 else 0
  let len := h.next + immSize
  if code.length < len then .error .decodeFailed
  else
    let isOut := isOut h.opcode
    let accWidth :=
      if h.opcode &&& 1 = 0 then 8 else if h.prefixes.operand16 then 16 else 32
    let port :=
      if isIoImm h.opcode then Operand.ofImm ((code.getD h.next 0).setWidth 64) 8
      else Operand.ofReg Reg.dx 16
    let acc := Operand.ofReg (accumulatorRegister accWidth) accWidth
    let inst := (finish engine code address len Id.other Mnemonic.other
      (if isOut then .store else .load) h.prefixes.prefixFlags).getD prior
    .ok { inst with
      mnemonicId := if isOut then Mnemonic.out else Mnemonic.in_
      operands := if isOut then [port, acc.atIndex 1] else [acc, port.atIndex 1] }

/-- The immediate of an opcode without a row and without ModRM. -/
def otherImmSize (mode : Mode) (h : Head) : Nat :=
  if h.opcodeMap ≠ 0 then 0
  else if 0xb8 ≤ h.opcode ∧ h.opcode ≤ 0xbf then
    if mode = .x86_64 ∧ h.prefixes.rexSeen ∧ h.prefixes.rexW then 8
    else operandImmSize h.prefixes.operand16
  else if h.opcode = 0x68 then operandImmSize h.prefixes.operand16
  else if h.opcode = 0x6a ∨ h.opcode = 0xcd ∨ isIoImm h.opcode then 1
  else 0

def decodeOther (code : List Byte) (address : BitVec 64) (h : Head) : Except Status Inst :=
  let len := h.next + otherImmSize engine.config.mode h
  if code.length < len then .error .decodeFailed
  else match finish engine code address len Id.other Mnemonic.other .other h.prefixes.prefixFlags with
    | some inst => .ok inst
    | none => .error .decodeFailed

/-! ## Forms with ModRM -/

/-- The immediate of an opcode with ModRM but without a row. -/
def modrmImmSize (h : Head) (m : Modrm) : Nat :=
  let wide := operandImmSize h.prefixes.operand16
  let op := h.opcode
  if ¬ h.isLegacy ∧ (h.opcodeMap = 3 ∨ op = 0xc2 ∨ (0x70 ≤ op ∧ op ≤ 0x73)) then 1
  else if h.opcodeMap = 0 then
    if op ∈ ([0x80, 0x82, 0x83, 0xc0, 0xc1, 0x6b, 0xc6] : List Byte) then 1
    else if op ∈ ([0x81, 0x69, 0xc7] : List Byte) then wide
    else if op = 0xf6 ∧ (m.reg = 0 ∨ m.reg = 1) then 1
    else if op = 0xf7 ∧ (m.reg = 0 ∨ m.reg = 1) then wide
    else 0
  else if h.opcodeMap = 1 then
    if op ∈ ([0xba, 0xa4, 0xac] : List Byte) ∨ (h.isLegacy ∧ op = 0x0f) then 1 else 0
  else 0

/-- An instruction with ModRM, read up to its end. -/
structure ModrmForm where
  head : Head
  modrm : Modrm
  len : Nat
  immSize : Nat
  displacement : BitVec 32

/-- Opcode, flags and operands of an instruction that only the fallbacks know. -/
def fallbackRecord (operands : List RecordOperand) : Record :=
  { id := 0, mnemonicId := 0, opcode := 0, opcodeMap := 0, modrmKind := .none, instClass := .other
    decodeForm := .raw, operands }

def fallbackEncoding (address : BitVec 64) (f : ModrmForm) (operands : List RecordOperand) : Encoding :=
  { record := fallbackRecord operands, prefixes := f.head.prefixes, opcode := f.head.opcode
    modrm := f.modrm, displacement := f.displacement, immPtr := [], address, len := f.len }

def emptyOperands (count : Nat) : List Operand := (List.range count).map Operand.empty.atIndex

/-- `movsxd` without `rex.w`. -/
def decodeMovsxd (code : List Byte) (address : BitVec 64) (prior : Inst) (f : ModrmForm) : Inst :=
  let p := f.head.prefixes
  let dstWidth := if p.prefix66 then 16 else 32
  let dst := Operand.ofReg (gprFromEncoding (f.modrm.reg ||| p.rexR) dstWidth true) dstWidth
  let e := fallbackEncoding address f
    [{ kind := .reg, regClass := .gpr, width := dstWidth }, { kind := .mem, regClass := .gpr, width := 32 }]
  let inst := (finish engine code address f.len Id.other Mnemonic.other .alu p.prefixFlags).getD prior
  { inst with
    mnemonicId := Mnemonic.movsxd
    operands := setRm engine e [dst, Operand.empty.atIndex 1] 1 0 }

/-- `cmovcc` without a row. -/
def decodeCmovcc (code : List Byte) (address : BitVec 64) (prior : Inst) (f : ModrmForm) : Inst :=
  let p := f.head.prefixes
  let width :=
    if p.prefix66 then 16 else if engine.config.mode = .x86_64 ∧ p.rexW then 64 else 32
  let e := fallbackEncoding address f
    [{ kind := .reg, regClass := .gpr, width }, { kind := .mem, regClass := .gpr, width }]
  let inst := (finish engine code address f.len Id.other Mnemonic.other .alu
    (InstFlag.conditional ||| p.prefixFlags)).getD prior
  let ops := setReg (emptyOperands 2) 0
    (gprFromEncoding (f.modrm.reg ||| p.rexR) width p.rexSeen) width
  { inst with
    mnemonicId := cmovccMnemonicId f.head.opcode
    operands := setRm engine e ops 1 0 }

/-- `setcc` without a row. -/
def decodeSetcc (code : List Byte) (address : BitVec 64) (prior : Inst) (f : ModrmForm) : Inst :=
  let e := fallbackEncoding address f [{ kind := .mem, regClass := .gpr, width := 8 }]
  let inst := (finish engine code address f.len Id.other Mnemonic.other .store
    f.head.prefixes.prefixFlags).getD prior
  { inst with
    mnemonicId := setccMnemonicId f.head.opcode
    operands := setRm engine e (emptyOperands 1) 0 0 }

/-- An instruction that nothing above knows. -/
def decodeUnknown (code : List Byte) (address : BitVec 64) (prior : Inst) (f : ModrmForm) : Inst :=
  let flags := f.head.prefixes.prefixFlags
  if f.modrm.pcRelative then
    let inst := (finish engine code address f.len Id.ripRel Mnemonic.mov .other
      (InstFlag.pcRelative ||| flags)).getD prior
    let dispOff := if f.immSize + 4 ≤ f.len then f.len - f.immSize - 4 else 0
    { inst with operands := [pcOperand (code.drop dispOff) 4 address f.len] }
  else (finish engine code address f.len Id.other Mnemonic.other .other flags).getD prior

/-- `x86_apply_sse_cmp_alias`. -/
def applySseCmpAlias (inst : Inst) (record : Record) : Inst :=
  match inst.operands.getLast? with
  | some o =>
    if o.kind = .imm then
      match sseCmpMnemonicId record.id (o.imm.setWidth 8) with
      | some mnemonicId => { inst with mnemonicId }
      | none => inst
    else inst
  | none => inst

def tdEncoding (code : List Byte) (address : BitVec 64) (f : ModrmForm) (record : Record) : Encoding :=
  { record, prefixes := f.head.prefixes, opcode := f.head.opcode, modrm := f.modrm
    displacement := f.displacement, immPtr := code.drop (f.len - f.immSize), address, len := f.len }

/-- `ff /2` and `ff /4`. -/
def isIndirectForm (f : ModrmForm) : Bool :=
  f.head.opcodeMap == 0 && f.head.opcode == 0xff && (f.modrm.reg == 2 || f.modrm.reg == 4)

/-- The row of an instruction with ModRM. -/
def decodeTdModrm (code : List Byte) (address : BitVec 64) (prior : Inst) (f : ModrmForm)
    (record : Record) : Inst :=
  let inst := (finish engine code address f.len record.id record.mnemonicId record.instClass
    (record.flags ||| f.head.prefixes.prefixFlags)).getD prior
  let inst := populateTdOperands engine (tdEncoding code address f record) inst
  let inst :=
    if f.head.opcodeMap = 1 ∧ f.head.opcode = 0xc2 then applySseCmpAlias inst record else inst
  let inst :=
    if isIndirectForm f then { inst with flags := inst.flags ||| InstFlag.unsupportedReloc } else inst
  if f.modrm.pcRelative then
    { inst with
      flags := inst.flags ||| InstFlag.pcRelative
      operands :=
        if inst.operands.isEmpty then [pcOperand (code.drop f.modrm.dispOffset) 4 address f.len]
        else inst.operands }
  else inst

/-- The fallbacks for an instruction with ModRM that has no row. -/
def decodeModrmFallback (code : List Byte) (address : BitVec 64) (prior : Inst) (f : ModrmForm) : Inst :=
  let h := f.head
  if h.isLegacy ∧ h.opcodeMap = 0 ∧ h.opcode = 0x63 ∧ engine.config.mode = .x86_64 ∧
      ¬ h.prefixes.rexW then
    decodeMovsxd engine code address prior f
  else if h.isLegacy ∧ h.opcodeMap = 1 ∧ 0x40 ≤ h.opcode ∧ h.opcode ≤ 0x4f then
    decodeCmovcc engine code address prior f
  else if h.isLegacy ∧ h.opcodeMap = 1 ∧ 0x90 ≤ h.opcode ∧ h.opcode ≤ 0x9f then
    decodeSetcc engine code address prior f
  else decodeUnknown engine code address prior f

/-- `0f 0f`, whose opcode lies behind the displacement. -/
def Head.is3DNow (h : Head) : Bool := h.isLegacy && h.opcodeMap == 1 && h.opcode == 0x0f

/-- The displacement, scaled where EVEX compresses it. -/
def modrmDisplacement (code : List Byte) (h : Head) (m : Modrm) (record : Option Record) : BitVec 32 :=
  let displacement := readDisplacement (code.drop m.dispOffset) m.dispSize
  match record with
  | some record =>
    if h.prefixes.vectorType = .evex ∧ m.dispSize = 1 ∧ m.mod ≠ 3 then
      evexScaledDisplacement record displacement
    else displacement
  | none => displacement

variable (tables : Tables)

/-- The instructions with ModRM, once it is parsed. -/
def decodeWithModrm (code : List Byte) (address : BitVec 64) (prior : Inst) (h : Head) (m : Modrm) :
    Except Status Inst :=
  if h.is3DNow ∧ code.length ≤ m.next then .error .decodeFailed
  else
    let query : Query :=
      { opcodeMap := if h.is3DNow then 7 else h.opcodeMap
        opcode := if h.is3DNow then code.getD m.next 0 else h.opcode
        prefixes := h.prefixes
        addressWidth := decodeAddressWidth engine h.prefixes.address16
        modrm := some m.byte }
    match lookupTdRecord tables engine query with
    | .error status => .error status
    | .ok record =>
      let immSize :=
        match record with
        | some record => (if h.is3DNow then 1 else 0) + record.immSize + record.extraImmSize
        | none => modrmImmSize h m
      let len := m.next + immSize
      if code.length < len ∨ maxInstructionBytes < len then .error .decodeFailed
      else
        let form : ModrmForm :=
          { head := h, modrm := m, len, immSize
            displacement := modrmDisplacement code h m record }
        match record with
        | some record => .ok (decodeTdModrm engine code address prior form record)
        | none => .ok (decodeModrmFallback engine code address prior form)

def decodeModrm (code : List Byte) (address : BitVec 64) (prior : Inst) (h : Head) : Except Status Inst :=
  match parseModrm engine.config.mode (decodeAddressWidth engine h.prefixes.address16) code h.next with
  | none => .error .decodeFailed
  | some m => decodeWithModrm engine tables code address prior h m

/-! ## The decoder -/

/-- The row without ModRM, searched only where its bucket has rows. -/
def lookupNoModrm (h : Head) : Except Status (Option Record) :=
  let query : Query :=
    { opcodeMap := h.opcodeMap, opcode := h.opcode, prefixes := h.prefixes
      addressWidth := decodeAddressWidth engine h.prefixes.address16, modrm := none }
  let index := tdBucketIndex h.opcodeMap h.opcode (modeBucketIndex engine.config.mode) 0
  if (tables.rows index).isEmpty then .ok none else lookupTdRecord tables engine query

/-- No ModRM follows an opcode that is neither known to have one nor has a row with one. -/
def endsWithoutModrm (h : Head) : Bool :=
  !h.is3DNow &&
    !(h.isLegacy && h.opcodeMap == 0 && h.opcode == 0x63 && engine.config.mode == .x86_64) &&
    !h.hasModrm &&
    !opcodeMayHaveModrm tables engine
      { opcodeMap := h.opcodeMap, opcode := h.opcode, prefixes := h.prefixes
        addressWidth := decodeAddressWidth engine h.prefixes.address16, modrm := none }

/-- What the decoder does once it knows that no hand-written form applies. -/
def decodeTd (code : List Byte) (address : BitVec 64) (prior : Inst) (h : Head) : Except Status Inst :=
  match lookupNoModrm engine tables h with
  | .error status => .error status
  | .ok record =>
    match record.filter (·.modrmKind = .none) with
    | some record => decodeTdNoModrm engine code address prior h record
    | none =>
      if record.isNone ∧ ¬ h.isLegacy ∧ h.opcodeMap = 1 ∧ isNearJcc h.opcode then
        decodeRelBranch engine code address prior h
          (nearBranchImmSize engine.config.mode h.prefixes.operand16)
      else if record.isNone ∧ h.isLegacy ∧ h.opcodeMap = 0 ∧ isIo h.opcode then
        decodeIo engine code address prior h
      else if endsWithoutModrm engine tables h then decodeOther engine code address h
      else decodeModrm engine tables code address prior h

/-- `endbr32` and `endbr64`. -/
def isEndbr (code : List Byte) (h : Head) : Bool :=
  h.isLegacy && h.prefixes.prefixF3 && h.opcodeMap == 1 && h.opcode == 0x1e &&
    h.next < code.length && (code.getD h.next 0 == 0xfa || code.getD h.next 0 == 0xfb)

def isNop (h : Head) : Bool :=
  h.isLegacy && h.opcodeMap == 0 && h.opcode == 0x90 && !h.prefixes.prefixF2 && !h.prefixes.prefixF3

/-- A relative branch of the first two maps. -/
def Head.isRel (h : Head) : Bool :=
  h.isLegacy && ((h.opcodeMap == 0 && isRelBranch h.opcode) || (h.opcodeMap == 1 && isNearJcc h.opcode))

def decodeHead (code : List Byte) (address : BitVec 64) (prior : Inst) (h : Head) : Except Status Inst :=
  let flags := h.prefixes.prefixFlags
  let finished (inst : Option Inst) : Except Status Inst :=
    match inst with
    | some inst => .ok inst
    | none => .error .decodeFailed
  if isEndbr code h then
    finished (finish engine code address (h.next + 1) Id.endbr
      (if code.getD h.next 0 = 0xfa then Mnemonic.endbr64 else Mnemonic.endbr32) .cetEndbr flags)
  else if isNop h then finished (finish engine code address h.next Id.nop Mnemonic.nop .nop flags)
  else if h.isRel then
    decodeRelBranch engine code address prior h (relBranchImmSize engine.config.mode h)
  else decodeTd engine tables code address prior h

/-- `asmkit_gen_x86_decode_one`. `prior` is what the record held before. -/
def decodeOne (code : List Byte) (address : BitVec 64) (prior : Inst) : Except Status Inst :=
  let mode := engine.config.mode
  if code = [] then .error .invalidArgument
  else if mode ≠ .x86_16 ∧ mode ≠ .x86_32 ∧ mode ≠ .x86_64 then .error .unsupportedMode
  else match parseHead mode code with
    | none => .error .decodeFailed
    | some h => decodeHead engine tables code address prior h

end AsmKit.X86
