import AsmKit.X86.Record

/-!
# Operands of x86

The layout of ModRM, SIB and displacement, and the operands a row gives an instruction. An operand
list starts out with the kinds and widths of the row, and every part of the encoding fills in the
operand the row names for it.
-/

namespace AsmKit.X86

/-! ## Mnemonics -/

namespace Mnemonic

def base : Nat := 0x01000000
def other : Nat := base + 1
def call : Nat := base + 65
def endbr32 : Nat := base + 193
def endbr64 : Nat := base + 194
def in_ : Nat := base + 307
def jmp : Nat := base + 340
def loop : Nat := base + 424
def loope : Nat := base + 425
def loopne : Nat := base + 426
def mov : Nat := base + 447
def movsxd : Nat := base + 485
def nop : Nat := base + 499
def out : Nat := base + 504
def ret : Nat := base + 703

/-- By condition: `o`, `no`, `b`, `ae`, `e`, `ne`, `be`, `a`, `s`, `ns`, `p`, `np`, `l`, `ge`,
`le`, `g`. -/
def jcc : List Nat :=
  [346, 343, 331, 330, 334, 342, 332, 329, 349, 345, 347, 344, 338, 337, 339, 336]
def cmovcc : List Nat := [99, 96, 88, 87, 90, 95, 89, 86, 101, 98, 100, 97, 93, 92, 94, 91]
def setcc : List Nat :=
  [749, 746, 738, 737, 740, 745, 739, 736, 751, 748, 750, 747, 743, 742, 744, 741]

/-- By predicate: `eq`, `lt`, `le`, `unord`, `neq`, `nlt`, `nle`, `ord`. The forms `pd`, `ps`,
`sd`, `ss` follow each other. -/
def sseCmp : List Nat := [103, 111, 107, 138, 115, 123, 119, 127]

end Mnemonic

def ofCondition (mnemonics : List Nat) (condition : Byte) : Nat :=
  Mnemonic.base + mnemonics.getD (condition &&& 0x0f).toNat 1

def jccMnemonicId : Byte → Nat := ofCondition Mnemonic.jcc
def cmovccMnemonicId : Byte → Nat := ofCondition Mnemonic.cmovcc
def setccMnemonicId : Byte → Nat := ofCondition Mnemonic.setcc

def loopMnemonicId (opcode : Byte) : Nat :=
  if opcode = 0xe0 then Mnemonic.loopne else if opcode = 0xe1 then Mnemonic.loope else Mnemonic.loop

/-- The rows of `cmppd`, `cmpps`, `cmpsd` and `cmpss`. -/
def sseCmpForm (id : Nat) : Option Nat :=
  [(66351, 0), (66352, 0), (66353, 1), (66354, 1), (66356, 2), (66357, 2), (66360, 3),
    (66361, 3)].lookup id

def sseCmpMnemonicId (id : Nat) (predicate : Byte) : Option Nat :=
  (sseCmpForm id).map fun form => Mnemonic.base + Mnemonic.sseCmp.getD (predicate &&& 7).toNat 0 + form

/-! ## Reading numbers -/

/-- `x86_read_signed`. -/
def readSigned (p : List Byte) (n : Nat) : BitVec 64 :=
  if n = 1 then (p.getD 0 0).signExtend 64
  else if n = 2 then (load16le p).signExtend 64
  else (load32le p).signExtend 64

/-- `x86_read_integer`. -/
def readInteger (p : List Byte) (n : Nat) (isSigned : Bool) : BitVec 64 :=
  let extend {w : Nat} (v : BitVec w) := if isSigned then v.signExtend 64 else v.setWidth 64
  match n with
  | 1 => extend (p.getD 0 0)
  | 2 => extend (load16le p)
  | 4 => extend (load32le p)
  | 8 => load64le p
  | _ => 0

/-- `x86_read_displacement`. -/
def readDisplacement (p : List Byte) (n : Nat) : BitVec 32 :=
  match n with
  | 1 => (p.getD 0 0).signExtend 32
  | 2 => (load16le p).signExtend 32
  | 4 => load32le p
  | _ => 0

/-- The sizes of a displacement. -/
def IsDispSize (n : Nat) : Prop := n = 1 ∨ n = 2 ∨ n = 4

theorem readInteger_signed {n : Nat} (hn : IsDispSize n) (p : List Byte) :
    readInteger p n true = readSigned p n := by
  rcases hn with rfl | rfl | rfl <;> rfl

theorem readSigned_eq {n : Nat} (hn : IsDispSize n) (p : List Byte) :
    readSigned p n = (LittleEndian.wordOf (8 * n) (p.take n)).signExtend 64 := by
  rcases hn with rfl | rfl | rfl
  · cases p <;> simp [readSigned, LittleEndian.wordOf]
  · rw [readSigned, if_neg (by omega), if_pos rfl, load16le_eq]
  · rw [readSigned, if_neg (by omega), if_neg (by omega), load32le_eq]

/-! ## ModRM -/

/-- ModRM with what follows it; `next` is the offset behind the displacement. -/
structure Modrm where
  byte : Byte := 0
  hasSib : Bool := false
  sib : Byte := 0
  noBase : Bool := false
  dispSize : Nat := 0
  dispOffset : Nat := 0
  pcRelative : Bool := false
  next : Nat
deriving DecidableEq, Repr

def Modrm.mod (m : Modrm) : Byte := m.byte >>> 6
def Modrm.reg (m : Modrm) : Byte := (m.byte >>> 3) &&& 7
def Modrm.rm (m : Modrm) : Byte := m.byte &&& 7

def Modrm.withDisp (m : Modrm) (size : Nat) : Modrm :=
  { m with dispOffset := m.next, dispSize := size, next := m.next + size }

/-- ModRM at `i`, with 16-bit addresses. -/
def parseModrm16 (m : Modrm) : Modrm :=
  if m.mod = 0 ∧ m.rm = 6 then { m.withDisp 2 with noBase := true }
  else if m.mod = 1 then m.withDisp 1
  else if m.mod = 2 then m.withDisp 2
  else m

/-- A displacement of `mod` 1 and 2, with 32-bit and 64-bit addresses. -/
def modDisp (m : Modrm) : Modrm :=
  if m.mod = 1 then m.withDisp 1 else if m.mod = 2 then m.withDisp 4 else m

/-- The byte at `i` is ModRM. The displacement is not read yet and may lie outside the code. -/
def parseModrm (mode : Mode) (addressWidth : Nat) (code : List Byte) (i : Nat) : Option Modrm :=
  if code.length ≤ i then none
  else
    let m : Modrm := { byte := code.getD i 0, next := i + 1 }
    if addressWidth = 16 then some (parseModrm16 m)
    else if m.rm = 4 ∧ m.mod ≠ 3 then
      if code.length ≤ i + 1 then none
      else
        let m := { m with hasSib := true, sib := code.getD (i + 1) 0, next := i + 2 }
        some (modDisp (if m.mod = 0 ∧ m.sib &&& 7 = 5 then { m.withDisp 4 with noBase := true } else m))
    else if m.mod = 0 ∧ m.rm = 5 then
      some { m.withDisp 4 with
        noBase := true, pcRelative := mode == .x86_64 && addressWidth == 64 }
    else some (modDisp m)

/-- `x86_decode_16_base_index`. -/
def decode16BaseIndex (mod rm : Byte) : Nat × Nat :=
  match (rm &&& 7).toNat with
  | 0 => (Reg.bx, Reg.si)
  | 1 => (Reg.bx, Reg.di)
  | 2 => (Reg.bp, Reg.si)
  | 3 => (Reg.bp, Reg.di)
  | 4 => (Reg.si, Reg.invalid)
  | 5 => (Reg.di, Reg.invalid)
  | 6 => (if mod = 0 then Reg.invalid else Reg.bp, Reg.invalid)
  | _ => (Reg.bx, Reg.invalid)

/-- The memory operand of ModRM. -/
def memoryOperand (addressWidth : Nat) (m : Modrm) (p : PrefixState) (displacement : BitVec 32) :
    MemoryOperand :=
  let gpr (encoding : Byte) := gprFromEncoding encoding addressWidth true
  let indexed : Bool := (m.sib >>> 3) &&& 7 != 4 || p.rexX != 0
  let (base, index, scale) : Nat × Nat × Byte :=
    if addressWidth = 16 then
      let (base, index) := decode16BaseIndex m.mod m.rm
      (base, index, 1)
    else if m.hasSib then
      (if m.noBase then Reg.invalid else gpr ((m.sib &&& 7) ||| p.rexB),
        if indexed then gpr (((m.sib >>> 3) &&& 7) ||| p.rexX) else Reg.invalid,
        if indexed then 1 <<< (m.sib >>> 6).toNat else 1)
    else if m.pcRelative then (Reg.rip, Reg.invalid, 1)
    else (if m.noBase then Reg.invalid else gpr (m.rm ||| p.rexB), Reg.invalid, 1)
  { base, index, scale, addressWidth, segment := p.segmentReg
    displacement := displacement.signExtend 64 }

/-! ## Filling in operands -/

def registerOperandContainerWidth (width : Nat) (regClass : RegClass) (kind : OperandKind) : Nat :=
  if kind ≠ .reg then width
  else match regClass with
    | .xmm => max width 128
    | .ymm => max width 256
    | .zmm => max width 512
    | .mmx => max width 64
    | _ => width

/-- `x86_decode_set_reg_operand`. -/
def setReg (ops : List Operand) (index reg width : Nat) : List Operand :=
  if reg = Reg.invalid then ops
  else ops.modify index fun o => { o with kind := .reg, reg, width }

/-- `x86_decode_set_encoded_operand`. -/
def setEncoded (engine : Engine) (ops : List Operand) (index : Nat) (encoding : Byte)
    (operand : RecordOperand) (rexSeen : Bool) : List Operand :=
  let mode := engine.config.mode
  if operand.kind = .opaque_ ∧ operand.regClass = .tile then
    if 7 < encoding then ops
    else ops.modify index fun o =>
      { o with kind := .opaque_, imm := encoding.setWidth 64, width := operand.width }
  else
    let width := if operand.regClass = .segment ∧ operand.width = 0 then 16 else operand.width
    let width :=
      if (operand.regClass = .none ∨ operand.regClass = .gpr) ∧ width = 64 ∧ mode ≠ .x86_64 then
        if mode = .x86_16 then 16 else 32
      else width
    let width := registerOperandContainerWidth width operand.regClass operand.kind
    setReg ops index (registerFromEncodingClass encoding width operand.regClass rexSeen) width

/-- `x86_decode_set_mem_operand`. -/
def setMem (ops : List Operand) (index : Nat) (mem : MemoryOperand) (width : Nat)
    (absTarget : BitVec 64) : List Operand :=
  ops.modify index fun o => { o with kind := .mem, mem, absTarget, width }

/-- `x86_decode_set_string_operand`. -/
def setString (ops : List Operand) (index addressWidth : Nat) (isDst : Bool) (width segment : Nat) :
    List Operand :=
  let base :=
    match addressWidth with
    | 16 => if isDst then Reg.di else Reg.si
    | 32 => if isDst then 74 else 73
    | _ => if isDst then 107 else 106
  setMem ops index
    { base, scale := 1, addressWidth, segment := if isDst then Reg.es else segment } width 0

/-- `x86_decode_set_imm_operand`. -/
def setImm (ops : List Operand) (index : Nat) (record : Record) (immPtr : List Byte) (immSize : Nat)
    (address : BitVec 64) (len : Nat) : List Operand :=
  if immSize = 0 then ops
  else
    let imm := readInteger immPtr immSize record.decodeImmSigned
    let width := (record.operand index).width
    ops.modify index fun o =>
      { o with
        kind := if record.immPcRel then .pcRel else .imm
        imm
        absTarget := if record.immPcRel then address + BitVec.ofNat 64 len + imm else 0
        width := if width ≠ 0 then width else immSize * 8 }

/-- What the operands of an instruction are read from. -/
structure Encoding where
  record : Record
  prefixes : PrefixState
  opcode : Byte
  modrm : Modrm
  displacement : BitVec 32
  immPtr : List Byte
  address : BitVec 64
  len : Nat

variable (engine : Engine) (e : Encoding)

/-- `x86_decode_set_rm_operand`. -/
def setRm (ops : List Operand) (index : Nat) (evexRmHigh16 : Byte) : List Operand :=
  let operand := e.record.operand index
  if e.modrm.mod = 3 then
    setEncoded engine ops index (e.modrm.rm ||| e.prefixes.rexB ||| evexRmHigh16) operand
      e.prefixes.rexSeen
  else
    let mem := memoryOperand (decodeAddressWidth engine e.prefixes.address16) e.modrm e.prefixes
      e.displacement
    setMem ops index mem operand.width
      (if e.modrm.pcRelative then e.address + BitVec.ofNat 64 e.len + e.displacement.signExtend 64
        else 0)

/-- `x86_evex_scaled_displacement`. -/
def evexScaledDisplacement (record : Record) (displacement : BitVec 32) : BitVec 32 :=
  let operand := record.operand record.rmOperand
  if record.operands.length ≤ record.rmOperand ∨ operand.kind ≠ .mem ∨ operand.width < 8 then
    displacement
  else displacement * BitVec.ofNat 32 (operand.width / 8)

/-! ## The operands of a row -/

/-- An operand the row has. -/
def Record.names (record : Record) (index : Nat) : Bool := index < record.operands.length

def initOperands (record : Record) : List Operand :=
  record.operands.mapIdx fun i o => { kind := o.kind, width := o.width, operandIndex := i }

/-- The ModRM operand, if the row has one. -/
def withRm (ops : List Operand) : List Operand :=
  if e.record.names e.record.rmOperand then
    setRm engine e ops e.record.rmOperand e.prefixes.evexRmHigh16
  else ops

/-- The operand an encoded register fills in, if the row has one. -/
def withEncoded (ops : List Operand) (index : Nat) (encoding : Byte) (rexSeen : Bool) : List Operand :=
  if e.record.names index then setEncoded engine ops index encoding (e.record.operand index) rexSeen
  else ops

def withReg (ops : List Operand) : List Operand :=
  withEncoded engine e ops e.record.regOperand (e.modrm.reg ||| e.prefixes.rexR) e.prefixes.rexSeen

/-- The operands that depend on the form of the row. -/
def withForm (ops : List Operand) : List Operand :=
  let addressWidth := decodeAddressWidth engine e.prefixes.address16
  let string (ops : List Operand) (index : Nat) (isDst : Bool) :=
    if e.record.names index then
      setString ops index addressWidth isDst (e.record.operand index).width e.prefixes.segmentReg
    else ops
  match e.record.decodeForm with
  | .rawMemoffs =>
    let index := e.record.rmOperand
    if e.record.names index ∧ e.record.immSize ≠ 0 then
      setMem ops index
        { scale := 1, addressWidth, segment := e.prefixes.segmentReg
          displacement := readInteger e.immPtr e.record.immSize false }
        (e.record.operand index).width 0
    else ops
  | .rawStringSrc => string ops 0 false
  | .rawStringDst => string ops 0 true
  | .rawStringDstSrc => string (string ops 0 true) 1 false
  | .addReg =>
    withEncoded engine e ops e.record.opcodeRegOperand ((e.opcode &&& 7) ||| e.prefixes.rexB)
      e.prefixes.rexSeen
  | .modrmRmReg => withReg engine e (withRm engine e ops)
  | .modrmRegRm => withRm engine e (withReg engine e ops)
  | .modrmFixedRm => withRm engine e ops
  | _ => ops

/-- The registers a row names itself. -/
def withFixed (ops : List Operand) : List Operand :=
  let fixed (ops : List Operand) (index : Nat) (register : Nat → Nat) (width : Nat) :=
    if e.record.names index then setReg ops index (register width) width else ops
  let width (index : Nat) := (e.record.operand index).width
  let r := e.record
  let ops := fixed ops r.fixedAccumulatorOperand accumulatorRegister (width r.fixedAccumulatorOperand)
  let ops := fixed ops r.fixedDxOperand (fun _ => Reg.dx) 16
  fixed ops r.fixedRegisterOperand (fun _ => r.fixedRegisterId)
    (if width r.fixedRegisterOperand = 0 ∧ (r.operand r.fixedRegisterOperand).regClass = .segment
      then 16 else width r.fixedRegisterOperand)

def addFlags (ops : List Operand) (index : Nat) (flags : BitVec 32) : List Operand :=
  ops.modify index fun o => { o with flags := o.flags ||| flags }

/-- The operands of the VEX and EVEX prefixes. -/
def withVector (ops : List Operand) : List Operand :=
  let r := e.record
  let p := e.prefixes
  let ops := withEncoded engine e ops r.vvvvOperand p.vectorVvvv true
  let ops :=
    if r.names r.evexMaskOperand then
      let ops := setEncoded engine ops r.evexMaskOperand (p.evexAaa &&& 7)
        { r.operand r.evexMaskOperand with regClass := .mask } true
      if r.evexZ then addFlags ops r.evexMaskOperand OperandFlag.x86Zeroing else ops
    else ops
  if r.names r.roundOperand then
    let control : BitVec 64 := (if p.vectorL then 1 else 0) ||| (if p.vectorL2 then 2 else 0)
    ops.modify r.roundOperand fun o => { o with kind := .x86Rounding, imm := control, width := 2 }
  else ops

/-- `EVEX.b` means a broadcast where the row has a memory operand. -/
def broadcasts (ops : List Operand) : Bool :=
  e.record.names e.record.rmOperand &&
    (ops.getD e.record.rmOperand .empty).kind == .mem

def withBroadcast (ops : List Operand) : List Operand :=
  if e.record.evexB ∧ ¬ e.record.isNd ∧ broadcasts e ops then
    addFlags ops e.record.rmOperand OperandFlag.x86Broadcast
  else ops

/-- The immediates, among them a register in the upper half of the first byte. -/
def withImm (ops : List Operand) : List Operand :=
  let r := e.record
  let hasImmReg := r.names r.immRegOperand ∧ r.immSize ≠ 0
  let first := e.immPtr.getD 0 0
  let ops :=
    if hasImmReg then
      setEncoded engine ops r.immRegOperand (first >>> 4) (r.operand r.immRegOperand) true
    else ops
  let ops :=
    if ¬ r.names r.immOperand then ops
    else if hasImmReg then
      ops.modify r.immOperand fun o =>
        { o with
          kind := .imm, imm := (first &&& 0x0f).setWidth 64, width := (r.operand r.immOperand).width }
    else setImm ops r.immOperand r e.immPtr r.immSize e.address e.len
  if r.names r.extraImmOperand then
    setImm ops r.extraImmOperand r (e.immPtr.drop r.immSize) r.extraImmSize e.address e.len
  else ops

/-- The count of the shifts `d0` to `d3`, which no row lists. -/
def withShiftCount (ops : List Operand) : List Operand :=
  if e.record.opcodeMap = 0 ∧ 0xd0 ≤ e.opcode ∧ e.opcode ≤ 0xd3 ∧ e.record.fixedReg.isSome ∧
      ops.length < maxOperands then
    let count := if e.opcode = 0xd0 ∨ e.opcode = 0xd1 then Operand.ofImm 1 0 else Operand.ofReg Reg.cl 8
    ops ++ [count.atIndex ops.length]
  else ops

/-- The operands up to the point where `EVEX.b` looks at them. -/
def leadingOperands : List Operand :=
  withVector engine e (withFixed e (withForm engine e (initOperands e.record)))

def tdOperands : List Operand :=
  withShiftCount e (withImm engine e (withBroadcast e (leadingOperands engine e)))

def tdAttributes : BitVec 32 :=
  let r := e.record
  (if r.names r.roundOperand then Attr.x86Sae else 0) |||
    (if r.evexB ∧ ¬ r.isNd ∧ ¬ broadcasts e (leadingOperands engine e) then Attr.x86Sae else 0) |||
    (if r.evexNf then Attr.x86Nf else 0)

def tdMnemonicId : Nat :=
  if e.record.vectorType = .normal ∧ e.record.opcodeMap = 1 then
    if 0x40 ≤ e.opcode ∧ e.opcode ≤ 0x4f then cmovccMnemonicId e.opcode
    else if 0x90 ≤ e.opcode ∧ e.opcode ≤ 0x9f then setccMnemonicId e.opcode
    else e.record.mnemonicId
  else e.record.mnemonicId

/-- `x86_populate_td_operands`. -/
def populateTdOperands (inst : Inst) : Inst :=
  if e.record.decodeForm = .unsupported ∨ maxOperands < e.record.operands.length then inst
  else
    { inst with
      mnemonicId := tdMnemonicId e
      attributes := inst.attributes ||| tdAttributes engine e
      operands := tdOperands engine e }

end AsmKit.X86
