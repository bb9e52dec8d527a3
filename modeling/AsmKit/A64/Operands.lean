import AsmKit.Core.Bits
import AsmKit.Core.Engine

/-!
# Operands of AArch64 table records

How the table-driven decoder gathers an operand's bits from the word and turns them into a
register, an immediate or a pc-relative target.
-/

namespace AsmKit.A64

/-! ## Rows -/

inductive DescKind where
  | reg | imm | opaque_ | pcRel | unknown
deriving DecidableEq, Repr

inductive RegClass where
  | none | gpr | simd | zpr | ppr | pnr | ztr | matrixTile | matrixArray
deriving DecidableEq, Repr

inductive Transform where
  | rawUnsigned | rawSigned | addSubShiftedImm | movShift32 | movShift64
  | pcRelWords4 | pcRelAdr | pcRelAdrp | logicalImm32 | logicalImm64
  | arithShiftedReg | logicalShiftedReg | arithExtendedReg | pnrP8ToP15 | gprSeqPair | syspXzrPair
  | rawUnsignedScaled | rawSignedScaled | vecShiftRight | vecShiftRightNarrow | rawUnsignedOffset
  | complexRotate | gprW12ToW15 | fixedpointScale
deriving DecidableEq, Repr

structure OperandDesc where
  operandIndex : Nat
  kind : DescKind
  width : Nat
  transform : Transform := .rawUnsigned
  reg31IsSp : Bool := false
  regClass : RegClass := .none
  sourceMask : BitVec 32
  literalValue : BitVec 32 := 0
deriving DecidableEq, Repr

/-- One bit of an operand and the bit of the word it comes from. -/
structure Piece where
  operandIndex : Nat
  srcBit : Nat
  dstBit : Nat
deriving DecidableEq, Repr

inductive Predicate where
  | none | pstateImm0_15 | pstateImm0_1
deriving DecidableEq, Repr

structure Record where
  id : Nat
  mnemonicId : Nat
  mask : BitVec 32
  value : BitVec 32
  fixedBits : Nat
  predicate : Predicate := .none
  descs : List OperandDesc
  pieces : List Piece
  featureBits : Vector (BitVec 64) 8 := .replicate 8 0
  instClass : InstClass
  flags : BitVec 32
deriving DecidableEq, Repr

/-! ## Registers -/

namespace Reg

def w0 : Nat := 1
def wsp : Nat := 32
def wzr : Nat := 33
def x0 : Nat := 34
def x28 : Nat := 62
def fp : Nat := 63
def lr : Nat := 64
def sp : Nat := 65
def xzr : Nat := 66
def b0 : Nat := 73
def h0 : Nat := 105
def s0 : Nat := 137
def d0 : Nat := 169
def q0 : Nat := 201
def pn0 : Nat := 233
def p0 : Nat := 249
def z0 : Nat := 265
def zaq0 : Nat := 297
def zad0 : Nat := 313
def zas0 : Nat := 321
def zah0 : Nat := 325
def zab0 : Nat := 327
def za : Nat := 328
def zt0 : Nat := 329

end Reg

/-- 0 stands for no register. -/
def tdGprId (encoding width : Nat) (reg31IsSp : Bool) : Nat :=
  if 31 < encoding then 0
  else if width = 32 then
    if encoding < 31 then Reg.w0 + encoding else if reg31IsSp then Reg.wsp else Reg.wzr
  else if width = 64 then
    if encoding < 29 then Reg.x0 + encoding
    else if encoding = 29 then Reg.fp
    else if encoding = 30 then Reg.lr
    else if reg31IsSp then Reg.sp else Reg.xzr
  else 0

def tdSimdId (encoding width : Nat) : Nat :=
  if 31 < encoding then 0
  else
    match width with
    | 8 => Reg.b0 + encoding
    | 16 => Reg.h0 + encoding
    | 32 => Reg.s0 + encoding
    | 64 => Reg.d0 + encoding
    | 128 => Reg.q0 + encoding
    | _ => 0

def tdVectorId (encoding width : Nat) (reg31IsSp : Bool) : RegClass → Nat
  | .simd => tdSimdId encoding width
  | .zpr => if encoding < 32 then Reg.z0 + encoding else 0
  | .ppr => if encoding < 16 then Reg.p0 + encoding else 0
  | .pnr => if encoding < 16 then Reg.pn0 + encoding else 0
  | .ztr => if encoding = 0 then Reg.zt0 else 0
  | .matrixArray => if encoding = 0 then Reg.za else 0
  | .matrixTile =>
    match width with
    | 8 => if encoding = 0 then Reg.zab0 else 0
    | 16 => if encoding < 2 then Reg.zah0 + encoding else 0
    | 32 => if encoding < 4 then Reg.zas0 + encoding else 0
    | 64 => if encoding < 8 then Reg.zad0 + encoding else 0
    | 128 => if encoding < 16 then Reg.zaq0 + encoding else 0
    | _ => 0
  | .none | .gpr => tdGprId encoding width reg31IsSp

/-- A register operand with further flags, unless the register does not exist. -/
def regOperand (reg width : Nat) (flags : BitVec 32 := 0) (imm : BitVec 64 := 0) : Option Operand :=
  if reg = 0 then none else some { Operand.ofReg reg width with flags, imm }

def tdRegOperand (value : BitVec 32) (desc : OperandDesc) : Option Operand :=
  let encoding := (value &&& 0x1f).toNat
  let literal (reg : Nat) : Option Operand :=
    if desc.literalValue = 0 then regOperand reg desc.width
    else regOperand reg desc.width OperandFlag.vectorList (desc.literalValue.setWidth 64)
  let vectorId (encoding : Nat) := tdVectorId encoding desc.width desc.reg31IsSp desc.regClass
  match desc.transform with
  | .gprSeqPair =>
    if encoding % 2 ≠ 0 ∨ 30 < encoding ∨ (desc.width ≠ 32 ∧ desc.width ≠ 64) then none
    else regOperand (tdGprId encoding desc.width false) desc.width OperandFlag.registerPair
  | .syspXzrPair =>
    if value ≠ 0 ∨ desc.width ≠ 64 then none
    else regOperand Reg.xzr 64 OperandFlag.registerPair
  | .pnrP8ToP15 => if 7 < encoding then none else literal (vectorId (encoding + 8))
  | .gprW12ToW15 =>
    if 3 < encoding ∨ desc.width ≠ 32 ∨ desc.regClass ≠ .gpr then none
    else literal (vectorId (encoding + 12))
  | _ => literal (vectorId encoding)

def tdShiftedRegOperand (value : BitVec 32) (desc : OperandDesc) : Option Operand :=
  let amount := ((value >>> 5) &&& 0x3f).toNat
  let shiftType := ((value >>> 11) &&& 3).toNat
  let maxAmount := if desc.width = 32 then 31 else 63
  match tdRegOperand value desc with
  | none => none
  | some operand =>
    if maxAmount < amount ∨ (desc.transform = .arithShiftedReg ∧ shiftType = 3) then none
    else some { operand with shiftKind := shiftType, shiftAmount := amount }

def tdExtendedRegOperand (value : BitVec 32) (desc : OperandDesc) : Option Operand :=
  let amount := ((value >>> 5) &&& 7).toNat
  let extend := ((value >>> 8) &&& 7).toNat
  let sourceWidth := if desc.width = 32 then 32 else if extend = 3 ∨ extend = 7 then 64 else 32
  if desc.regClass ≠ .gpr ∨ 4 < amount ∨ (desc.width ≠ 32 ∧ desc.width ≠ 64) then none
  else
    (regOperand (tdGprId (value &&& 0x1f).toNat sourceWidth false) sourceWidth
      OperandFlag.aarch64ExtendedReg).map fun operand =>
        { operand with extendKind := extend, extendAmount := amount }

def tdDecodeRegOperand (value : BitVec 32) (desc : OperandDesc) : Option Operand :=
  match desc.transform with
  | .arithShiftedReg | .logicalShiftedReg => tdShiftedRegOperand value desc
  | .arithExtendedReg => tdExtendedRegOperand value desc
  | _ => tdRegOperand value desc

/-! ## Immediates -/

/-- `a64_sign_extend`, for `bits` from 1 to 32. -/
def signExtend (value : BitVec 32) (bits : Nat) : BitVec 64 :=
  let sign := BitVec.twoPow 32 (bits - 1)
  (value ^^^ sign).setWidth 64 - sign.setWidth 64

/-- The number of bits up to the highest set one. -/
def tdSourceWidth (sourceMask : BitVec 32) : Nat :=
  if sourceMask = 0 then 0 else sourceMask.toNat.log2 + 1

def ones (width : Nat) : BitVec 64 :=
  if 64 ≤ width then BitVec.allOnes 64 else (1 <<< width) - 1

def rorWidth (value : BitVec 64) (width rotate : Nat) : BitVec 64 :=
  if width = 0 ∨ 64 < width then 0
  else
    let value := value &&& ones width
    let rotate := rotate % width
    if rotate = 0 then value
    else ((value >>> rotate) ||| (value <<< (width - rotate))) &&& ones width

def replicateWidth (value : BitVec 64) (elementWidth regWidth : Nat) : BitVec 64 :=
  if elementWidth = 0 ∨ regWidth = 0 ∨ regWidth < elementWidth then 0
  else
    let value := value &&& ones elementWidth
    let copies := (regWidth + elementWidth - 1) / elementWidth
    let result := (List.range copies).foldl (fun r i => r ||| (value <<< (i * elementWidth))) 0
    if 64 ≤ regWidth then result else result &&& ones regWidth

def decodeLogicalImm (encoded : BitVec 32) (regWidth : Nat) : Option (BitVec 64) :=
  let n := (encoded >>> 12) &&& 1
  let immr := ((encoded >>> 6) &&& 0x3f).toNat
  let imms := encoded &&& 0x3f
  let levelBits := (n <<< 6) ||| (~~~imms &&& 0x3f)
  let len := levelBits.toNat.log2
  let elementWidth := 2 ^ len
  let levels := elementWidth - 1
  let s := imms.toNat &&& levels
  let r := immr &&& levels
  if regWidth ≠ 32 ∧ regWidth ≠ 64 then none
  else if regWidth = 32 ∧ n ≠ 0 then none
  else if len < 1 then none
  else if regWidth < elementWidth then none
  else if s = levels then none
  else some (replicateWidth (rorWidth (ones (s + 1)) elementWidth r) elementWidth regWidth)

/-- `a64_td_imm_value`. The sum and the products are the ones of `int64_t`. -/
def tdImmValue (value : BitVec 32) (desc : OperandDesc) : Option (BitVec 64) :=
  let wide := value.setWidth 64
  let literal := desc.literalValue.setWidth 64
  let width := tdSourceWidth desc.sourceMask
  match desc.transform with
  | .rawSigned => some (if width = 0 then 0 else signExtend value width)
  | .rawUnsignedScaled => if desc.literalValue ≠ 0 then some (wide * literal) else none
  | .rawUnsignedOffset => if desc.literalValue ≠ 0 then some (wide + literal) else none
  | .fixedpointScale =>
    let value : BitVec 32 := value ||| (0x3f &&& ~~~desc.sourceMask)
    if desc.literalValue = 0 ∨ desc.literalValue ≤ value then none
    else some (literal - value.setWidth 64)
  | .rawSignedScaled =>
    if width = 0 ∨ desc.literalValue = 0 then none else some (signExtend value width * literal)
  | .vecShiftRight =>
    if desc.literalValue = 0 ∨ desc.literalValue < value then none else some (literal - wide)
  | .vecShiftRightNarrow =>
    let value : BitVec 32 := value ||| (desc.literalValue >>> 1)
    if desc.literalValue = 0 ∨ desc.literalValue < value then none
    else some (literal - value.setWidth 64)
  | .complexRotate => if value ≤ 3 then some (wide * 90) else none
  | .addSubShiftedImm =>
    some (if value &&& 0x1000 ≠ 0 then (value &&& 0xfff).setWidth 64 <<< 12
      else (value &&& 0xfff).setWidth 64)
  | .logicalImm32 | .logicalImm64 => decodeLogicalImm value desc.width
  | _ => some wide

/-! ## Targets -/

def tdPcRelOperand (address : BitVec 64) (value : BitVec 32) (desc : OperandDesc) : Operand :=
  let width := tdSourceWidth desc.sourceMask
  let operand (base disp : BitVec 64) : Operand :=
    { Operand.ofPcRel disp (if desc.width ≠ 0 then desc.width else width) with
      absTarget := base + disp }
  if width = 0 then .empty
  else
    match desc.transform with
    | .pcRelWords4 => operand address (signExtend value width * 4)
    | .pcRelAdr => operand address (signExtend value width)
    | .pcRelAdrp => operand (address &&& ~~~0xfff) (signExtend value width * 4096)
    | _ => .empty

/-! ## Gathering -/

/-- The bits the pieces gather for one operand. -/
def gather (pieces : List Piece) (operandIndex : Nat) (word : BitVec 32) : BitVec 32 :=
  pieces.foldl (fun (value : BitVec 32) piece =>
    if piece.operandIndex = operandIndex then
      value ||| (((word >>> piece.dstBit) &&& 1#32) <<< piece.srcBit)
    else value) 0

/-- `values[desc->operand_index]` as `a64_td_operand_values` leaves it: a later row with a fixed
value overrides the gathered bits. -/
def tdOperandValue (record : Record) (word : BitVec 32) (operandIndex : Nat) : BitVec 32 :=
  record.descs.foldl (fun (value : BitVec 32) desc =>
    if desc.operandIndex = operandIndex ∧
        ((desc.kind = .opaque_ ∧ desc.sourceMask = 0 ∧ desc.width ≠ 0) ∨
          (desc.kind = .imm ∧ desc.sourceMask = 0 ∧ desc.literalValue ≠ 0)) then
      desc.literalValue
    else value) (gather record.pieces operandIndex word)

/-- The indices of the rows stay inside the operand array. -/
def Record.indicesOk (record : Record) : Bool :=
  record.descs.length ≤ maxOperands && record.pieces.all (·.operandIndex < maxOperands) &&
    record.descs.all (·.operandIndex < maxOperands)

def tdRecordOperandsMatch (record : Record) (word : BitVec 32) : Bool :=
  record.indicesOk && record.descs.all fun desc =>
    let value := tdOperandValue record word desc.operandIndex
    match desc.kind with
    | .imm => (tdImmValue value desc).isSome
    | .reg => (tdDecodeRegOperand value desc).isSome
    | _ => true

/-- One operand of a record. -/
def decodeTdOperand (record : Record) (word : BitVec 32) (address : BitVec 64)
    (desc : OperandDesc) : Option Operand :=
  let value := tdOperandValue record word desc.operandIndex
  match desc.kind with
  | .reg => tdDecodeRegOperand value desc
  | .imm => (tdImmValue value desc).map (Operand.ofImm · desc.width)
  | .opaque_ => some (Operand.ofOpaque (value.setWidth 64) desc.width)
  | .pcRel => some (tdPcRelOperand address value desc)
  | .unknown => none

/-- `a64_decode_td_operands`: the operands in their places. -/
def decodeTdOperands (record : Record) (word : BitVec 32) (address : BitVec 64) :
    Option (List Operand) :=
  if record.descs = [] then some []
  else if ¬ record.indicesOk then none
  else
    record.descs.foldlM (fun operands desc => do
      let operand ← decodeTdOperand record word address desc
      return operands.set desc.operandIndex (operand.atIndex desc.operandIndex))
      (List.replicate record.descs.length .empty)

end AsmKit.A64
