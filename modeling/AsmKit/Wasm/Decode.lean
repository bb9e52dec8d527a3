import AsmKit.Core.Bits
import AsmKit.Core.Engine
import AsmKit.Lib.Leb128

/-!
# The WebAssembly decoder

`asmkit_gen_wasm_decode_one`: an opcode of one byte, or a prefix byte with a number behind it, and
the immediates its row names.
-/

namespace AsmKit.Wasm

/-! ## Rows -/

/-- `asmkit_wasm_td_operand_code_t`. -/
inductive OperandCode where
  | none | blocktype | indexUleb | immUleb | immSleb32 | immSleb64 | immByte | immF32 | immF64
deriving DecidableEq, Repr

/-- `asmkit_wasm_td_record_t`, with as many operand codes as it counts. -/
structure Record where
  id : Nat
  mnemonicId : Nat
  mode64 : Bool := false
  instClass : InstClass
  flags : BitVec 32 := 0
  featureBits : Vector (BitVec 64) 8 := .replicate 8 0
  operandCodes : List OperandCode := []
deriving DecidableEq, Repr

/-- The rows that `wasm_td_opcode_range` names for a prefix, 0 where there is none, and an opcode. -/
abbrev Rows := Byte → BitVec 32 → List Record

def Record.modeMatches (record : Record) (mode : Mode) : Bool := !record.mode64 || mode == .wasm64

def Record.accepted (record : Record) (engine : Engine) : Bool :=
  record.modeMatches engine.config.mode && engine.featuresMatch record.featureBits

/-- `wasm_find_record`: the first row, and before it the first of the 64-bit rows in their mode. -/
def findRecord (rows : List Record) (engine : Engine) : Option Record :=
  rows.find? (fun record =>
    record.accepted engine && engine.config.mode == .wasm64 && record.mode64) <|>
  rows.find? (·.accepted engine)

/-- Some row of the mode lacks a feature. -/
def sawFeatureBlocked (rows : List Record) (engine : Engine) : Bool :=
  rows.any fun record =>
    record.modeMatches engine.config.mode && !engine.featuresMatch record.featureBits

/-! ## Numbers -/

/-- `wasm_read_uleb32`, with the offset behind the number. -/
def readUleb32 (code : List Byte) (off : Nat) : Option (BitVec 32 × Nat) :=
  (Leb128.read 32 code 5 off 0 0).map fun number => (number.value, number.next)

/-- The sign is bit 6 of the last group, where the number does not fill its type. -/
def signExtended (number : Leb128.Number 64) : BitVec 64 :=
  if number.bits < 64 ∧ number.last &&& 0x40 ≠ 0 then
    number.value ||| -((1 : BitVec 64) <<< number.bits)
  else number.value

/-- `wasm_read_sleb64`. -/
def readSleb64 (code : List Byte) (off : Nat) : Option (BitVec 64 × Nat) :=
  (Leb128.read 64 code 10 off 0 0).map fun number => (signExtended number, number.next)

/-! ## Operands -/

/-- One operand, and the offset behind it. -/
def decodeOperand (code : List Byte) (off : Nat) : OperandCode → Option (Operand × Nat)
  | .blocktype =>
    if code.length ≤ off then none
    else some ({ kind := .wasmBlocktype, imm := (code.getD off 0).signExtend 64, width := 8 }, off + 1)
  | .indexUleb => (readUleb32 code off).map fun (value, next) =>
    ({ kind := .wasmIndex, imm := value.setWidth 64, width := 32 }, next)
  | .immUleb => (readUleb32 code off).map fun (value, next) =>
    (Operand.ofImm (value.setWidth 64) 32, next)
  | .immSleb32 => ((readSleb64 code off).filter fun (value, _) => i64FitsI32 value).map
    fun (value, next) => (Operand.ofImm value 32, next)
  | .immSleb64 => (readSleb64 code off).map fun (value, next) => (Operand.ofImm value 64, next)
  | .immByte =>
    if code.length ≤ off then none
    else some (Operand.ofImm ((code.getD off 0).setWidth 64) 8, off + 1)
  | .immF32 =>
    if code.length < off + 4 then none
    else some (Operand.ofImm ((load32le (code.drop off)).setWidth 64) 32, off + 4)
  | .immF64 =>
    if code.length < off + 8 then none
    else some (Operand.ofImm (load64le (code.drop off)) 64, off + 8)
  | .none => none

/-- `wasm_decode_operands`, from place `index` on. -/
def decodeOperands (code : List Byte) : List OperandCode → Nat → Nat → Option (List Operand × Nat)
  | [], _, off => some ([], off)
  | operandCode :: operandCodes, index, off =>
    match decodeOperand code off operandCode with
    | none => none
    | some (operand, next) =>
      (decodeOperands code operandCodes (index + 1) next).map fun (operands, stop) =>
        (operand.atIndex index :: operands, stop)

/-! ## The decoder -/

namespace Id

def other : Nat := 1
def prefixed : Nat := 14

end Id

namespace Mnemonic

def base : Nat := 0x05000000
def other : Nat := base + 1

end Mnemonic

/-- `wasm_is_prefix`. -/
def isPrefix (opcode : Byte) : Bool := opcode ∈ ([0xd0, 0xfb, 0xfc, 0xfd, 0xfe] : List Byte)

/-- Prefix, opcode and the offset behind it. -/
def parseOpcode (code : List Byte) : Option (Byte × BitVec 32 × Nat) :=
  let b := code.getD 0 0
  if isPrefix b then (readUleb32 code 1).map fun (opcode, next) => (b, opcode, next)
  else some (0, b.setWidth 32, 1)

def finish (engine : Engine) (code : List Byte) (address : BitVec 64) (size : Nat) : Inst :=
  { arch := .wasm, mode := engine.config.mode, address, size, bytes := code.take (min size maxInstBytes) }

/-- What becomes of an opcode with its rows. -/
def decodeOpcode (rows : Rows) (engine : Engine) (code : List Byte) (address : BitVec 64)
    (prefixByte : Byte) (opcode : BitVec 32) (off : Nat) : Except Status Inst :=
  match findRecord (rows prefixByte opcode) engine with
  | some record =>
    match decodeOperands code record.operandCodes 0 off with
    | none => .error .decodeFailed
    | some (operands, stop) => .ok { finish engine code address stop with
        id := record.id, mnemonicId := record.mnemonicId, instClass := record.instClass
        flags := record.flags, operands }
  | none =>
    if sawFeatureBlocked (rows prefixByte opcode) engine then .error .unsupportedFeature
    else .ok { finish engine code address off with
      id := if prefixByte = 0 then Id.other else Id.prefixed, mnemonicId := Mnemonic.other }

/-- `asmkit_gen_wasm_decode_one`. -/
def decodeOne (rows : Rows) (engine : Engine) (code : List Byte) (address : BitVec 64) :
    Except Status Inst :=
  if engine.config.mode ≠ .wasm32 ∧ engine.config.mode ≠ .wasm64 ∨ code.length = 0 then
    .error .decodeFailed
  else match parseOpcode code with
    | none => .error .decodeFailed
    | some (prefixByte, opcode, off) => decodeOpcode rows engine code address prefixByte opcode off

end AsmKit.Wasm
