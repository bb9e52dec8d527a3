import AsmKit.Encode.Inst
import AsmKit.Lib.Leb128Write
import AsmKit.Wasm.Decode

/-!
# The WebAssembly encoder

`asmkit_gen_wasm_encode_inst`: the row of the instruction, by its id or else by its mnemonic, its
opcode and the immediates it names.
-/

namespace AsmKit.Wasm

/-! ## The table -/

/-- A row of `asmkit_wasm_td_records`, under its prefix, 0 where it has none, and opcode. -/
structure Row where
  prefixByte : Byte
  opcode : BitVec 32
  record : Record
deriving DecidableEq, Repr

/-- The generated table, which the decoder and the encoder share. -/
structure RowTable where
  rows : List Row
  ids : (rows.map (·.record.id)).Nodup
  id_ne_zero : ∀ row ∈ rows, row.record.id ≠ 0
  /-- An opcode behind no prefix is one byte that is none. -/
  opcodes : ∀ row ∈ rows, if row.prefixByte = 0 then
    (row.opcode.setWidth 8).setWidth 32 = row.opcode ∧ isPrefix (row.opcode.setWidth 8) = false
    else isPrefix row.prefixByte = true
  /-- The rows of an opcode, of 32 and 64 bits, are one mnemonic with the same immediates. -/
  shared : ∀ row ∈ rows, ∀ row' ∈ rows, row.prefixByte = row'.prefixByte → row.opcode = row'.opcode →
    row.record.operandCodes = row'.record.operandCodes ∧ row.record.mnemonicId = row'.record.mnemonicId

/-- The rows that stand under an opcode. -/
def RowTable.rowsAt (table : RowTable) : Rows := fun prefixByte opcode =>
  (table.rows.filter fun row => row.prefixByte == prefixByte && row.opcode == opcode).map (·.record)

/-! ## The row of an instruction -/

/-- `wasm_operand_matches`. -/
def operandMatches (operand : Operand) : OperandCode → Bool
  | .blocktype => operand.kind == .wasmBlocktype || operand.kind == .imm
  | .indexUleb => operand.kind == .wasmIndex || operand.kind == .imm
  | .immUleb | .immSleb32 | .immSleb64 | .immByte | .immF32 | .immF64 => operand.kind == .imm
  | .none => false

/-- `wasm_record_matches_inst`. A block type may be missing. -/
def Record.matchesInst (record : Record) (inst : Inst) : Bool :=
  record.modeMatches inst.mode && record.mnemonicId == inst.mnemonicId && inst.mnemonicId != 0 &&
    (inst.operands.length == record.operandCodes.length ||
      record.operandCodes == [.blocktype] && inst.operands.isEmpty) &&
    (inst.operands.zip record.operandCodes).all fun (operand, code) => operandMatches operand code

def Row.hasId (row : Row) (inst : Inst) : Bool :=
  inst.id != 0 && row.record.id == inst.id && row.record.modeMatches inst.mode

/-- `wasm_find_record_by_id`. -/
def findRecordById (rows : List Row) (engine : Engine) (inst : Inst) : Option Row :=
  rows.find? fun row => row.hasId inst && engine.featuresMatch row.record.featureBits

/-- `wasm_find_record_by_mnemonic`: the first row, and before it the first of the 64-bit rows in
their mode. -/
def findRecordByMnemonic (rows : List Row) (engine : Engine) (inst : Inst) : Option Row :=
  let candidates := rows.filter fun row =>
    row.record.matchesInst inst && engine.featuresMatch row.record.featureBits
  candidates.find? (fun row => inst.mode == .wasm64 && row.record.mode64) <|> candidates.head?

/-- `saw_feature_blocked_candidate`, where no row was found. -/
def blockedByFeature (rows : List Row) (engine : Engine) (inst : Inst) : Bool :=
  rows.any fun row => (row.hasId inst || row.record.matchesInst inst) &&
    !engine.featuresMatch row.record.featureBits

def findRow (rows : List Row) (engine : Engine) (inst : Inst) : Option Row :=
  findRecordById rows engine inst <|> findRecordByMnemonic rows engine inst

/-! ## Operands -/

/-- `wasm_operand_encoded_size`. -/
def operandEncodedSize (operand : Operand) : OperandCode → Option Nat
  | .blocktype | .immByte =>
    if operand.imm.toInt < -128 ∨ 255 < operand.imm.toInt then none else some 1
  | .indexUleb | .immUleb =>
    if operand.imm.toInt < 0 ∨ 0xffffffff < operand.imm.toInt then none
    else some (Leb128.size 32 5 (operand.imm.setWidth 32))
  | .immSleb32 =>
    if !i64FitsI32 operand.imm then none else some (Leb128.sizeSigned 64 10 operand.imm)
  | .immSleb64 => some (Leb128.sizeSigned 64 10 operand.imm)
  | .immF32 => some 4
  | .immF64 => some 8
  | .none => none

/-- `wasm_write_operand`. -/
def writeOperand (operand : Operand) : OperandCode → List Byte
  | .blocktype | .immByte => [operand.imm.setWidth 8]
  | .indexUleb | .immUleb => Leb128.write 32 5 (operand.imm.setWidth 32)
  | .immSleb32 | .immSleb64 => Leb128.writeSigned 64 10 operand.imm
  | .immF32 => store32le (operand.imm.setWidth 32)
  | .immF64 => store64le operand.imm
  | .none => []

/-- The block type that stands for a missing one: no result. -/
def defaultBlocktype : Operand := Operand.ofImm 0x40 8

/-- The operand for a place. One behind the last is read as it lies in the record. -/
def operandAt (operands : List Operand) (operandCode : OperandCode) (i : Nat) : Operand :=
  if operands.length = 0 ∧ operandCode = .blocktype then defaultBlocktype else operands.getD i .empty

/-- The size of the operands from place `i` on. -/
def operandsSize (operands : List Operand) : List OperandCode → Nat → Option Nat
  | [], _ => some 0
  | code :: codes, i =>
    match operandEncodedSize (operandAt operands code i) code with
    | none => none
    | some size => (operandsSize operands codes (i + 1)).map (size + ·)

def writeOperands (operands : List Operand) : List OperandCode → Nat → List Byte
  | [], _ => []
  | code :: codes, i =>
    writeOperand (operandAt operands code i) code ++ writeOperands operands codes (i + 1)

/-! ## The encoder -/

def Row.opcodeSize (row : Row) : Nat :=
  if row.prefixByte ≠ 0 then 1 + Leb128.size 32 5 row.opcode else 1

def Row.opcodeBytes (row : Row) : List Byte :=
  if row.prefixByte ≠ 0 then row.prefixByte :: Leb128.write 32 5 row.opcode
  else [row.opcode.setWidth 8]

/-- The instruction under a row. -/
def encodeRow (row : Row) (inst : Inst) (capacity : Nat) : EncodeOut :=
  match operandsSize inst.operands row.record.operandCodes 0 with
  | none => { status := .encodeFailed }
  | some size =>
    let required := row.opcodeSize + size
    if capacity < required then { status := .outputTooSmall, size := required }
    else { status := .ok, size := required
           code := row.opcodeBytes ++ writeOperands inst.operands row.record.operandCodes 0 }

/-- `asmkit_gen_wasm_encode_inst`. -/
def encodeInst (rows : List Row) (engine : Engine) (inst : Inst) (capacity : Nat) : EncodeOut :=
  if inst.arch ≠ .wasm ∨ inst.mode ≠ engine.config.mode ∨ inst.mode ≠ .wasm32 ∧ inst.mode ≠ .wasm64 then
    { status := .unsupportedInstruction }
  else match findRow rows engine inst with
    | none =>
      if blockedByFeature rows engine inst then { status := .unsupportedFeature }
      else { status := .unsupportedInstruction }
    | some row => encodeRow row inst capacity

end AsmKit.Wasm
