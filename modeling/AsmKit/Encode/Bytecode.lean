import AsmKit.Bpf.RoundTrip
import AsmKit.Decode.Failure
import AsmKit.Wasm.RoundTrip

/-!
# The bytecode targets, there and back

BPF and WebAssembly have their table-driven encoder alone, and the table is the decoder's.
-/

namespace AsmKit

structure BytecodeTables where
  bpf : Bpf.RowTable
  wasm : Wasm.RowTable

def BytecodeTables.rows (bytecode : BytecodeTables) : BytecodeRows :=
  { bpf := bytecode.bpf.records, wasm := bytecode.wasm.rowsAt }

/-- The encoders with those of the bytecode targets. -/
def Encoders.withBytecode (encoders : Encoders) (bytecode : BytecodeTables) : Encoders :=
  { encoders with
    encodeTd := fun engine inst capacity =>
      match engine.target.arch with
      | .bpf => Bpf.encodeInst bytecode.bpf.records engine inst capacity
      | .wasm => Wasm.encodeInst bytecode.wasm.rows engine inst capacity
      | _ => encoders.encodeTd engine inst capacity }

variable {tables : Tables} {encoders : Encoders} {bytecode : BytecodeTables} {engine : Engine}
  {code tail : List Byte} {address : BitVec 64} {prior inst : Inst} {capacity : Nat}

/-! ## Dispatch -/

theorem decodeOne_wasm (harch : engine.target.arch = .wasm) :
    decodeOne (tables.withBytecode bytecode.rows) engine code address prior =
      (Wasm.decodeOne bytecode.wasm.rowsAt engine code address).map (applyOperandMetadata tables) := by
  have hother : ¬ engine.target.arch = .bpf := by simp [harch]
  simp only [decodeOne, targetDecodeOne, harch, Tables.withBytecode, BytecodeTables.rows]
  rfl

theorem decodeOne_bpf (harch : engine.target.arch = .bpf) :
    decodeOne (tables.withBytecode bytecode.rows) engine code address prior =
      (Bpf.decodeOne bytecode.bpf.records engine code address).map (applyOperandMetadata tables) := by
  simp only [decodeOne, targetDecodeOne, harch, Tables.withBytecode, BytecodeTables.rows, if_true]
  rfl

theorem encodeInst_wasm (harch : engine.target.arch = .wasm) :
    encodeInst (encoders.withBytecode bytecode) engine inst capacity =
      Wasm.encodeInst bytecode.wasm.rows engine inst capacity := by
  simp only [encodeInst, Encoders.withBytecode, harch]

theorem encodeInst_bpf (harch : engine.target.arch = .bpf) :
    encodeInst (encoders.withBytecode bytecode) engine inst capacity =
      Bpf.encodeInst bytecode.bpf.records engine inst capacity := by
  simp only [encodeInst, Encoders.withBytecode, harch]

theorem ok_of_map {result : Except Status Inst} {f : Inst → Inst} (h : result.map f = .ok inst) :
    ∃ inst0, result = .ok inst0 ∧ inst = f inst0 := by
  cases result with
  | error status => cases h
  | ok inst0 =>
    cases h
    exact ⟨inst0, rfl, rfl⟩

/-! ## A few rows -/

/-- `i32.const`, and `i32.load` of both modes. -/
def wasmRows : List Wasm.Row :=
  let load : Wasm.Record :=
    { id := 65959, mnemonicId := Wasm.Mnemonic.base + 316, mode64 := true, instClass := .load
      operandCodes := [.immUleb, .immUleb] }
  [⟨0, 40, load⟩, ⟨0, 40, { load with id := 65958, mode64 := false }⟩,
   ⟨0, 65, { id := 65721, mnemonicId := Wasm.Mnemonic.base + 302, instClass := .other
             operandCodes := [.immSleb32] }⟩]

/-- `ja`, `r += imm` and `r = r`. -/
def bpfRecords : List Bpf.Record :=
  [{ id := 3, mnemonicId := Bpf.Mnemonic.base + 11, opcode := 0x05, kind := .directBranch
     form := .branch, size := 8, width := 0 },
   { id := 4, mnemonicId := Bpf.Mnemonic.base + 2, opcode := 0x07, kind := .alu, form := .aluRI
     matchOff := true, size := 8, width := 64 },
   { id := 128, mnemonicId := Bpf.Mnemonic.base + 29, opcode := 0xbf, kind := .alu, form := .aluRR
     matchOff := true, size := 8, width := 64 }]

def fewBytecode : BytecodeTables where
  bpf :=
    { records := bpfRecords
      ids := by decide
      sizes := by decide
      fixed := by
        intro record hmem
        simp only [bpfRecords, List.mem_cons, List.not_mem_nil, or_false] at hmem
        rcases hmem with rfl | rfl | rfl <;> exact ⟨by decide, by decide, by decide⟩
      alike := fun _ hmem _ hmem' _ => Bpf.alike_of_opcodes (by decide) hmem hmem' }
  wasm :=
    { rows := wasmRows
      ids := by decide
      id_ne_zero := by decide
      opcodes := by decide
      shared := by decide }

def noEncoders : Encoders where
  registerInfo _ := none
  encodeTd _ _ _ := { status := .unsupportedInstruction }

/-! ## WebAssembly -/

/-- **Canonical form.** An instruction that has a row is encoded in the shortest form of its bytes,
and decoded from it, whatever follows, as it was. -/
theorem reencode_wasm (harch : engine.target.arch = .wasm)
    (hdec : decodeOne (tables.withBytecode bytecode.rows) engine code address prior = .ok inst)
    (hnamed : inst.mnemonicId ≠ Wasm.Mnemonic.other) : ∃ bytes, bytes.length ≤ inst.size ∧
      (∀ capacity, encodeInst (encoders.withBytecode bytecode) engine inst capacity =
        encodeBytes bytes capacity) ∧
      ∀ tail address' prior',
        decodeOne (tables.withBytecode bytecode.rows) engine (bytes ++ tail) address' prior' =
          .ok { inst with address := address', size := bytes.length, bytes := bytes.take maxInstBytes } := by
  rw [decodeOne_wasm harch] at hdec
  obtain ⟨inst0, hdec0, rfl⟩ := ok_of_map hdec
  obtain ⟨hmode, row, hrow, off, operands, stop, hparse, hfind, hops, rfl⟩ :=
    Wasm.decodeOne_row hdec0 hnamed
  obtain ⟨n, hsize, hstop, hback⟩ := Wasm.operandsSize_of_decode [] hops
  rw [List.nil_append, List.length_nil] at hsize hback
  have hlen := row.length_bytes hrow hsize
  have hopcode := Wasm.opcodeSize_le hparse
  have haccepted := (Wasm.findRecord_spec hfind).2
  have himm (o : Operand) : (o.withInfos (tables.operandInfos .wasm row.record.id)).imm = o.imm :=
    Operand.withInfos_imm _ o
  refine ⟨row.bytes operands, ?_, ?_, ?_⟩
  · rw [hlen]
    exact (Nat.add_le_add_right hopcode n).trans hstop
  · intro capacity
    rw [encodeInst_wasm harch, Wasm.encodeInst_of_row rfl rfl hmode
      (Wasm.findRow_of_id hrow rfl haccepted rfl)]
    have hsize' : Wasm.operandsSize (operands.map (Operand.withInfos (tables.operandInfos .wasm
        row.record.id))) row.record.operandCodes 0 = some n := by
      rw [Wasm.operandsSize_map himm, hsize]
    have henc := Wasm.encodeRow_of_size hrow (applyOperandMetadata tables
      (Wasm.rowInst engine code address row.record operands stop)) hsize' capacity
    rw [henc]
    exact congrArg (encodeBytes · capacity) (row.bytes_map himm operands)
  · intro tail address' prior'
    rw [decodeOne_wasm harch, Wasm.decodeOne_bytes hmode hrow hsize hfind, hback]
    have hbytes : (row.bytes operands ++ tail).take (min (row.bytes operands).length maxInstBytes) =
        (row.bytes operands).take maxInstBytes := by
      rw [List.take_append_of_le_length (Nat.min_le_left _ _), Nat.min_comm, ← List.take_take,
        List.take_length]
    simp only [Wasm.rowInst, Wasm.finish, hbytes]
    rfl

/-- `i32.const 0` in two bytes more than it needs. -/
def longConst : Inst :=
  { arch := .wasm, mode := .wasm64, id := 65721, mnemonicId := Wasm.Mnemonic.base + 302, address := 0x10
    size := 4, bytes := [0x41, 0x80, 0x80, 0x00], operands := [Operand.ofImm 0 32] }

theorem reencode_wasm_longConst : ∃ bytes, bytes.length ≤ 4 ∧
    (∀ capacity, encodeInst (noEncoders.withBytecode fewBytecode) wasmEngine64 longConst capacity =
      encodeBytes bytes capacity) ∧
    ∀ tail address' prior',
      decodeOne (noTables.withBytecode fewBytecode.rows) wasmEngine64 (bytes ++ tail) address' prior' =
        .ok { longConst with
          address := address', size := bytes.length, bytes := bytes.take maxInstBytes } := by
  have hdec : decodeOne (noTables.withBytecode fewBytecode.rows) wasmEngine64 [0x41, 0x80, 0x80, 0x00]
      0x10 longConst = .ok longConst := rfl
  exact reencode_wasm rfl hdec (by decide)

/-- **Encoding is read back.** What was encoded is decoded, whatever follows, to an instruction of the
mnemonic with the immediates that were given, which is encoded to the same bytes. -/
theorem decode_encoded_wasm (harch : engine.target.arch = .wasm)
    (hok : (encodeInst (encoders.withBytecode bytecode) engine inst capacity).status = .ok) :
    ∃ row, Wasm.findRow bytecode.wasm.rows engine inst = some row ∧ ∀ tail address prior, ∃ inst',
      decodeOne (tables.withBytecode bytecode.rows) engine
        ((encodeInst (encoders.withBytecode bytecode) engine inst capacity).code ++ tail) address prior =
          .ok inst' ∧
      inst'.size = (encodeInst (encoders.withBytecode bytecode) engine inst capacity).code.length ∧
      inst'.mnemonicId = row.record.mnemonicId ∧
      inst'.operands.map (·.imm) =
        (Wasm.readBackAll inst.operands row.record.operandCodes 0).map (·.imm) ∧
      ∀ capacity', encodeInst (encoders.withBytecode bytecode) engine inst' capacity' =
        encodeBytes (encodeInst (encoders.withBytecode bytecode) engine inst capacity).code capacity' := by
  rw [encodeInst_wasm harch] at hok ⊢
  obtain ⟨hmode, row, hfind, hrow, haccepted, henc⟩ := Wasm.encodeInst_ok hok
  rw [henc] at hok ⊢
  obtain ⟨n, hsize⟩ := Wasm.encodeRow_ok hok
  rw [Wasm.encodeRow_of_size hrow inst hsize] at hok ⊢
  rw [encodeBytes_code_of_ok hok]
  refine ⟨row, hfind, fun tail address prior => ?_⟩
  obtain ⟨record, hrecord⟩ := Wasm.findRecord_of_mem (Wasm.mem_rowsAt.2 ⟨row, hrow, rfl, rfl, rfl⟩) haccepted
  obtain ⟨row', hrow', hlead, hopcode, rfl⟩ := Wasm.mem_rowsAt.1 (Wasm.findRecord_spec hrecord).1
  obtain ⟨hcodes, hmnemonic⟩ := bytecode.wasm.shared row' hrow' row hrow hlead hopcode
  have hdec := Wasm.decodeOne_bytes hmode hrow hsize hrecord tail address
  refine ⟨_, by rw [decodeOne_wasm harch, hdec]; rfl, rfl, hmnemonic, ?_, fun capacity' => ?_⟩
  · simp only [applyOperandMetadata, Wasm.rowInst, Wasm.finish, List.map_map]
    exact List.map_congr_left fun o _ => Operand.withInfos_imm _ o
  · have himm (o : Operand) : (o.withInfos (tables.operandInfos .wasm row'.record.id)).imm = o.imm :=
      Operand.withInfos_imm _ o
    rw [encodeInst_wasm harch, Wasm.encodeInst_of_row rfl rfl hmode
      (Wasm.findRow_of_id hrow' rfl (Wasm.findRecord_spec hrecord).2 rfl)]
    obtain ⟨m, hagain⟩ := Wasm.readBackAll_size hsize
    have hsize' : Wasm.operandsSize ((Wasm.readBackAll inst.operands row.record.operandCodes 0).map
        (Operand.withInfos (tables.operandInfos .wasm row'.record.id))) row'.record.operandCodes 0 =
          some m := by
      rw [Wasm.operandsSize_map himm, hcodes, hagain]
    have henc' := Wasm.encodeRow_of_size hrow' (applyOperandMetadata tables
      (Wasm.rowInst engine (row.bytes inst.operands ++ tail) address row'.record
        (Wasm.readBackAll inst.operands row.record.operandCodes 0) (row.bytes inst.operands).length))
      hsize' capacity'
    rw [henc']
    refine congrArg (encodeBytes · capacity') ?_
    exact (row'.bytes_map himm _).trans (Wasm.bytes_readBackAll hlead hopcode hcodes)

/-- `i32.load` by its mnemonic alone. -/
def loadByName : Inst :=
  { arch := .wasm, mode := .wasm64, mnemonicId := Wasm.Mnemonic.base + 316
    operands := [Operand.ofImm 2 32, Operand.ofImm 300 32] }

theorem decode_encoded_wasm_load :
    ∃ row, Wasm.findRow wasmRows wasmEngine64 loadByName = some row ∧ ∀ tail address prior, ∃ inst',
      decodeOne (noTables.withBytecode fewBytecode.rows) wasmEngine64
        ((encodeInst (noEncoders.withBytecode fewBytecode) wasmEngine64 loadByName 4).code ++ tail) address
          prior = .ok inst' ∧
      inst'.size =
        (encodeInst (noEncoders.withBytecode fewBytecode) wasmEngine64 loadByName 4).code.length ∧
      inst'.mnemonicId = row.record.mnemonicId ∧
      inst'.operands.map (·.imm) =
        (Wasm.readBackAll loadByName.operands row.record.operandCodes 0).map (·.imm) ∧
      ∀ capacity', encodeInst (noEncoders.withBytecode fewBytecode) wasmEngine64 inst' capacity' =
        encodeBytes (encodeInst (noEncoders.withBytecode fewBytecode) wasmEngine64 loadByName 4).code
          capacity' := by
  have hok : (encodeInst (noEncoders.withBytecode fewBytecode) wasmEngine64 loadByName 4).status = .ok := by
    decide
  exact decode_encoded_wasm rfl hok

/-! ## BPF -/

/-- **Encoding is read back.** What was encoded is decoded, at its address and whatever follows, to
the operands that were given, a register as the id of its number. -/
theorem decode_encoded_bpf (harch : engine.target.arch = .bpf)
    (hok : (encodeInst (encoders.withBytecode bytecode) engine inst capacity).status = .ok) :
    ∃ record, Bpf.findInstRecord bytecode.bpf.records engine inst = some record ∧
      ∀ tail prior, ∃ inst' infos,
        decodeOne (tables.withBytecode bytecode.rows) engine
          ((encodeInst (encoders.withBytecode bytecode) engine inst capacity).code ++ tail) inst.address
          prior = .ok inst' ∧
        inst'.size = (encodeInst (encoders.withBytecode bytecode) engine inst capacity).code.length ∧
        inst'.mnemonicId = record.mnemonicId ∧ inst'.instClass = record.kind.meaning.1 ∧
        inst'.operands = (Bpf.readBack record inst).map (Operand.withInfos infos) := by
  rw [encodeInst_bpf harch] at hok ⊢
  obtain ⟨hmode, record, word, hfind, hmem, hfeatures, hform, henc⟩ := Bpf.encodeInst_ok hok
  rw [henc]
  refine ⟨record, hfind, fun tail prior => ?_⟩
  obtain ⟨record', halike, -, hdec, hops⟩ :=
    Bpf.decodeOne_bytes hmode hmem hfeatures (Bpf.fills_of_ok hform) tail
  have hsize : record'.size = record.size := by rw [halike]
  have hmnemonic : record'.mnemonicId = record.mnemonicId := by rw [halike]
  have hkind : record'.kind = record.kind := by rw [halike]
  refine ⟨_, tables.operandInfos .bpf record'.id, by rw [decodeOne_bpf harch, hdec]; rfl, ?_, hmnemonic,
    congrArg (·.meaning.1) hkind, ?_⟩
  · rw [Bpf.length_bytes (bytecode.bpf.size_cases hmem)]
    exact hsize
  · simp only [applyOperandMetadata, Bpf.rowInst, Bpf.finish, hops]

/-- `r1 += -2` by its mnemonic alone. -/
def addByName : Inst :=
  { arch := .bpf, mode := .bpf64, mnemonicId := Bpf.Mnemonic.base + 2
    operands := [Operand.ofReg 1 64, Operand.ofImm (-2) 32] }

theorem decode_encoded_bpf_add :
    ∃ record, Bpf.findInstRecord bpfRecords bpfEngine addByName = some record ∧
      ∀ tail prior, ∃ inst' infos,
        decodeOne (noTables.withBytecode fewBytecode.rows) bpfEngine
          ((encodeInst (noEncoders.withBytecode fewBytecode) bpfEngine addByName 8).code ++ tail)
          addByName.address prior = .ok inst' ∧
        inst'.size =
          (encodeInst (noEncoders.withBytecode fewBytecode) bpfEngine addByName 8).code.length ∧
        inst'.mnemonicId = record.mnemonicId ∧ inst'.instClass = record.kind.meaning.1 ∧
        inst'.operands = (Bpf.readBack record addByName).map (Operand.withInfos infos) := by
  have hok : (encodeInst (noEncoders.withBytecode fewBytecode) bpfEngine addByName 8).status = .ok := by
    decide
  exact decode_encoded_bpf rfl hok

theorem keeps_withInfos (infos : List OperandInfo) : Bpf.Keeps (Operand.withInfos infos) where
  kind := Operand.withInfos_kind infos
  reg := Operand.withInfos_reg infos
  imm := Operand.withInfos_imm infos
  absTarget := Operand.withInfos_absTarget infos
  mem := Operand.withInfos_mem infos
  width _ := Operand.withInfos_width infos _

/-- **Registers are not read back.** A decoded instruction is encoded and decoded to its operands just
when no field of its word is a register's: the encoder takes a register's number, and the id that the
decoder stated is never the number of that register. -/
theorem reencode_bpf_iff {record : Bpf.Record} (harch : engine.target.arch = .bpf)
    (hdec : decodeOne (tables.withBytecode bytecode.rows) engine code address prior = .ok inst)
    (hfind : Bpf.findRecord bytecode.bpf.records engine code = some record)
    (hroom : inst.size ≤ capacity) (prior' : Inst) :
    (∃ inst', (encodeInst (encoders.withBytecode bytecode) engine inst capacity).status = .ok ∧
      decodeOne (tables.withBytecode bytecode.rows) engine
        (encodeInst (encoders.withBytecode bytecode) engine inst capacity).code address prior' = .ok inst' ∧
      inst'.operands = inst.operands) ↔ record.Restores code := by
  rw [decodeOne_bpf harch] at hdec
  obtain ⟨inst0, hdec0, rfl⟩ := ok_of_map hdec
  obtain rfl := Bpf.eq_rowInst hfind hdec0
  have hmode := engine.mode_of_bpf harch
  have hmem := List.mem_of_find?_eq_some hfind
  have hfound := List.find?_some hfind
  rw [Bool.and_eq_true] at hfound
  have hkeeps := keeps_withInfos (tables.operandInfos .bpf record.id)
  generalize hinst : applyOperandMetadata tables (Bpf.rowInst engine code address record) = inst at hroom ⊢
  have hops : inst.operands = (Bpf.operands record code address).map
      (Operand.withInfos (tables.operandInfos .bpf record.id)) := by
    rw [← hinst]
    rfl
  have haddress : inst.address = address := by
    rw [← hinst]
    rfl
  have henc : encodeInst (encoders.withBytecode bytecode) engine inst capacity =
      { status := (Bpf.encodeForm record inst).1, size := record.size
        code := (Bpf.encodeForm record inst).2.bytes record.size } := by
    rw [encodeInst_bpf harch]
    subst hinst
    exact Bpf.encodeInst_of_record rfl rfl hmode (Bpf.findInstRecord_of_id hmem rfl hfound.2) hroom
  rw [henc]
  subst haddress
  constructor
  · rintro ⟨inst', hok, hdec', hsame⟩
    obtain ⟨record', halike, -, hback, hread⟩ := Bpf.decodeOne_bytes hmode hmem hfound.2
      (Bpf.fills_of_ok (Prod.ext hok rfl)) []
    rw [List.append_nil] at hback hread
    rw [decodeOne_bpf harch, hback] at hdec'
    cases hdec'
    refine Bpf.restores_of_registers hkeeps hops ?_
    have hregisters := congrArg Bpf.registers hsame
    simp only [applyOperandMetadata, Bpf.rowInst, Bpf.finish, hread, hops] at hregisters
    rwa [Bpf.registers_map (keeps_withInfos _), Bpf.registers_map hkeeps] at hregisters
  · intro hrestores
    obtain ⟨hok, hread⟩ := Bpf.ok_of_restores hkeeps hops hrestores
    have hfills := Bpf.fills_of_ok (Prod.ext hok rfl)
    obtain ⟨record', -, hfind', hback, hops'⟩ := Bpf.decodeOne_bytes hmode hmem hfound.2 hfills []
    rw [List.append_nil] at hfind' hback hops'
    have hmatches := Bpf.matches_of_fills hmem hfills
      (List.append_nil _ ▸ Bpf.holds_bytes (bytecode.bpf.size_cases hmem) _ [])
    rw [Bpf.findRecord_congr hmem hfound.1 hmatches, hfind] at hfind'
    cases hfind'
    refine ⟨_, hok, by rw [decodeOne_bpf harch, hback]; rfl, ?_⟩
    rw [hops]
    simp only [applyOperandMetadata, Bpf.rowInst, Bpf.finish, hops', hread]

/-- `r1 = r2` as it is decoded. -/
def decodedMove : Inst :=
  { arch := .bpf, mode := .bpf64, id := 128, mnemonicId := Bpf.Mnemonic.base + 29, instClass := .alu
    size := 8, bytes := [0xbf, 0x21, 0, 0, 0, 0, 0, 0]
    operands := [(Operand.ofReg 4 64).atIndex 0, (Operand.ofReg 6 64).atIndex 1] }

theorem reencode_bpf_iff_move : ¬ ∃ inst',
    (encodeInst (noEncoders.withBytecode fewBytecode) bpfEngine decodedMove 8).status = .ok ∧
      decodeOne (noTables.withBytecode fewBytecode.rows) bpfEngine
        (encodeInst (noEncoders.withBytecode fewBytecode) bpfEngine decodedMove 8).code 0 decodedMove =
          .ok inst' ∧
      inst'.operands = decodedMove.operands := by
  have hdec : decodeOne (noTables.withBytecode fewBytecode.rows) bpfEngine
      [0xbf, 0x21, 0, 0, 0, 0, 0, 0] 0 decodedMove = .ok decodedMove := rfl
  refine mt (reencode_bpf_iff rfl hdec rfl le_rfl decodedMove).1 ?_
  rintro (hform | hform | hform | ⟨hform, -⟩) <;> cases hform

end AsmKit
