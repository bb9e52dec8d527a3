import AsmKit.Wasm.ReadBack
import Mathlib.Data.List.Nodup
import Mathlib.Data.Option.Basic

/-!
# WebAssembly, decoded and encoded

An instruction that was decoded from a row is encoded in its shortest form, and what was encoded is
decoded with its operands as they are read back.
-/

namespace AsmKit.Wasm

variable {table : RowTable} {row : Row} {record : Record} {engine : Engine} {inst : Inst}
  {code tail : List Byte} {address : BitVec 64} {prefixByte : Byte} {opcode : BitVec 32}
  {off stop n capacity : Nat} {operands : List Operand}

/-! ## Opcodes -/

theorem ne_zero_of_isPrefix {b : Byte} (h : isPrefix b = true) : b ≠ 0 := by
  rintro rfl
  cases h

theorem parseOpcode_cons (b : Byte) (code : List Byte) : parseOpcode (b :: code) =
    if isPrefix b then (readUleb32 (b :: code) 1).map fun (opcode, next) => (b, opcode, next)
    else some (0, b.setWidth 32, 1) := rfl

theorem parseOpcode_opcodeBytes (hrow : row ∈ table.rows) (tail : List Byte) :
    parseOpcode (row.opcodeBytes ++ tail) = some (row.prefixByte, row.opcode, row.opcodeSize) ∧
      row.opcodeBytes.length = row.opcodeSize := by
  have hopcode := table.opcodes row hrow
  unfold Row.opcodeBytes Row.opcodeSize
  by_cases hzero : row.prefixByte = 0
  · rw [if_pos hzero] at hopcode
    rw [if_neg (not_not.2 hzero), if_neg (not_not.2 hzero)]
    refine ⟨?_, rfl⟩
    rw [List.singleton_append, parseOpcode_cons, if_neg (by simp [hopcode.2]), hopcode.1, hzero]
  · rw [if_neg hzero] at hopcode
    rw [if_pos hzero, if_pos hzero, List.length_cons, Leb128.length_write (by omega)]
    refine ⟨?_, Nat.add_comm _ _⟩
    rw [List.cons_append, parseOpcode_cons, if_pos hopcode, readUleb32_write (by rfl), Option.map_some]

theorem opcodeSize_le (hparse : parseOpcode code = some (row.prefixByte, row.opcode, off)) :
    row.opcodeSize ≤ off := by
  unfold Row.opcodeSize
  simp only [parseOpcode] at hparse
  split at hparse
  · next hlead =>
    obtain ⟨⟨opcode, next⟩, hread, heq⟩ := Option.map_eq_some_iff.1 hparse
    rw [Prod.mk.injEq, Prod.mk.injEq] at heq
    obtain ⟨hb, rfl, rfl⟩ := heq
    rw [if_pos (hb ▸ ne_zero_of_isPrefix hlead)]
    exact readUleb32_size hread
  · rw [Option.some.injEq, Prod.mk.injEq, Prod.mk.injEq] at hparse
    rw [← hparse.1, ← hparse.2.2, if_neg (not_not.2 rfl)]

/-! ## Rows -/

theorem mem_rowsAt : record ∈ table.rowsAt prefixByte opcode ↔
    ∃ row ∈ table.rows, row.prefixByte = prefixByte ∧ row.opcode = opcode ∧ row.record = record := by
  simp only [RowTable.rowsAt, List.mem_map, List.mem_filter, Bool.and_eq_true, beq_iff_eq]
  constructor
  · rintro ⟨row, ⟨hmem, hlead, hopcode⟩, hrecord⟩
    exact ⟨row, hmem, hlead, hopcode, hrecord⟩
  · rintro ⟨row, hmem, hlead, hopcode, hrecord⟩
    exact ⟨row, ⟨hmem, hlead, hopcode⟩, hrecord⟩

theorem findRecord_spec {rows : List Record} (h : findRecord rows engine = some record) :
    record ∈ rows ∧ record.accepted engine = true := by
  rcases (Option.orElse_eq_some _ _ _).1 h with hfound | ⟨-, hfound⟩
  · have haccepted := List.find?_some hfound
    simp only [Bool.and_eq_true] at haccepted
    exact ⟨List.mem_of_find?_eq_some hfound, haccepted.1.1⟩
  · have haccepted := List.find?_some hfound
    exact ⟨List.mem_of_find?_eq_some hfound, haccepted⟩

theorem findRecord_of_mem {rows : List Record} (hmem : record ∈ rows)
    (haccepted : record.accepted engine = true) : ∃ found, findRecord rows engine = some found := by
  cases hfind : findRecord rows engine with
  | some found => exact ⟨found, rfl⟩
  | none =>
    have hnone := ((Option.orElse_eq_none _ _).1 hfind).2
    exact absurd haccepted (List.find?_eq_none.1 hnone record hmem)

theorem RowTable.eq_of_id {row' : Row} (hrow : row ∈ table.rows) (hrow' : row' ∈ table.rows)
    (hid : row.record.id = row'.record.id) : row = row' :=
  List.inj_on_of_nodup_map table.ids hrow hrow' hid

theorem findRow_of_id (hrow : row ∈ table.rows) (hmode : inst.mode = engine.config.mode)
    (haccepted : row.record.accepted engine = true) (hid : inst.id = row.record.id) :
    findRow table.rows engine inst = some row := by
  rw [Record.accepted, Bool.and_eq_true] at haccepted
  have hhas : (row.hasId inst && engine.featuresMatch row.record.featureBits) = true := by
    simp [Row.hasId, hid, hmode, table.id_ne_zero row hrow, haccepted.1, haccepted.2]
  unfold findRow findRecordById
  cases hfind : table.rows.find? fun row => row.hasId inst && engine.featuresMatch row.record.featureBits with
  | none => exact absurd hhas (List.find?_eq_none.1 hfind row hrow)
  | some found =>
    have hfound := List.find?_some hfind
    simp only [Row.hasId, Bool.and_eq_true, beq_iff_eq] at hfound
    rw [table.eq_of_id hrow (List.mem_of_find?_eq_some hfind) (hid.symm.trans hfound.1.1.2.symm)]
    rfl

theorem findRow_spec (hmode : inst.mode = engine.config.mode)
    (h : findRow table.rows engine inst = some row) :
    row ∈ table.rows ∧ row.record.accepted engine = true := by
  rcases (Option.orElse_eq_some _ _ _).1 h with hfound | ⟨-, hfound⟩
  · have hrow := List.find?_some hfound
    simp only [Row.hasId, Bool.and_eq_true] at hrow
    refine ⟨List.mem_of_find?_eq_some hfound, ?_⟩
    rw [Record.accepted, ← hmode, hrow.1.2, hrow.2]
    rfl
  · have hmem : row ∈ table.rows.filter fun row =>
        row.record.matchesInst inst && engine.featuresMatch row.record.featureBits := by
      rcases (Option.orElse_eq_some _ _ _).1 hfound with hfirst | ⟨-, hfirst⟩
      · exact List.mem_of_find?_eq_some hfirst
      · exact List.mem_of_mem_head? hfirst
    obtain ⟨hrow, hmatches⟩ := List.mem_filter.1 hmem
    simp only [Record.matchesInst, Bool.and_eq_true] at hmatches
    refine ⟨hrow, ?_⟩
    rw [Record.accepted, ← hmode, hmatches.1.1.1.1.1, hmatches.2]
    rfl

/-! ## Instructions -/

/-- The instruction of a record. -/
def rowInst (engine : Engine) (code : List Byte) (address : BitVec 64) (record : Record)
    (operands : List Operand) (size : Nat) : Inst :=
  { finish engine code address size with
    id := record.id, mnemonicId := record.mnemonicId, instClass := record.instClass
    flags := record.flags, operands }

def ModeOk (engine : Engine) : Prop := engine.config.mode = .wasm32 ∨ engine.config.mode = .wasm64

theorem decodeOne_row (hdec : decodeOne table.rowsAt engine code address = .ok inst)
    (hnamed : inst.mnemonicId ≠ Mnemonic.other) :
    ModeOk engine ∧ ∃ row ∈ table.rows, ∃ off operands stop,
      parseOpcode code = some (row.prefixByte, row.opcode, off) ∧
      findRecord (table.rowsAt row.prefixByte row.opcode) engine = some row.record ∧
      decodeOperands code row.record.operandCodes 0 off = some (operands, stop) ∧
      inst = rowInst engine code address row.record operands stop := by
  unfold decodeOne at hdec
  split at hdec
  · cases hdec
  · next hhead =>
    have hmode : ModeOk engine := by
      by_contra hnot
      exact hhead (.inl (not_or.1 hnot))
    cases hparse : parseOpcode code with
    | none => simp [hparse] at hdec
    | some parsed =>
      obtain ⟨prefixByte, opcode, off⟩ := parsed
      simp only [hparse, decodeOpcode] at hdec
      cases hfind : findRecord (table.rowsAt prefixByte opcode) engine with
      | none =>
        simp only [hfind] at hdec
        split at hdec
        · cases hdec
        · cases hdec
          exact absurd rfl hnamed
      | some record =>
        simp only [hfind] at hdec
        cases hops : decodeOperands code record.operandCodes 0 off with
        | none => simp [hops] at hdec
        | some decoded =>
          obtain ⟨operands, stop⟩ := decoded
          simp only [hops] at hdec
          cases hdec
          obtain ⟨row, hrow, rfl, rfl, rfl⟩ := mem_rowsAt.1 (findRecord_spec hfind).1
          exact ⟨hmode, row, hrow, off, operands, stop, rfl, hfind, hops, rfl⟩

theorem decodeOne_of_row (hmode : ModeOk engine) (hcode : code ≠ [])
    (hparse : parseOpcode code = some (prefixByte, opcode, off))
    (hfind : findRecord (table.rowsAt prefixByte opcode) engine = some record)
    (hops : decodeOperands code record.operandCodes 0 off = some (operands, stop)) :
    decodeOne table.rowsAt engine code address =
      .ok (rowInst engine code address record operands stop) := by
  have hhead : ¬ (engine.config.mode ≠ .wasm32 ∧ engine.config.mode ≠ .wasm64 ∨ code.length = 0) := by
    rintro (⟨h32, h64⟩ | hlen)
    · exact hmode.elim h32 h64
    · exact hcode (List.length_eq_zero_iff.1 hlen)
  simp only [decodeOne, if_neg hhead, hparse, decodeOpcode, hfind, hops, rowInst]

/-! ## Bytes of a row -/

/-- The bytes that the encoder leaves for operands under a row. -/
def Row.bytes (row : Row) (operands : List Operand) : List Byte :=
  row.opcodeBytes ++ writeOperands operands row.record.operandCodes 0

theorem Row.length_bytes (hrow : row ∈ table.rows)
    (hsize : operandsSize operands row.record.operandCodes 0 = some n) :
    (row.bytes operands).length = row.opcodeSize + n := by
  have hopcode := (parseOpcode_opcodeBytes hrow []).2
  rw [Row.bytes, List.length_append, hopcode, (decodeOperands_alone hsize).2]

theorem encodeRow_of_size (hrow : row ∈ table.rows) (inst : Inst)
    (hsize : operandsSize inst.operands row.record.operandCodes 0 = some n) (capacity : Nat) :
    encodeRow row inst capacity = encodeBytes (row.bytes inst.operands) capacity := by
  rw [encodeBytes, row.length_bytes hrow hsize]
  simp only [encodeRow, hsize, Row.bytes]

theorem encodeRow_ok (hok : (encodeRow row inst capacity).status = .ok) :
    ∃ n, operandsSize inst.operands row.record.operandCodes 0 = some n := by
  unfold encodeRow at hok
  cases hsize : operandsSize inst.operands row.record.operandCodes 0 with
  | none =>
    simp only [hsize] at hok
    cases hok
  | some n => exact ⟨n, rfl⟩

theorem readBackAll_size (hsize : operandsSize operands row.record.operandCodes 0 = some n) :
    ∃ m, operandsSize (readBackAll operands row.record.operandCodes 0) row.record.operandCodes 0 =
      some m := by
  obtain ⟨m, hagain, -⟩ := operandsSize_of_decode [] (decodeOperands_alone hsize).1
  exact ⟨m, hagain⟩

theorem bytes_readBackAll {row' : Row} (hlead : row'.prefixByte = row.prefixByte)
    (hopcode : row'.opcode = row.opcode) (hcodes : row'.record.operandCodes = row.record.operandCodes) :
    row'.bytes (readBackAll operands row.record.operandCodes 0) = row.bytes operands := by
  have hops := writeOperands_readBackAll operands row.record.operandCodes []
  rw [List.nil_append, List.length_nil] at hops
  rw [Row.bytes, Row.bytes, hcodes, hops, Row.opcodeBytes, Row.opcodeBytes, hlead, hopcode]

theorem decodeOne_bytes (hmode : ModeOk engine) (hrow : row ∈ table.rows)
    (hsize : operandsSize operands row.record.operandCodes 0 = some n)
    (hfind : findRecord (table.rowsAt row.prefixByte row.opcode) engine = some record)
    (tail : List Byte) (address : BitVec 64) :
    decodeOne table.rowsAt engine (row.bytes operands ++ tail) address =
      .ok (rowInst engine (row.bytes operands ++ tail) address record
        (readBackAll operands row.record.operandCodes 0) (row.bytes operands).length) := by
  obtain ⟨row', hrow', hlead, hopcode, rfl⟩ := mem_rowsAt.1 (findRecord_spec hfind).1
  have hcodes := (table.shared row' hrow' row hrow hlead hopcode).1
  obtain ⟨hparse, hlen⟩ := parseOpcode_opcodeBytes hrow
    (writeOperands operands row.record.operandCodes 0 ++ tail)
  rw [← List.append_assoc, ← Row.bytes] at hparse
  have hdrop : (row.bytes operands ++ tail).drop row.opcodeSize =
      writeOperands operands row.record.operandCodes 0 ++ tail := by
    rw [Row.bytes, List.append_assoc, ← hlen, List.drop_left]
  obtain ⟨hops, -⟩ := decodeOperands_writeOperands hsize hdrop
  have hstop := (row.length_bytes hrow hsize).symm
  rw [hstop, ← hcodes] at hops
  have hne : row.bytes operands ++ tail ≠ [] := by
    have hpos : 0 < row.opcodeSize := by
      unfold Row.opcodeSize
      split <;> omega
    intro hnil
    have hzero := congrArg List.length hnil
    rw [List.length_append, ← hstop, List.length_nil] at hzero
    omega
  rw [decodeOne_of_row hmode hne hparse hfind hops, hcodes]

/-! ## What the metadata leaves alone -/

section

variable {f : Operand → Operand} (himm : ∀ o, (f o).imm = o.imm)

include himm

theorem operandAt_map_imm (operands : List Operand) (operandCode : OperandCode) (i : Nat) :
    (operandAt (operands.map f) operandCode i).imm = (operandAt operands operandCode i).imm := by
  unfold operandAt
  rw [List.length_map]
  split
  · rfl
  · rw [List.getD_eq_getElem?_getD, List.getD_eq_getElem?_getD, List.getElem?_map]
    cases operands[i]? with
    | none => rfl
    | some operand => exact himm operand

theorem operandsSize_map (operands : List Operand) (operandCodes : List OperandCode) (i : Nat) :
    operandsSize (operands.map f) operandCodes i = operandsSize operands operandCodes i := by
  induction operandCodes generalizing i with
  | nil => rfl
  | cons operandCode operandCodes ih =>
    simp only [operandsSize, ih,
      operandEncodedSize_congr (operandAt_map_imm himm operands operandCode i) operandCode]

theorem writeOperands_map (operands : List Operand) (operandCodes : List OperandCode) (i : Nat) :
    writeOperands (operands.map f) operandCodes i = writeOperands operands operandCodes i := by
  induction operandCodes generalizing i with
  | nil => rfl
  | cons operandCode operandCodes ih =>
    simp only [writeOperands, ih,
      writeOperand_congr (operandAt_map_imm himm operands operandCode i) operandCode]

theorem Row.bytes_map (row : Row) (operands : List Operand) :
    row.bytes (operands.map f) = row.bytes operands := by
  rw [Row.bytes, Row.bytes, writeOperands_map himm]

end

/-! ## The encoder -/

theorem encodeInst_of_row (harch : inst.arch = .wasm) (hinst : inst.mode = engine.config.mode)
    (hmode : ModeOk engine) (hfind : findRow table.rows engine inst = some row) :
    encodeInst table.rows engine inst capacity = encodeRow row inst capacity := by
  have hknown : ¬ (inst.mode ≠ .wasm32 ∧ inst.mode ≠ .wasm64) := by
    rw [hinst]
    rintro ⟨h32, h64⟩
    exact hmode.elim h32 h64
  unfold encodeInst
  rw [if_neg (by simp [harch, hinst, hinst ▸ hknown])]
  simp only [hfind]

theorem encodeInst_ok (hok : (encodeInst table.rows engine inst capacity).status = .ok) :
    ModeOk engine ∧ ∃ row, findRow table.rows engine inst = some row ∧ row ∈ table.rows ∧
      row.record.accepted engine = true ∧
      encodeInst table.rows engine inst capacity = encodeRow row inst capacity := by
  unfold encodeInst at hok ⊢
  split at hok
  · cases hok
  · next hhead =>
    rw [not_or, not_or, not_not, not_not, not_and_or, not_not, not_not] at hhead
    obtain ⟨harch, hmode, hknown⟩ := hhead
    cases hfind : findRow table.rows engine inst with
    | none =>
      simp only [hfind] at hok
      split at hok <;> cases hok
    | some row =>
      obtain ⟨hrow, haccepted⟩ := findRow_spec hmode hfind
      have hmodeOk : ModeOk engine := by
        rw [hmode] at hknown
        exact hknown
      refine ⟨hmodeOk, row, rfl, hrow, haccepted, ?_⟩
      rw [if_neg]
      rw [not_or, not_or, not_not, not_not, not_and_or, not_not, not_not]
      exact ⟨harch, hmode, hknown⟩

end AsmKit.Wasm
