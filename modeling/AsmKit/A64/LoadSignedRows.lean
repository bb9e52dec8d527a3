import AsmKit.A64.Origin
import AsmKit.A64.RowDecode
import AsmKit.Analysis.Extend
import AsmKit.Decode.Block

/-!
# The rows of `ldrsb`, `ldrsh` and `ldrsw`

What the decoder makes of the signed loads: a register from memory, or from a literal.
-/

namespace AsmKit.A64

open BitPattern

/-! ## The rows -/

inductive LoadForm where
  | post | pre | roW | roX | ui
deriving DecidableEq, Repr

namespace LoadForm

def writesBack : LoadForm → Bool
  | post | pre => true
  | roW | roX | ui => false

def mask : LoadForm → BitVec 32
  | post | pre => 0xffe00c00
  | roW | roX => 0xffe06c00
  | ui => 0xffc00000

def value : LoadForm → BitVec 32
  | post => 0x00000400
  | pre => 0x00000c00
  | roW => 0x00204800
  | roX => 0x00206800
  | ui => 0x01000000

def fixedBits : LoadForm → Nat
  | post | pre => 13
  | roW | roX => 15
  | ui => 10

/-- The place among the rows of one load. -/
def place : LoadForm → Nat
  | post => 0
  | pre => 1
  | roW => 2
  | roX => 3
  | ui => 4

end LoadForm

/-- A load of `2 ^ size` bytes. -/
structure LoadSigned where
  size : Nat
  wide : Bool
  form : LoadForm
deriving DecidableEq, Repr

def gprDesc (operandIndex width : Nat) (reg31IsSp : Bool := false) : OperandDesc :=
  { operandIndex, kind := .reg, width, reg31IsSp, regClass := .gpr, sourceMask := 0x1f }

namespace LoadSigned

variable (l : LoadSigned)

def width : Nat := if l.wide then 64 else 32

/-- The displacement of a load without write-back, in units of the bytes loaded. -/
def dispDesc : OperandDesc :=
  if l.size = 0 then { operandIndex := 2, kind := .imm, width := 32, sourceMask := 0xfff }
  else
    { operandIndex := 2, kind := .imm, width := 32, transform := .rawUnsignedScaled, sourceMask := 0xfff
      literalValue := 1 <<< l.size }

def descs : List OperandDesc :=
  match l.form with
  | .post | .pre =>
    [gprDesc 0 64 true, gprDesc 1 l.width,
      { operandIndex := 2, kind := .imm, width := 32, transform := .rawSigned, sourceMask := 0x1ff }]
  | .roW | .roX =>
    [gprDesc 0 l.width, gprDesc 1 64 true, gprDesc 2 (if l.form = .roW then 32 else 64),
      { operandIndex := 3, kind := .opaque_, width := 2, sourceMask := 3 }]
  | .ui => [gprDesc 0 l.width, gprDesc 1 64 true, l.dispDesc]

def pieces : List Piece :=
  match l.form with
  | .post | .pre => pieceRun 1 0 0 5 ++ pieceRun 0 0 5 5 ++ pieceRun 2 0 12 9
  | .roW | .roX =>
    pieceRun 0 0 0 5 ++ pieceRun 1 0 5 5 ++ pieceRun 3 0 12 1 ++ pieceRun 3 1 15 1 ++ pieceRun 2 0 16 5
  | .ui => pieceRun 0 0 0 5 ++ pieceRun 1 0 5 5 ++ pieceRun 2 0 10 12

def record : Record :=
  { id := (if l.size = 2 then 68977 else 68956 + 10 * l.size + if l.wide then 5 else 0) + l.form.place
    mnemonicId := Mnemonic.base + 719 + l.size
    mask := l.form.mask
    value := BitVec.ofNat 32 l.size <<< 30 ||| 0x38000000 |||
      (if l.wide then 0x00800000 else 0x00c00000) ||| l.form.value
    fixedBits := l.form.fixedBits, instClass := .load, flags := 0, descs := l.descs, pieces := l.pieces }

def infos : List OperandInfo :=
  let read := OperandFlag.explicit ||| OperandFlag.read
  let written := OperandFlag.explicit ||| OperandFlag.write
  match l.form with
  | .post | .pre => [⟨written ||| OperandFlag.read, 64⟩, ⟨written, l.width⟩, ⟨read ||| OperandFlag.signed, 32⟩]
  | .roW | .roX =>
    [⟨written, l.width⟩, ⟨read, 64⟩, ⟨read, if l.form = .roW then 32 else 64⟩, ⟨read, 8 <<< l.size⟩]
  | .ui => [⟨written, l.width⟩, ⟨read, 64⟩, ⟨read, 32⟩]

end LoadSigned

/-- A word is only loaded into a wide register. -/
def loadSignedRows : List LoadSigned :=
  [(0, false), (0, true), (1, false), (1, true), (2, true)].flatMap fun (size, wide) =>
    [LoadForm.post, .pre, .roW, .roX, .ui].map fun form => ⟨size, wide, form⟩

/-- `ldrsw` of a literal. -/
def ldrswLiteralRow : PcRelRow :=
  literalRow 68976 Mnemonic.ldrsw 0x98000000 (regDesc .gpr 64) .load 0

def ldrswLiteralInfos : List OperandInfo :=
  [⟨OperandFlag.explicit ||| OperandFlag.write, 64⟩,
    ⟨OperandFlag.explicit ||| OperandFlag.read ||| OperandFlag.relative ||| OperandFlag.signed, 0⟩]

/-- What the tables say of the signed loads. -/
structure LoadSignedRows (tables : AsmKit.Tables) : Prop where
  row : ∀ w, ∀ candidate ∈ tables.a64.candidates w, isLoadSigned candidate.2.mnemonicId →
    (∃ l ∈ loadSignedRows, candidate.2 = l.record) ∨ candidate.2 = ldrswLiteralRow.record
  infos : ∀ l ∈ loadSignedRows, tables.operandInfos .aarch64 l.record.id = l.infos
  literalInfos : tables.operandInfos .aarch64 ldrswLiteralRow.id = ldrswLiteralInfos
  writeback : ∀ l ∈ loadSignedRows,
    tables.a64.hasWritebackBaseFirst l.record.id = l.form.writesBack

instance (record : Record) : Decidable record.MatchesBti := inferInstanceAs (Decidable (_ ∨ _ ∨ _ ∨ _))

theorem loadSigned_wellFormed : ∀ l ∈ loadSignedRows, l.record.WellFormed := by
  have hall : ∀ l ∈ loadSignedRows, l.record.descs ≠ [] ∧ l.record.indicesOk = true ∧
      l.record.descs.map (·.operandIndex) = List.range' 0 l.record.descs.length ∧
      ¬ l.record.MatchesBti := by decide
  intro l hmem
  obtain ⟨hne, hok, hordered, hbti⟩ := hall l hmem
  exact ⟨hne, hok, hordered, rfl, hbti⟩

theorem loadSigned_cases : ∀ l ∈ loadSignedRows, (l.size = 0 ∨ l.size = 1 ∨ l.size = 2) ∧
    l.record.value &&& 0x3a000000 = 0x38000000 ∧ l.record.mask &&& 0x3a000000 = 0x3a000000 ∧
    l.record.mask &&& 0xc0000000 = 0xc0000000 ∧
    (8 <<< ((l.record.value >>> 30) &&& 3).toNat) = 8 <<< l.size := by decide

/-! ## Registers and memory -/

theorem operandIsGpr64Base_tdGprId {encoding : Nat} (h : encoding ≤ 31) (index : Nat) :
    operandIsGpr64Base ((Operand.ofReg (tdGprId encoding 64 true) 64).atIndex index) = true := by
  have hreg : Reg.x0 ≤ tdGprId encoding 64 true ∧ tdGprId encoding 64 true ≤ Reg.x28 ∨
      tdGprId encoding 64 true = Reg.fp ∨ tdGprId encoding 64 true = Reg.lr ∨
      tdGprId encoding 64 true = Reg.sp := by
    simp only [tdGprId, Nat.not_lt.2 h, if_false, if_true, Reg.x0, Reg.x28, Reg.fp, Reg.lr, Reg.sp]
    split_ifs <;> omega
  have hbase : ∀ o : Operand, o.kind = .reg → o.width = 64 →
      (Reg.x0 ≤ o.reg ∧ o.reg ≤ Reg.x28 ∨ o.reg = Reg.fp ∨ o.reg = Reg.lr ∨ o.reg = Reg.sp) →
      operandIsGpr64Base o = true := by
    intro o hkind hwidth hreg
    simpa [operandIsGpr64Base, hkind, hwidth, or_assoc] using hreg
  exact hbase _ rfl rfl hreg

theorem decodeTdOperand_gprDesc (record : Record) (w : BitVec 32) (address : BitVec 64)
    (operandIndex : Nat) {width : Nat} (hwidth : width = 32 ∨ width = 64) (isSp : Bool) :
    ∃ encoding ≤ 31, decodeTdOperand record w address (gprDesc operandIndex width isSp) =
      some (Operand.ofReg (tdGprId encoding width isSp) width) := by
  have hgpr := @tdDecodeRegOperand_gpr (gprDesc operandIndex width isSp)
    (tdOperandValue record w operandIndex) rfl hwidth rfl rfl
  exact ⟨_, and_0x1f_le _, hgpr⟩

theorem decodeTdOperand_immDesc (record : Record) (w : BitVec 32) (address : BitVec 64)
    {desc : OperandDesc} (hkind : desc.kind = .imm)
    (htransform : desc.transform = .rawSigned ∨ desc.transform = .rawUnsigned ∨
      desc.transform = .rawUnsignedScaled ∧ desc.literalValue ≠ 0) :
    ∃ imm, decodeTdOperand record w address desc = some (Operand.ofImm imm desc.width) := by
  rcases htransform with h | h | ⟨h, hliteral⟩
  · exact ⟨_, by simp only [decodeTdOperand, hkind, tdImmValue, h]; rfl⟩
  · exact ⟨_, by simp only [decodeTdOperand, hkind, tdImmValue, h]; rfl⟩
  · have himm : ∀ value, tdImmValue value desc =
        some (value.setWidth 64 * desc.literalValue.setWidth 64) := by
      intro value
      simp only [tdImmValue, h]
      exact if_pos hliteral
    exact ⟨_, by simp only [decodeTdOperand, hkind, himm]; rfl⟩

section

variable {tables : Tables} {record : Record} {w : BitVec 32} (hload : record.instClass = .load)
  (hword : w &&& 0x3a000000 ≠ 0x28000000)

include hload hword

theorem fold_writeback (hwriteback : tables.hasWritebackBaseFirst record.id = true)
    {base data disp : Operand} (hbase : operandIsGpr64Base base = true) (hdata : data.kind = .reg)
    (hdisp : disp.kind = .imm) :
    foldTdMemoryOperands tables record w [base, data, disp] =
      [data, memOperand base.reg 0 1 disp.imm (memoryAccessWidth w (some data)) writebackFlags 0] := by
  unfold foldTdMemoryOperands replaceWritebackBaseDispMemory
  simp [hload, hwriteback, hbase, hdata, hdisp]
  exact hword

theorem fold_baseDisp (hwriteback : tables.hasWritebackBaseFirst record.id = false)
    (hprefetch : record.isPrefetchMemory = false) {base data disp : Operand}
    (hbase : operandIsGpr64Base base = true) (hdata : data.kind = .reg) (hdisp : disp.kind = .imm) :
    foldTdMemoryOperands tables record w [data, base, disp] =
      [data, memOperand base.reg 0 1 disp.imm (memoryAccessWidth w (some data)) loadFlags 1] := by
  unfold foldTdMemoryOperands replaceBaseDispMemory
  simp [hload, hwriteback, hprefetch, hbase, hdata, hdisp, dataOperand, removeOperands]
  exact hword

theorem fold_baseIndex (hwriteback : tables.hasWritebackBaseFirst record.id = false)
    {base data index option : Operand} (hbase : operandIsGpr64Base base = true)
    (hdata : data.kind = .reg) (hindex : index.kind = .reg) (hoption : option.kind = .opaque_) :
    ∃ scale, foldTdMemoryOperands tables record w [data, base, index, option] =
      [data, memOperand base.reg index.reg scale 0 (memoryAccessWidth w (some data)) loadFlags 1] := by
  have hno : operandIsGpr64Base option = false := by simp [operandIsGpr64Base, hoption]
  unfold foldTdMemoryOperands replaceBaseIndexMemory
  simp [hload, hwriteback, hbase, hdata, hindex, hoption, hno, dataOperand, removeOperands]
  exact ⟨_, if_neg hword⟩

end

/-- What a signed load is decoded to, without what the table adds. -/
structure LoadDecoded (l : LoadSigned) (inst : Inst) (dst src : Operand) : Prop where
  id : inst.id = l.record.id
  instClass : inst.instClass = .load
  operands : inst.operands = [dst, src]
  dst_kind : dst.kind = .reg
  src_kind : src.kind = .mem
  dst_width : dst.width = l.width
  src_width : src.width = 8 <<< l.size
  indices : dst.operandIndex = (if l.form.writesBack then 1 else 0) ∧
    src.operandIndex = if l.form.writesBack then 0 else 1
  dst_flags : dst.flags = 0

section

variable {tables : Tables} {engine : Engine} {code : List Byte} {address : BitVec 64} {inst : Inst}
  {l : LoadSigned}

theorem LoadSigned.width_cases (l : LoadSigned) : l.width = 32 ∨ l.width = 64 := by
  unfold width
  cases l.wide
  · exact .inl rfl
  · exact .inr rfl

theorem memoryAccessWidth_loadSigned (hmem : l ∈ loadSignedRows) {w : BitVec 32}
    (hw : w &&& l.record.mask = l.record.value) {data : Operand} (hdata : data.width ≤ 64) :
    memoryAccessWidth w (some data) = 8 <<< l.size := by
  obtain ⟨-, -, -, hsize, hwidth⟩ := loadSigned_cases l hmem
  have hfield : w &&& 0xc0000000 = l.record.value &&& 0xc0000000 := and_eq_of_refines hw hsize rfl
  have htop : ∀ v : BitVec 32, (v >>> 30) &&& (3 : BitVec 32) = (v &&& 0xc0000000) >>> 30 := by
    intro v
    rw [BitVec.ushiftRight_and_distrib]
    rfl
  rw [memoryAccessWidth, if_neg (by omega), htop, hfield, ← htop, hwidth]

theorem loadSigned_prefetch : ∀ l ∈ loadSignedRows, l.record.isPrefetchMemory = false := by decide

theorem loadSigned_word (hmem : l ∈ loadSignedRows) {w : BitVec 32}
    (hw : w &&& l.record.mask = l.record.value) : w &&& 0x3a000000 ≠ 0x28000000 := by
  obtain ⟨-, hvalue, hmask, -⟩ := loadSigned_cases l hmem
  rw [and_eq_of_refines hw hmask hvalue]
  decide

theorem decodeTdOperand_dispDesc (hmem : l ∈ loadSignedRows) (record : Record) (w : BitVec 32)
    (address : BitVec 64) :
    ∃ imm, decodeTdOperand record w address l.dispDesc = some (Operand.ofImm imm 32) := by
  unfold LoadSigned.dispDesc
  split
  · exact decodeTdOperand_immDesc record w address rfl (.inr (.inl rfl))
  · have hscale : (1 <<< l.size : BitVec 32) ≠ 0 := by
      obtain ⟨hsize, -⟩ := loadSigned_cases l hmem
      rcases hsize with h | h | h <;> rw [h] <;> decide
    exact decodeTdOperand_immDesc record w address rfl (.inr (.inr ⟨rfl, hscale⟩))

section

variable (hmem : l ∈ loadSignedRows)
  (hwriteback : tables.hasWritebackBaseFirst l.record.id = l.form.writesBack)
  (hw : load32le code &&& l.record.mask = l.record.value)
  (hdec : finishTd tables engine code address l.record = .ok inst)

include hmem hwriteback hw hdec

theorem finishTd_writeback (hform : l.form = .post ∨ l.form = .pre) :
    ∃ dst src, LoadDecoded l inst dst src := by
  obtain ⟨n, hn, hbase⟩ := decodeTdOperand_gprDesc l.record (load32le code) address 0 (.inr rfl) true
  obtain ⟨d, -, hdata⟩ := decodeTdOperand_gprDesc l.record (load32le code) address 1 l.width_cases false
  have hdisp : ∃ imm, decodeTdOperand l.record (load32le code) address
      { operandIndex := 2, kind := .imm, width := 32, transform := .rawSigned, sourceMask := 0x1ff } =
      some (Operand.ofImm imm 32) := decodeTdOperand_immDesc _ _ _ rfl (.inl rfl)
  obtain ⟨imm, himm⟩ := hdisp
  have hdescs : l.record.descs = [gprDesc 0 64 true, gprDesc 1 l.width,
      { operandIndex := 2, kind := .imm, width := 32, transform := .rawSigned, sourceMask := 0x1ff }] := by
    unfold LoadSigned.record LoadSigned.descs
    rcases hform with h | h <;> rw [h]
  have hwrites : l.form.writesBack = true := by
    rcases hform with h | h <;> rw [h] <;> rfl
  have hops : l.record.descs.map (decodeTdOperand l.record (load32le code) address) =
      [Operand.ofReg (tdGprId n 64 true) 64, Operand.ofReg (tdGprId d l.width false) l.width,
        Operand.ofImm imm 32].map some := by
    rw [hdescs]
    exact congrArg₂ List.cons hbase (congrArg₂ List.cons hdata (congrArg₂ List.cons himm rfl))
  obtain ⟨-, hclass, hid, hfolded⟩ := finishTd_of_operands (loadSigned_wellFormed l hmem) hops hdec
  have hfold := @fold_writeback tables l.record (load32le code) rfl (loadSigned_word hmem hw)
    (hwriteback.trans hwrites) _ _ ((Operand.ofImm imm 32).atIndex 2) (operandIsGpr64Base_tdGprId hn 0)
    (by rfl : ((Operand.ofReg (tdGprId d l.width false) l.width).atIndex 1).kind = .reg) rfl
  have hnarrow : l.width ≤ 64 := by
    rcases l.width_cases with h | h <;> omega
  exact ⟨_, _, hid, hclass, hfolded.trans hfold, rfl, rfl, rfl,
    memoryAccessWidth_loadSigned hmem hw hnarrow, by simp [hwrites, memOperand, Operand.atIndex], rfl⟩

theorem finishTd_index (hform : l.form = .roW ∨ l.form = .roX) :
    ∃ dst src, LoadDecoded l inst dst src := by
  generalize hwidth : (if l.form = .roW then 32 else 64) = width
  have hindexWidth : width = 32 ∨ width = 64 := by
    rcases hform with h | h <;> rw [h] at hwidth <;> simp [← hwidth]
  obtain ⟨d, -, hdata⟩ := decodeTdOperand_gprDesc l.record (load32le code) address 0 l.width_cases false
  obtain ⟨n, hn, hbase⟩ := decodeTdOperand_gprDesc l.record (load32le code) address 1 (.inr rfl) true
  obtain ⟨m, -, hindex⟩ := decodeTdOperand_gprDesc l.record (load32le code) address 2 hindexWidth false
  have hdescs : l.record.descs = [gprDesc 0 l.width, gprDesc 1 64 true, gprDesc 2 width,
      { operandIndex := 3, kind := .opaque_, width := 2, sourceMask := 3 }] := by
    unfold LoadSigned.record LoadSigned.descs
    rcases hform with h | h <;> simp only [h] at hwidth ⊢ <;> rw [← hwidth]
  have hwrites : l.form.writesBack = false := by
    rcases hform with h | h <;> rw [h] <;> rfl
  generalize hoption : Operand.ofOpaque
    ((tdOperandValue l.record (load32le code) 3).setWidth 64) 2 = option
  have hops : l.record.descs.map (decodeTdOperand l.record (load32le code) address) =
      [Operand.ofReg (tdGprId d l.width false) l.width, Operand.ofReg (tdGprId n 64 true) 64,
        Operand.ofReg (tdGprId m width false) width, option].map some := by
    rw [hdescs, ← hoption]
    exact congrArg₂ List.cons hdata (congrArg₂ List.cons hbase (congrArg₂ List.cons hindex rfl))
  obtain ⟨-, hclass, hid, hfolded⟩ := finishTd_of_operands (loadSigned_wellFormed l hmem) hops hdec
  obtain ⟨scale, hfold⟩ := @fold_baseIndex tables l.record (load32le code) rfl
    (loadSigned_word hmem hw) (hwriteback.trans hwrites) _
    ((Operand.ofReg (tdGprId d l.width false) l.width).atIndex 0)
    ((Operand.ofReg (tdGprId m width false) width).atIndex 2) (option.atIndex 3)
    (operandIsGpr64Base_tdGprId hn 1) rfl rfl (by rw [← hoption]; rfl)
  have hnarrow : l.width ≤ 64 := by
    rcases l.width_cases with h | h <;> omega
  exact ⟨_, _, hid, hclass, hfolded.trans hfold, rfl, rfl, rfl,
    memoryAccessWidth_loadSigned hmem hw hnarrow, by simp [hwrites, memOperand, Operand.atIndex], rfl⟩

theorem finishTd_disp (hform : l.form = .ui) : ∃ dst src, LoadDecoded l inst dst src := by
  obtain ⟨d, -, hdata⟩ := decodeTdOperand_gprDesc l.record (load32le code) address 0 l.width_cases false
  obtain ⟨n, hn, hbase⟩ := decodeTdOperand_gprDesc l.record (load32le code) address 1 (.inr rfl) true
  obtain ⟨imm, himm⟩ := decodeTdOperand_dispDesc hmem l.record (load32le code) address
  have hdescs : l.record.descs = [gprDesc 0 l.width, gprDesc 1 64 true, l.dispDesc] := by
    unfold LoadSigned.record LoadSigned.descs
    rw [hform]
  have hwrites : l.form.writesBack = false := by rw [hform]; rfl
  have hops : l.record.descs.map (decodeTdOperand l.record (load32le code) address) =
      [Operand.ofReg (tdGprId d l.width false) l.width, Operand.ofReg (tdGprId n 64 true) 64,
        Operand.ofImm imm 32].map some := by
    rw [hdescs]
    exact congrArg₂ List.cons hdata (congrArg₂ List.cons hbase (congrArg₂ List.cons himm rfl))
  obtain ⟨-, hclass, hid, hfolded⟩ := finishTd_of_operands (loadSigned_wellFormed l hmem) hops hdec
  have hfold := @fold_baseDisp tables l.record (load32le code) rfl (loadSigned_word hmem hw)
    (hwriteback.trans hwrites) (loadSigned_prefetch l hmem) _
    ((Operand.ofReg (tdGprId d l.width false) l.width).atIndex 0)
    ((Operand.ofImm imm 32).atIndex 2) (operandIsGpr64Base_tdGprId hn 1) rfl rfl
  have hnarrow : l.width ≤ 64 := by
    rcases l.width_cases with h | h <;> omega
  exact ⟨_, _, hid, hclass, hfolded.trans hfold, rfl, rfl, rfl,
    memoryAccessWidth_loadSigned hmem hw hnarrow, by simp [hwrites, memOperand, Operand.atIndex], rfl⟩

theorem finishTd_loadSigned : ∃ dst src, LoadDecoded l inst dst src := by
  cases hform : l.form with
  | post => exact finishTd_writeback hmem hwriteback hw hdec (.inl hform)
  | pre => exact finishTd_writeback hmem hwriteback hw hdec (.inr hform)
  | roW => exact finishTd_index hmem hwriteback hw hdec (.inl hform)
  | roX => exact finishTd_index hmem hwriteback hw hdec (.inr hform)
  | ui => exact finishTd_disp hmem hwriteback hw hdec hform

end

/-! ## Literals -/

/-- What `ldrsw` of a literal is decoded to, without what the table adds: no memory is named. -/
structure LiteralDecoded (inst : Inst) (dst src : Operand) : Prop where
  id : inst.id = ldrswLiteralRow.id
  instClass : inst.instClass = .load
  operands : inst.operands = [dst, src]
  dst_kind : dst.kind = .reg
  src_kind : src.kind = .pcRel
  dst_width : dst.width = 64
  indices : dst.operandIndex = 0 ∧ src.operandIndex = 1
  dst_flags : dst.flags = 0

theorem ldrswLiteral_wellFormed : ldrswLiteralRow.record.WellFormed :=
  ⟨by decide, by decide, by decide, rfl, by decide⟩

theorem finishTd_literal (hdec : finishTd tables engine code address ldrswLiteralRow.record = .ok inst) :
    ∃ dst src, LiteralDecoded inst dst src := by
  obtain ⟨d, -, hdata⟩ := decodeTdOperand_gprDesc ldrswLiteralRow.record (load32le code) address 0
    (.inr rfl) false
  generalize htarget : tdPcRelOperand address (tdOperandValue ldrswLiteralRow.record (load32le code) 1)
    (pcRelDesc 1 .imm19) = target
  have hops : ldrswLiteralRow.record.descs.map
        (decodeTdOperand ldrswLiteralRow.record (load32le code) address) =
      [Operand.ofReg (tdGprId d 64 false) 64, target].map some := by
    rw [← htarget]
    exact congrArg₂ List.cons hdata rfl
  have hkind : target.kind = .pcRel := by
    rw [← htarget]
    rfl
  obtain ⟨-, hclass, hid, hfolded⟩ := finishTd_of_operands ldrswLiteral_wellFormed hops hdec
  have hno : operandIsGpr64Base (target.atIndex 1) = false := by
    simp [operandIsGpr64Base, hkind]
  refine ⟨(Operand.ofReg (tdGprId d 64 false) 64).atIndex 0, target.atIndex 1, hid, hclass,
    hfolded.trans ?_, rfl, hkind, rfl, ⟨rfl, rfl⟩, rfl⟩
  unfold foldTdMemoryOperands
  simp [hno]

/-! ## Decoding -/

theorem finishTd_mnemonicId {record : Record}
    (h : finishTd tables engine code address record = .ok inst) :
    inst.mnemonicId = record.mnemonicId := by
  unfold finishTd at h
  simp only at h
  split at h
  · cases h
  · cases h
    rfl

theorem byHand_not_loadSigned :
    ∀ mnemonic ∈ (Id.bti :: fallbackIds).map mnemonicId, ¬ isLoadSigned mnemonic := by
  unfold isLoadSigned
  decide

theorem decodeOne_loadSigned {tables : AsmKit.Tables} (hrows : LoadSignedRows tables)
    (hdec : decodeOne tables.a64 engine code address = .ok inst)
    (hmnemonic : isLoadSigned inst.mnemonicId) :
    (∃ l ∈ loadSignedRows, ∃ dst src, LoadDecoded l inst dst src) ∨
      load32le code &&& ldrswLiteralRow.mask = ldrswLiteralRow.value ∧
        finishTd tables.a64 engine code address ldrswLiteralRow.record = .ok inst := by
  cases decodeOne_origin hdec with
  | bti operands => exact absurd hmnemonic (byHand_not_loadSigned _ List.mem_cons_self)
  | row hmem hpattern hrow =>
    rw [finishTd_mnemonicId hrow] at hmnemonic
    rcases hrows.row _ _ hmem hmnemonic with ⟨l, hl, heq⟩ | heq
    · subst heq
      exact .inl ⟨l, hl, finishTd_loadSigned hl (hrows.writeback l hl) hpattern hrow⟩
    · subst heq
      exact .inr ⟨hpattern, hrow⟩
  | fallback =>
    exact absurd hmnemonic
      (byHand_not_loadSigned _ (List.mem_cons_of_mem _ (decodeFallback_mnemonicId _)))

end

end AsmKit.A64
