import AsmKit.Bpf.ReadBack
import Mathlib.Data.List.Find
import Mathlib.Data.List.Nodup
import Mathlib.Data.Option.Basic

/-!
# BPF, encoded and decoded

What was encoded is decoded with its operands as they are read back, and a decoded instruction is
encoded back to itself just when none of its fields is a register's.
-/

namespace AsmKit.Bpf

open SignedField

variable {record record' : Record} {inst : Inst} {word blank : Word} {code tail : List Byte} {engine : Engine}
  {address : BitVec 64} {capacity : Nat}

/-! ## The table -/

/-- Rows that differ in their id and features alone, as those of one instruction with and without
32-bit registers do. -/
def Record.Alike (record record' : Record) : Prop :=
  record' = { record with id := record'.id, featureBits := record'.featureBits }

/-- A field that a row fixes is not one that its form fills. The encoder leaves a fixed source 0. -/
structure Record.FixedFree (record : Record) : Prop where
  off : record.matchOff = true → record.form.fillsOff = false
  imm : record.matchImm = true → record.form.fillsImm = false
  src : record.matchSrc = true → record.form.fillsSrc = false ∧ record.fixedSrc = 0

/-- The generated table, which the decoder and the encoder share. -/
structure RowTable where
  records : List Record
  ids : (records.map (·.id)).Nodup
  sizes : ∀ record ∈ records, record.size = if record.form = .ldImm64 then 16 else 8
  fixed : ∀ record ∈ records, record.FixedFree
  /-- Only rows that are alike share a word. -/
  alike : ∀ record ∈ records, ∀ record' ∈ records, ∀ code,
    record.matches code = true → record'.matches code = true → record.Alike record'

theorem alike_of_opcodes {records : List Record} (hopcodes : (records.map (·.opcode)).Nodup)
    (hmem : record ∈ records) (hmem' : record' ∈ records) (h : record.matches code = true)
    (h' : record'.matches code = true) : record.Alike record' := by
  simp only [Record.matches, Bool.and_eq_true, beq_iff_eq] at h h'
  rw [List.inj_on_of_nodup_map hopcodes hmem hmem' (h.1.1.1.trans h'.1.1.1.symm)]
  rfl

variable {table : RowTable}

theorem RowTable.size_cases (hmem : record ∈ table.records) : record.size = 8 ∨ record.size = 16 := by
  rw [table.sizes record hmem]
  split
  · exact .inr rfl
  · exact .inl rfl

theorem findInstRecord_spec {records : List Record} (h : findInstRecord records engine inst = some record) :
    record ∈ records ∧ engine.featuresMatch record.featureBits = true := by
  rcases (Option.orElse_eq_some _ _ _).1 h with hfound | ⟨-, hfound⟩
  · have hrow := List.find?_some hfound
    rw [Bool.and_eq_true] at hrow
    exact ⟨List.mem_of_find?_eq_some hfound, hrow.2⟩
  · have hrow := List.find?_some hfound
    rw [Bool.and_eq_true] at hrow
    exact ⟨List.mem_of_find?_eq_some hfound, hrow.2⟩

theorem findInstRecord_of_id (hmem : record ∈ table.records) (hid : inst.id = record.id)
    (hfeatures : engine.featuresMatch record.featureBits = true) :
    findInstRecord table.records engine inst = some record := by
  have hhas : (record.id == inst.id && engine.featuresMatch record.featureBits) = true := by
    simp [hid, hfeatures]
  unfold findInstRecord
  cases hfind : table.records.find? fun record =>
      record.id == inst.id && engine.featuresMatch record.featureBits with
  | none => exact absurd hhas (List.find?_eq_none.1 hfind record hmem)
  | some found =>
    have hfound := List.find?_some hfind
    rw [Bool.and_eq_true, beq_iff_eq, hid] at hfound
    rw [List.inj_on_of_nodup_map table.ids hmem (List.mem_of_find?_eq_some hfind) hfound.1.symm]
    rfl

/-! ## Words of a row -/

theorem matches_of_fills (hmem : record ∈ table.records) (h : Fills record inst word)
    (hcode : Holds code word) : record.matches code = true := by
  obtain ⟨hoff, himm, hsrc⟩ := table.fixed record hmem
  simp only [Record.matches, Bool.and_eq_true, Bool.or_eq_true, Bool.not_eq_true', beq_iff_eq]
  refine ⟨⟨⟨?_, ?_⟩, ?_⟩, ?_⟩
  · rw [hcode.opcode, h.opcode]
  · cases hmatch : record.matchOff with
    | false => exact .inl rfl
    | true =>
      rw [hcode.off, h.off (hoff hmatch), Record.blank, if_pos hmatch]
      exact .inr rfl
  · cases hmatch : record.matchImm with
    | false => exact .inl rfl
    | true =>
      rw [hcode.imm, h.imm (himm hmatch), Record.blank, if_pos hmatch]
      exact .inr rfl
  · cases hmatch : record.matchSrc with
    | false => exact .inl rfl
    | true =>
      rw [src, hcode.regs, h.src (hsrc hmatch).1, (hsrc hmatch).2]
      exact .inr rfl

theorem Record.Alike.operands (h : record.Alike record') (code : List Byte) (address : BitVec 64) :
    operands record' code address = operands record code address := by
  rw [h]
  rfl

/-- The instruction of a row. -/
def rowInst (engine : Engine) (code : List Byte) (address : BitVec 64) (record : Record) : Inst :=
  { finish engine code address record.size with
    id := record.id, mnemonicId := record.mnemonicId
    instClass := record.kind.meaning.1, flags := record.kind.meaning.2
    operands := operands record code address }

theorem decodeOne_of_record (hmode : engine.config.mode = .bpf64)
    (hfind : findRecord table.records engine code = some record) (hsize : record.size ≤ code.length) :
    decodeOne table.records engine code address = .ok (rowInst engine code address record) := by
  have hmem := List.mem_of_find?_eq_some hfind
  have hlen : 8 ≤ code.length := by
    rcases table.size_cases hmem with h8 | h16 <;> omega
  have hhead : ¬ (engine.config.mode ≠ .bpf64 ∨ code.length < 8) := by
    rw [not_or, not_not]
    exact ⟨hmode, Nat.not_lt.2 hlen⟩
  simp only [decodeOne, if_neg hhead, hfind, if_neg (Nat.not_lt.2 hsize), rowInst]

theorem eq_rowInst (hfind : findRecord table.records engine code = some record)
    (hdec : decodeOne table.records engine code address = .ok inst) :
    inst = rowInst engine code address record := by
  unfold decodeOne at hdec
  split at hdec
  · cases hdec
  · simp only [hfind] at hdec
    split at hdec
    · cases hdec
    · cases hdec
      rfl

theorem decodeOne_bytes (hmode : engine.config.mode = .bpf64) (hmem : record ∈ table.records)
    (hfeatures : engine.featuresMatch record.featureBits = true) (h : Fills record inst word)
    (tail : List Byte) : ∃ record', record.Alike record' ∧
      findRecord table.records engine (word.bytes record.size ++ tail) = some record' ∧
      decodeOne table.records engine (word.bytes record.size ++ tail) inst.address =
        .ok (rowInst engine (word.bytes record.size ++ tail) inst.address record') ∧
      operands record' (word.bytes record.size ++ tail) inst.address = readBack record inst := by
  have hsize := table.size_cases hmem
  have hcode := holds_bytes hsize word tail
  have hmatches := matches_of_fills hmem h hcode
  cases hfind : findRecord table.records engine (word.bytes record.size ++ tail) with
  | none =>
    have hnone := List.find?_eq_none.1 hfind record hmem
    rw [hmatches, hfeatures] at hnone
    exact absurd rfl hnone
  | some record' =>
    have hfound := List.find?_some hfind
    rw [Bool.and_eq_true] at hfound
    have halike := table.alike record hmem record' (List.mem_of_find?_eq_some hfind) _ hmatches hfound.1
    have hsame : record'.size = record.size := by rw [halike]
    refine ⟨record', halike, rfl, decodeOne_of_record hmode hfind ?_, ?_⟩
    · rw [hsame, List.length_append, length_bytes hsize]
      exact Nat.le_add_right _ _
    · rw [halike.operands]
      refine h.operands _ hcode fun hform => ?_
      rw [table.sizes record hmem, if_pos hform]
      exact high_bytes word tail

theorem findRecord_congr {code' : List Byte} (hmem : record ∈ table.records)
    (h : record.matches code = true) (h' : record.matches code' = true) :
    findRecord table.records engine code' = findRecord table.records engine code := by
  have hsame {row : Record} (hrow : row ∈ table.records) {c c' : List Byte} (hc : record.matches c = true)
      (hc' : record.matches c' = true) (hrowc : row.matches c = true) : row.matches c' = true := by
    rw [table.alike record hmem row hrow c hc hrowc]
    exact hc'
  refine List.find?_congr fun row hrow => ?_
  congr 1
  exact Bool.eq_iff_iff.2 ⟨hsame hrow h' h, hsame hrow h h'⟩

/-! ## The encoder -/

theorem encodeInst_ok (hok : (encodeInst table.records engine inst capacity).status = .ok) :
    engine.config.mode = .bpf64 ∧ ∃ record word, findInstRecord table.records engine inst = some record ∧
      record ∈ table.records ∧ engine.featuresMatch record.featureBits = true ∧
      encodeForm record inst = (.ok, word) ∧ encodeInst table.records engine inst capacity =
        { status := .ok, size := record.size, code := word.bytes record.size } := by
  unfold encodeInst at hok ⊢
  split at hok
  · cases hok
  · next hhead =>
    rw [not_or, not_or, not_not, not_not, not_not] at hhead
    obtain ⟨harch, hmode, hbpf⟩ := hhead
    refine ⟨hmode ▸ hbpf, ?_⟩
    rw [if_neg (by simp [harch, hbpf, ← hmode])]
    cases hfind : findInstRecord table.records engine inst with
    | none =>
      simp only [hfind] at hok
      split at hok <;> cases hok
    | some record =>
      obtain ⟨hmem, hfeatures⟩ := findInstRecord_spec hfind
      simp only [hfind] at hok ⊢
      split at hok
      · cases hok
      · next hroom =>
        refine ⟨record, (encodeForm record inst).2, rfl, hmem, hfeatures, Prod.ext hok rfl, ?_⟩
        rw [if_neg hroom]
        exact congrArg (EncodeOut.mk · record.size 0 _) hok

theorem encodeInst_of_record (harch : inst.arch = .bpf) (hmode : inst.mode = engine.config.mode)
    (hbpf : engine.config.mode = .bpf64) (hfind : findInstRecord table.records engine inst = some record)
    (hroom : record.size ≤ capacity) : encodeInst table.records engine inst capacity =
      { status := (encodeForm record inst).1, size := record.size
        code := (encodeForm record inst).2.bytes record.size } := by
  unfold encodeInst
  rw [if_neg (by simp [harch, hbpf, hmode])]
  simp only [hfind, if_neg (Nat.not_lt.2 hroom)]

/-! ## Encoding what was decoded -/

/-- What lies over a decoded operand leaves what the encoder reads. -/
structure Keeps (f : Operand → Operand) : Prop where
  kind : ∀ o, (f o).kind = o.kind
  reg : ∀ o, (f o).reg = o.reg
  imm : ∀ o, (f o).imm = o.imm
  absTarget : ∀ o, (f o).absTarget = o.absTarget
  mem : ∀ o, (f o).mem = o.mem
  width : ∀ o, o.width ≠ 0 → (f o).width = o.width

/-- No field of the word is a register's that the encoder would have to number. -/
def Record.Restores (record : Record) (code : List Byte) : Prop :=
  record.form = .branch ∨ record.form = .callImm ∨ record.form = .loadAbs ∨
    record.form = .aluDst ∧ record.kind = .return_ ∧ dst code = 0

theorem dst_le (code : List Byte) : (dst code).toNat ≤ 15 := by
  rw [dst, BitVec.toNat_and]
  exact Nat.and_le_right

theorem src_le (code : List Byte) : (src code).toNat ≤ 15 := by
  have hlt := (code.getD 1 0).isLt
  rw [src, BitVec.toNat_ushiftRight, Nat.shiftRight_eq_div_pow]
  omega

theorem regId_eq (width : Nat) : ∃ first, 0 < first ∧ first ≤ 2 ∧ ∀ reg : Byte,
    regId reg width = if 11 < reg.toNat then 0 else first + reg.toNat * 2 := by
  refine ⟨if width = 32 then 1 else 2, ?_, ?_, fun reg => rfl⟩ <;> split <;> omega

/-- **No register keeps its number.** The id of a register is the number of another one. -/
theorem regId_ne {reg : Byte} (hreg : reg.toNat ≤ 15) (width : Nat) :
    regId (BitVec.ofNat 8 (regId reg width)) width ≠ regId reg width := by
  obtain ⟨first, hpos, hle, hid⟩ := regId_eq width
  have hnumber : (BitVec.ofNat 8 (regId reg width)).toNat = regId reg width := by
    refine Nat.mod_eq_of_lt ?_
    rw [hid]
    split <;> omega
  rw [hid (BitVec.ofNat 8 _), hnumber, hid]
  split
  · split <;> omega
  · split <;> omega

theorem eq_zero_of_regId {reg : Byte} {width : Nat} (h : regId 0 width = regId reg width) : reg = 0 := by
  obtain ⟨first, hpos, -, hid⟩ := regId_eq width
  rw [hid, hid, if_neg (by decide)] at h
  apply BitVec.eq_of_toNat_eq
  have hzero : (0 : Byte).toNat = 0 := rfl
  rw [hzero] at h ⊢
  split at h <;> omega

/-- What is compared of an operand: its register, and its base. -/
def registers (operands : List Operand) : List (Nat × Nat) := operands.map fun o => (o.reg, o.mem.base)

variable {f : Operand → Operand}

theorem registers_map (hf : Keeps f) (operands : List Operand) :
    registers (operands.map f) = registers operands := by
  rw [registers, registers, List.map_map]
  exact List.map_congr_left fun o _ => by rw [Function.comp_apply, hf.reg, hf.mem]

theorem restores_of_registers (hf : Keeps f)
    (hops : inst.operands = (operands record code address).map f)
    (hsame : registers (readBack record inst) = registers (operands record code address)) :
    record.Restores code := by
  have hdst (width : Nat) := regId_ne (dst_le code) width
  have hsrc (width : Nat) := regId_ne (src_le code) width
  unfold Record.Restores
  cases hform : record.form with
  | aluRR | aluRI | callReg | ldImm64 | loadMem =>
    simp only [readBack, operands, hform, hops, List.map, hf.reg, registers, List.cons.injEq,
      Prod.mk.injEq] at hsame
    exact absurd hsame.1.1 (hdst _)
  | loadInd =>
    simp only [readBack, operands, hform, hops, List.map, hf.reg, registers, List.cons.injEq,
      Prod.mk.injEq] at hsame
    exact absurd hsame.1.1 (hsrc _)
  | storeMemReg =>
    simp only [readBack, operands, hform, hops, List.map, hf.reg, registers, List.cons.injEq,
      Prod.mk.injEq] at hsame
    exact absurd hsame.2.1.1 (hsrc _)
  | storeMemImm =>
    simp only [readBack, operands, hform, hops, List.map, registers, List.cons.injEq,
      Prod.mk.injEq] at hsame
    have hbase := hsame.1.2
    simp only [baseOperand, memOperand, hf.mem] at hbase
    exact absurd hbase (hdst _)
  | branchRR | branchRI =>
    simp only [readBack, operands, hform, hops, List.map, hf.reg, registers, List.cons.injEq,
      Prod.mk.injEq] at hsame
    exact absurd hsame.2.1.1 (hdst _)
  | branch => exact .inl rfl
  | callImm => exact .inr (.inl rfl)
  | loadAbs => exact .inr (.inr (.inl rfl))
  | aluDst =>
    simp only [readBack, operands, hform, hops, List.map, hf.reg, registers, List.cons.injEq,
      Prod.mk.injEq, List.headD_cons] at hsame
    have hreg := hsame.1.1
    by_cases hreturn : record.kind = .return_
    · rw [if_pos hreturn] at hreg
      exact .inr (.inr (.inr ⟨rfl, hreturn, eq_zero_of_regId hreg⟩))
    · rw [if_neg hreturn] at hreg
      exact absurd hreg (hdst _)

theorem branchDisp_pcRelOperand (hf : Keeps f) (field : BitVec 16) :
    branchDisp inst (f (pcRelOperand inst.address field)) = field.signExtend 64 * 8 := by
  simp only [branchDisp, hf.kind, hf.imm, hf.absTarget, pcRelOperand]
  split
  · rw [BitVec.add_comm, BitVec.add_sub_cancel]
  · rfl

theorem targetOperand_pcRelOperand (hf : Keeps f) (field : BitVec 16) :
    targetOperand inst (f (pcRelOperand inst.address field)) = pcRelOperand inst.address field := by
  rw [targetOperand, branchDisp_pcRelOperand hf]
  rfl

theorem sdiv_of_field (field : BitVec 16) :
    (field.signExtend 64 * 8 : BitVec 64) &&& 7 = 0 ∧
      (field.signExtend 64 * 8 : BitVec 64).sdiv 8 = field.signExtend 64 := by
  have hlo := BitVec.le_toInt field
  have hhi := BitVec.toInt_lt (x := field)
  have hint : (field.signExtend 64).toInt = field.toInt := BitVec.toInt_signExtend_of_le (by omega)
  have height : (8 : BitVec 64).toInt = 8 := rfl
  constructor
  · apply BitVec.eq_of_toNat_eq
    have hmask : ((field.signExtend 64 * 8 : BitVec 64) &&& 7).toNat =
        (field.signExtend 64 * 8 : BitVec 64).toNat % 2 ^ 3 :=
      Nat.and_two_pow_sub_one_eq_mod _ 3
    rw [hmask, BitVec.toNat_mul]
    have hnat : (8 : BitVec 64).toNat = 8 := rfl
    rw [hnat]
    show _ = 0
    omega
  · apply BitVec.eq_of_toInt_eq
    have hmul : (field.signExtend 64 * 8 : BitVec 64).toInt = field.toInt * 8 := by
      rw [BitVec.toInt_mul, hint, height]
      exact Int.bmod_eq_of_le (by omega) (by omega)
    rw [BitVec.toInt_sdiv, hmul, height, hint, Int.mul_tdiv_cancel _ (by omega)]
    exact Int.bmod_eq_of_le (by omega) (by omega)

theorem packBranch_pcRelOperand (hf : Keeps f) {rest : List Operand} {field : BitVec 16}
    (hops : inst.operands = f (pcRelOperand inst.address field) :: rest) :
    (packBranch inst blank).1 = .ok := by
  obtain ⟨haligned, hwords⟩ := sdiv_of_field field
  have hfits : i64FitsI16 (field.signExtend 64) = true :=
    (i64FitsI16_iff _).2 (fits_signExtend field (by omega))
  simp only [packBranch, hops, branchDisp_pcRelOperand hf, hwords, hfits]
  rw [if_neg (not_not.2 haligned)]
  rfl

theorem ok_of_restores (hf : Keeps f) (hops : inst.operands = (operands record code inst.address).map f)
    (hrestores : record.Restores code) :
    (encodeForm record inst).1 = .ok ∧ readBack record inst = operands record code inst.address := by
  have himm : i64FitsI32 ((imm code).signExtend 64) = true :=
    (i64FitsI32_iff _).2 (fits_signExtend (imm code) (by omega))
  rcases hrestores with hform | hform | hform | ⟨hform, hreturn, hdst⟩
  · simp only [operands, hform, List.map] at hops
    constructor
    · simp only [encodeForm, hform]
      exact packBranch_pcRelOperand hf hops
    · simp only [readBack, operands, hform, hops, targetOperand_pcRelOperand hf]
  · simp only [operands, hform, List.map] at hops
    have hgiven : (f (immOperand 0 ((imm code).signExtend 64) 32)).imm = (imm code).signExtend 64 := hf.imm _
    constructor
    · simp only [encodeForm, hform, hops, hgiven, himm, fill, if_true]
    · simp only [readBack, operands, hform, hops, hgiven]
  · simp only [operands, hform, List.map] at hops
    have hmem : (f (memOperand 0 0 ((imm code).signExtend 64) record.width)).mem =
        (memOperand 0 0 ((imm code).signExtend 64) record.width).mem := hf.mem _
    have habs : operandIsAbsMem (f (memOperand 0 0 ((imm code).signExtend 64) record.width))
        record.width = true := by
      have hwidth : operandWidthMatches (f (memOperand 0 0 ((imm code).signExtend 64) record.width))
          record.width = true := by
        unfold operandWidthMatches
        rcases Nat.eq_zero_or_pos record.width with hzero | hpos
        · simp [hzero]
        · rw [hf.width _ (Nat.ne_of_gt hpos), memOperand, if_neg (Nat.ne_of_gt hpos)]
          simp
      simp only [operandIsAbsMem, operandIsPlainMem, hf.kind, hf.reg, hf.imm, hmem, hwidth]
      simp only [memOperand, himm]
      rfl
    constructor
    · simp only [encodeForm, hform, hops, habs, fill, if_true]
    · simp only [readBack, operands, hform, hops, hmem]
      rfl
  · constructor
    · simp only [encodeForm, hform, if_pos hreturn]
    · simp only [readBack, operands, hform, if_pos hreturn, hdst]
      rfl

end AsmKit.Bpf
