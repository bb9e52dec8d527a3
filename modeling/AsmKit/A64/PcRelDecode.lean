import AsmKit.A64.PcRelRows
import AsmKit.A64.Relocate

/-!
# Decoding the pc-relative words

The decoder reads the target of a pc-relative word as the architecture does.
-/

namespace AsmKit.A64

open SignedField
open Isa.A64 (OffsetKind offsetKind)

/-! ## Gathering -/

theorem foldl_gather_getLsbD (pieces : List Piece) (k : Nat) (w acc : BitVec 32) (i : Nat)
    (hi : i < 32) :
    (pieces.foldl (fun (value : BitVec 32) piece =>
      if piece.operandIndex = k then
        value ||| (((w >>> piece.dstBit) &&& 1#32) <<< piece.srcBit)
      else value) acc).getLsbD i =
    (acc.getLsbD i ||
      pieces.any fun p => p.operandIndex == k && p.srcBit == i && w.getLsbD p.dstBit) := by
  induction pieces generalizing acc with
  | nil => simp
  | cons p ps ih =>
    rw [List.foldl_cons, ih, List.any_cons]
    by_cases hk : p.operandIndex = k
    · have hbit : (((w >>> p.dstBit) &&& 1#32) <<< p.srcBit).getLsbD i =
          (p.srcBit == i && w.getLsbD p.dstBit) := by
        simp only [BitVec.getLsbD_shiftLeft, BitVec.getLsbD_and, BitVec.getLsbD_ushiftRight,
          BitVec.getLsbD_one]
        rcases Nat.lt_trichotomy i p.srcBit with hlt | heq | hgt
        · simp [hlt, show ¬ p.srcBit = i by omega]
        · simp [heq, show p.srcBit < 32 by omega]
        · simp [show ¬ p.srcBit = i by omega, show ¬ i - p.srcBit = 0 by omega]
      simp [hk, hbit, Bool.or_assoc]
    · simp [hk, beq_false_of_ne hk]

theorem gather_getLsbD (pieces : List Piece) (k : Nat) (w : BitVec 32) (i : Nat) (hi : i < 32) :
    (gather pieces k w).getLsbD i =
      pieces.any fun p => p.operandIndex == k && p.srcBit == i && w.getLsbD p.dstBit := by
  have hzero : (0 : BitVec 32).getLsbD i = false := BitVec.getLsbD_zero
  rw [gather, foldl_gather_getLsbD pieces k w 0 i hi, hzero, Bool.false_or]

theorem pieceRun_any (operand src dst n k i : Nat) (w : BitVec 32) :
    ((pieceRun operand src dst n).any fun p =>
      p.operandIndex == k && p.srcBit == i && w.getLsbD p.dstBit) =
    (operand == k && decide (src ≤ i ∧ i < src + n) && w.getLsbD (dst + (i - src))) := by
  rw [Bool.eq_iff_iff]
  simp only [pieceRun, List.any_map, List.any_eq_true, List.mem_range, Function.comp_apply,
    Bool.and_eq_true, beq_iff_eq, decide_eq_true_eq]
  constructor
  · rintro ⟨j, hj, ⟨hk, rfl⟩, hbit⟩
    exact ⟨⟨hk, by omega⟩, by rwa [Nat.add_sub_cancel_left]⟩
  · rintro ⟨⟨hk, hle, hlt⟩, hbit⟩
    exact ⟨i - src, by omega, ⟨hk, by omega⟩, hbit⟩

theorem any_other_operand {pieces : List Piece} {k : Nat}
    (h : ∀ p ∈ pieces, p.operandIndex ≠ k) (i : Nat) (w : BitVec 32) :
    (pieces.any fun p => p.operandIndex == k && p.srcBit == i && w.getLsbD p.dstBit) = false := by
  rw [List.any_eq_false]
  intro p hp
  simp [h p hp]

theorem gather_pieceRun {before after : List Piece} {k n : Nat}
    (hbefore : ∀ p ∈ before, p.operandIndex ≠ k) (hafter : ∀ p ∈ after, p.operandIndex ≠ k)
    (dst : Nat) (w : BitVec 32) :
    gather (before ++ pieceRun k 0 dst n ++ after) k w = (field n dst w).setWidth 32 := by
  apply BitVec.eq_of_getLsbD_eq
  intro i hi
  rw [gather_getLsbD _ _ _ _ hi, List.any_append, List.any_append, any_other_operand hbefore,
    any_other_operand hafter, pieceRun_any, BitVec.getLsbD_setWidth, field_getLsbD]
  simp [hi]

/-- The offset field of a word. -/
def offsetField : OffsetKind → BitVec 32 → BitVec 32
  | .imm26, w => (Isa.A64.off26 w).setWidth 32
  | .imm19, w => (Isa.A64.off19 w).setWidth 32
  | .imm14, w => (Isa.A64.off14 w).setWidth 32
  | .adr, w | .adrp, w => (Isa.A64.off21 w).setWidth 32

theorem any_pcRelPieces (kind : OffsetKind) (k i : Nat) (w : BitVec 32) (hi : i < 32) :
    ((pcRelPieces k kind).any fun p => p.operandIndex == k && p.srcBit == i && w.getLsbD p.dstBit) =
      (offsetField kind w).getLsbD i := by
  cases kind with
  | imm26 =>
    simp only [pcRelPieces, pieceRun_any, offsetField, Isa.A64.off26, BitVec.getLsbD_setWidth,
      field_getLsbD]
    simp [hi]
  | imm19 =>
    simp only [pcRelPieces, pieceRun_any, offsetField, Isa.A64.off19, BitVec.getLsbD_setWidth,
      field_getLsbD]
    simp [hi]
  | imm14 =>
    simp only [pcRelPieces, pieceRun_any, offsetField, Isa.A64.off14, BitVec.getLsbD_setWidth,
      field_getLsbD]
    simp [hi]
  | adr | adrp =>
    simp only [pcRelPieces, List.any_append, pieceRun_any, offsetField, Isa.A64.off21,
      BitVec.getLsbD_setWidth, BitVec.getLsbD_append, field_getLsbD]
    rcases Nat.lt_or_ge i 2 with hlow | hhigh
    · simp [hi, hlow, Nat.not_le.2 hlow]
    · have hsub : i - 2 < 19 ↔ i < 21 := by omega
      simp [hi, hhigh, Nat.not_lt.2 hhigh, hsub]

/-! ## Operands -/

theorem tdOperandValue_of_masked {record : Record} (h : ∀ desc ∈ record.descs, desc.sourceMask ≠ 0)
    (w : BitVec 32) (k : Nat) : tdOperandValue record w k = gather record.pieces k w := by
  have hkeep : ∀ (descs : List OperandDesc) (acc : BitVec 32), (∀ desc ∈ descs, desc.sourceMask ≠ 0) →
      descs.foldl (fun (value : BitVec 32) desc =>
        if desc.operandIndex = k ∧
            ((desc.kind = .opaque_ ∧ desc.sourceMask = 0 ∧ desc.width ≠ 0) ∨
              (desc.kind = .imm ∧ desc.sourceMask = 0 ∧ desc.literalValue ≠ 0)) then
          desc.literalValue
        else value) acc = acc := by
    intro descs acc hdescs
    induction descs with
    | nil => rfl
    | cons desc rest ih =>
      have hne := hdescs desc (by simp)
      rw [List.foldl_cons, if_neg (by rintro ⟨-, ⟨-, h, -⟩ | ⟨-, h, -⟩⟩ <;> exact hne h)]
      exact ih fun d hd => hdescs d (by simp [hd])
  exact hkeep _ _ h

/-- A register, an immediate or an opaque operand that no bits can spoil. -/
def OperandDesc.decodes (desc : OperandDesc) : Bool :=
  match desc.kind with
  | .reg =>
    desc.transform == .rawUnsigned && desc.literalValue == 0 &&
      ((desc.regClass == .gpr && (desc.width == 32 || desc.width == 64)) ||
        (desc.regClass == .simd && (desc.width == 32 || desc.width == 64 || desc.width == 128)))
  | .imm =>
    desc.transform == .rawUnsigned ||
      (desc.transform == .rawUnsignedOffset && desc.literalValue != 0)
  | .opaque_ => true
  | _ => false

theorem and_0x1f_le (value : BitVec 32) : (value &&& 0x1f).toNat ≤ 31 := by
  rw [BitVec.toNat_and]
  exact Nat.and_le_right

theorem tdGprId_ne_zero {encoding width : Nat} (h : encoding ≤ 31) (hw : width = 32 ∨ width = 64)
    (sp : Bool) : tdGprId encoding width sp ≠ 0 := by
  unfold tdGprId Reg.w0 Reg.wzr Reg.wsp Reg.x0 Reg.fp Reg.lr Reg.sp Reg.xzr
  rcases hw with rfl | rfl <;> cases sp <;> split_ifs <;> omega

theorem tdSimdId_ne_zero {encoding width : Nat} (h : encoding ≤ 31)
    (hw : width = 32 ∨ width = 64 ∨ width = 128) : tdSimdId encoding width ≠ 0 := by
  unfold tdSimdId
  rcases hw with rfl | rfl | rfl <;> simp [Nat.not_lt.2 h, Reg.s0, Reg.d0, Reg.q0]

theorem tdDecodeRegOperand_isSome {desc : OperandDesc} (value : BitVec 32) (hkind : desc.kind = .reg)
    (h : desc.decodes = true) :
    ∃ operand, tdDecodeRegOperand value desc = some operand ∧ operand.kind = .reg := by
  simp only [OperandDesc.decodes, hkind, Bool.and_eq_true, Bool.or_eq_true, beq_iff_eq] at h
  obtain ⟨⟨htransform, hliteral⟩, hclass⟩ := h
  have hid : tdVectorId (value &&& 0x1f).toNat desc.width desc.reg31IsSp desc.regClass ≠ 0 := by
    rcases hclass with ⟨hgpr, hw⟩ | ⟨hsimd, hw⟩
    · rw [hgpr]
      exact tdGprId_ne_zero (and_0x1f_le value) hw _
    · rw [hsimd]
      exact tdSimdId_ne_zero (and_0x1f_le value) (by simpa [or_assoc] using hw)
  have hop : tdDecodeRegOperand value desc =
      regOperand (tdVectorId (value &&& 0x1f).toNat desc.width desc.reg31IsSp desc.regClass)
        desc.width := by
    simp [tdDecodeRegOperand, htransform, tdRegOperand, hliteral]
  rw [hop, regOperand, if_neg hid]
  exact ⟨_, rfl, rfl⟩

theorem tdDecodeRegOperand_gpr {desc : OperandDesc} (value : BitVec 32) (hclass : desc.regClass = .gpr)
    (hwidth : desc.width = 32 ∨ desc.width = 64) (htransform : desc.transform = .rawUnsigned)
    (hliteral : desc.literalValue = 0) :
    tdDecodeRegOperand value desc =
      some (Operand.ofReg (tdGprId (value &&& 0x1f).toNat desc.width desc.reg31IsSp) desc.width) := by
  simp only [tdDecodeRegOperand, htransform, tdRegOperand, hliteral, if_true, tdVectorId, hclass,
    regOperand]
  exact if_neg (tdGprId_ne_zero (and_0x1f_le value) hwidth _)

theorem decodeTdOperand_gpr {record : Record} {w : BitVec 32} {address : BitVec 64}
    {desc : OperandDesc} {n : BitVec 5}
    (hvalue : tdOperandValue record w desc.operandIndex = n.setWidth 32) (hkind : desc.kind = .reg)
    (hclass : desc.regClass = .gpr) (hwidth : desc.width = 32 ∨ desc.width = 64)
    (htransform : desc.transform = .rawUnsigned) (hliteral : desc.literalValue = 0) :
    decodeTdOperand record w address desc =
      some (Operand.ofReg (tdGprId n.toNat desc.width desc.reg31IsSp) desc.width) := by
  have hn : ((n.setWidth 32) &&& 0x1f#32).toNat = n.toNat := by
    rw [BitVec.toNat_and, BitVec.toNat_setWidth, Nat.mod_eq_of_lt (by omega)]
    exact Nat.and_two_pow_sub_one_of_lt_two_pow (n := 5) n.isLt
  have hop : decodeTdOperand record w address desc =
      tdDecodeRegOperand (tdOperandValue record w desc.operandIndex) desc := by
    simp only [decodeTdOperand, hkind]
  rw [hop, hvalue, tdDecodeRegOperand_gpr _ hclass hwidth htransform hliteral]
  exact congrArg (fun n => some (Operand.ofReg (tdGprId n desc.width desc.reg31IsSp) desc.width)) hn

theorem tdImmValue_isSome {desc : OperandDesc} (value : BitVec 32) (hkind : desc.kind = .imm)
    (h : desc.decodes = true) : (tdImmValue value desc).isSome := by
  simp only [OperandDesc.decodes, hkind, Bool.and_eq_true, Bool.or_eq_true, beq_iff_eq,
    bne_iff_ne] at h
  rcases h with htransform | ⟨htransform, hliteral⟩
  · simp [tdImmValue, htransform]
  · have hne : desc.literalValue ≠ 0#32 := hliteral
    simp [tdImmValue, htransform, hne]

theorem decodeTdOperand_of_decodes (record : Record) (w : BitVec 32) (address : BitVec 64)
    {desc : OperandDesc} (h : desc.decodes = true) :
    ∃ operand, decodeTdOperand record w address desc = some operand ∧ operand.kind ≠ .pcRel := by
  unfold decodeTdOperand
  cases hkind : desc.kind with
  | reg =>
    obtain ⟨operand, hop, hreg⟩ :=
      tdDecodeRegOperand_isSome (tdOperandValue record w desc.operandIndex) hkind h
    exact ⟨operand, hop, by simp [hreg]⟩
  | imm =>
    obtain ⟨imm, himm⟩ := Option.isSome_iff_exists.1
      (tdImmValue_isSome (tdOperandValue record w desc.operandIndex) hkind h)
    exact ⟨Operand.ofImm imm desc.width, by simp [himm], by simp [Operand.ofImm]⟩
  | opaque_ => exact ⟨_, rfl, by simp [Operand.ofOpaque]⟩
  | pcRel | unknown => simp [OperandDesc.decodes, hkind] at h

theorem tdRecordOperandsMatch_of_decodes {record : Record} (w : BitVec 32)
    (hidx : record.indicesOk = true)
    (h : ∀ desc ∈ record.descs, desc.decodes = true ∨ desc.kind = .pcRel) :
    tdRecordOperandsMatch record w = true := by
  rw [tdRecordOperandsMatch, hidx, Bool.true_and, List.all_eq_true]
  intro desc hdesc
  have hdec := h desc hdesc
  cases hkind : desc.kind with
  | reg =>
    obtain ⟨operand, hop, -⟩ :=
      tdDecodeRegOperand_isSome (tdOperandValue record w desc.operandIndex) hkind
        (hdec.resolve_right (by simp [hkind]))
    simp [hop]
  | imm => exact tdImmValue_isSome _ hkind (hdec.resolve_right (by simp [hkind]))
  | opaque_ | pcRel | unknown => rfl

theorem foldlM_in_order {f : OperandDesc → Option Operand} (descs : List OperandDesc)
    (done operands : List Operand)
    (hidx : descs.map (·.operandIndex) = List.range' done.length descs.length)
    (hops : descs.map f = operands.map some) :
    descs.foldlM (fun operands desc => do
      let operand ← f desc
      return operands.set desc.operandIndex (operand.atIndex desc.operandIndex))
      (done ++ List.replicate descs.length Operand.empty) =
    some (done ++ operands.mapIdx fun i operand => operand.atIndex (done.length + i)) := by
  induction descs generalizing done operands with
  | nil =>
    have hnil : operands = [] := by simpa using hops.symm
    simp [hnil]
  | cons desc rest ih =>
    obtain ⟨operand, ops, rfl⟩ : ∃ operand ops, operands = operand :: ops := by
      cases operands with
      | nil => simp at hops
      | cons operand ops => exact ⟨operand, ops, rfl⟩
    simp only [List.map_cons, List.cons.injEq] at hops
    simp only [List.map_cons, List.length_cons, List.range'_succ, List.cons.injEq] at hidx
    have hset : (done ++ List.replicate (rest.length + 1) Operand.empty).set done.length
        (operand.atIndex done.length) =
        (done ++ [operand.atIndex done.length]) ++
          List.replicate rest.length Operand.empty := by
      simp [List.replicate_succ]
    have hnext := ih (done ++ [operand.atIndex done.length]) ops
      (by simpa using hidx.2) hops.2
    have hshift (i : Nat) : (done ++ [operand.atIndex done.length]).length + i =
        done.length + (i + 1) := by
      simp [Nat.add_assoc, Nat.add_comm 1]
    simp only [hshift] at hnext
    rw [List.foldlM_cons, hops.1, hidx.1, List.length_cons]
    simp only [Option.bind_eq_bind, Option.bind_some, Option.pure_def, hset] at hnext ⊢
    rw [hnext, List.mapIdx_cons, List.append_assoc]
    rfl

/-! ## The operands of a row -/

/-- What the rows have in common: the operands before the offset decode whatever the word holds,
and the memory folds leave the list alone. -/
def PcRelRow.wellFormed (row : PcRelRow) : Bool :=
  row.record.indicesOk && row.lead.map (·.operandIndex) == List.range' 0 row.lead.length &&
    row.lead.all (fun desc => desc.decodes && desc.sourceMask != 0) &&
    (row.before ++ row.after).all (·.operandIndex < row.lead.length) &&
    (row.lead.length < 2 ||
      (row.instClass != .load && row.instClass != .store && !row.record.isPrefetchMemory))

theorem wellFormed_of_mem : ∀ row ∈ pcRelRows, row.wellFormed = true := by decide

/-- The target as an operand. -/
def targetOperand (kind : OffsetKind) (w : BitVec 32) (address : BitVec 64) : Operand :=
  { Operand.ofPcRel (kind.offset w) kind.bits with absTarget := kind.target w address }

theorem signExtend_setWidth {n : Nat} (f : BitVec n) (hpos : 0 < n) (hn : n ≤ 32) :
    signExtend (f.setWidth 32) n = f.signExtend 64 :=
  xor_sub_setWidth f hpos hn (by decide)

theorem tdSourceWidth_pcRelDesc (k : Nat) (kind : OffsetKind) :
    tdSourceWidth (pcRelDesc k kind).sourceMask = kind.bits := by
  cases kind with
  | imm26 => exact (by decide : tdSourceWidth 0x03ffffff = 26)
  | imm19 => exact (by decide : tdSourceWidth 0x0007ffff = 19)
  | imm14 => exact (by decide : tdSourceWidth 0x00003fff = 14)
  | adr | adrp => exact (by decide : tdSourceWidth 0x001fffff = 21)

theorem tdPcRelOperand_eq (k : Nat) (kind : OffsetKind) (w : BitVec 32) (address : BitVec 64) :
    tdPcRelOperand address (offsetField kind w) (pcRelDesc k kind) = targetOperand kind w address := by
  have hwidth := tdSourceWidth_pcRelDesc k kind
  have hwords (f : BitVec 64) : f * (4 : BitVec 64) = f <<< 2 := (BitVec.shiftLeft_eq_mul_twoPow f 2).symm
  have hpages (f : BitVec 64) : f * (4096 : BitVec 64) = f <<< 12 := (BitVec.shiftLeft_eq_mul_twoPow f 12).symm
  simp only [tdPcRelOperand, hwidth]
  cases kind with
  | imm26 =>
    have hoff : signExtend (offsetField .imm26 w) 26 = (Isa.A64.off26 w).signExtend 64 :=
      signExtend_setWidth _ (by decide) (by decide)
    simp only [pcRelDesc, OffsetKind.bits, hoff, hwords]
    rfl
  | imm19 =>
    have hoff : signExtend (offsetField .imm19 w) 19 = (Isa.A64.off19 w).signExtend 64 :=
      signExtend_setWidth _ (by decide) (by decide)
    simp only [pcRelDesc, OffsetKind.bits, hoff, hwords]
    rfl
  | imm14 =>
    have hoff : signExtend (offsetField .imm14 w) 14 = (Isa.A64.off14 w).signExtend 64 :=
      signExtend_setWidth _ (by decide) (by decide)
    simp only [pcRelDesc, OffsetKind.bits, hoff, hwords]
    rfl
  | adr =>
    have hoff : signExtend (offsetField .adr w) 21 = (Isa.A64.off21 w).signExtend 64 :=
      signExtend_setWidth _ (by decide) (by decide)
    simp only [pcRelDesc, OffsetKind.bits, hoff]
    rfl
  | adrp =>
    have hoff : signExtend (offsetField .adrp w) 21 = (Isa.A64.off21 w).signExtend 64 :=
      signExtend_setWidth _ (by decide) (by decide)
    simp only [pcRelDesc, OffsetKind.bits, hoff, hpages]
    rfl

theorem tdOperandValue_row {row : PcRelRow} (hwf : row.wellFormed = true) (w : BitVec 32) :
    tdOperandValue row.record w row.lead.length = offsetField row.kind w := by
  simp only [PcRelRow.wellFormed, Bool.and_eq_true] at hwf
  obtain ⟨⟨⟨⟨-, -⟩, hlead⟩, hpieces⟩, -⟩ := hwf
  have hne : ∀ p ∈ row.before ++ row.after, p.operandIndex ≠ row.lead.length := by
    intro p hp
    have hlt := List.all_eq_true.1 hpieces p hp
    rw [decide_eq_true_eq] at hlt
    exact Nat.ne_of_lt hlt
  have hmasked : ∀ desc ∈ row.record.descs, desc.sourceMask ≠ 0 := by
    intro desc hdesc
    rcases List.mem_append.1 hdesc with hmem | hmem
    · have := List.all_eq_true.1 hlead desc hmem
      rw [Bool.and_eq_true, bne_iff_ne] at this
      exact this.2
    · rw [List.mem_singleton.1 hmem]
      cases row.kind <;> simp [pcRelDesc]
  rw [tdOperandValue_of_masked hmasked]
  apply BitVec.eq_of_getLsbD_eq
  intro i hi
  rw [gather_getLsbD _ _ _ _ hi, PcRelRow.record, List.any_append, List.any_append,
    any_pcRelPieces _ _ _ _ hi, any_other_operand fun p hp => hne p (List.mem_append_left _ hp),
    any_other_operand fun p hp => hne p (List.mem_append_right _ hp),
    Bool.false_or, Bool.or_false]

theorem decodeTdOperands_in_order {record : Record} {operands : List Operand} (w : BitVec 32)
    (address : BitVec 64) (hne : record.descs ≠ []) (hok : record.indicesOk = true)
    (hidx : record.descs.map (·.operandIndex) = List.range' 0 record.descs.length)
    (hops : record.descs.map (decodeTdOperand record w address) = operands.map some) :
    decodeTdOperands record w address = some (operands.mapIdx fun i operand => operand.atIndex i) := by
  have hfold := foldlM_in_order record.descs [] operands hidx hops
  rw [List.nil_append] at hfold
  rw [decodeTdOperands, if_neg hne, if_neg (by simp [hok]), hfold]
  simp

theorem exists_decodes (record : Record) (w : BitVec 32) (address : BitVec 64)
    {descs : List OperandDesc} (h : ∀ desc ∈ descs, desc.decodes = true) :
    ∃ operands : List Operand, descs.map (decodeTdOperand record w address) = operands.map some ∧
      ∀ operand ∈ operands, operand.kind ≠ .pcRel := by
  induction descs with
  | nil => exact ⟨[], rfl, by simp⟩
  | cons desc rest ih =>
    obtain ⟨operand, hop, hne⟩ := decodeTdOperand_of_decodes record w address (h desc (by simp))
    obtain ⟨operands, hops, hnes⟩ := ih fun d hd => h d (by simp [hd])
    refine ⟨operand :: operands, by simp [hop, hops], ?_⟩
    intro o ho
    rcases List.mem_cons.1 ho with rfl | ho
    · exact hne
    · exact hnes o ho

theorem decodeTdOperands_lead {row : PcRelRow} (hwf : row.wellFormed = true) (w : BitVec 32)
    (address : BitVec 64) :
    ∃ lead : List Operand, row.lead.map (decodeTdOperand row.record w address) = lead.map some ∧
      (∀ operand ∈ lead, operand.kind ≠ .pcRel) ∧
      decodeTdOperands row.record w address =
        some (lead.mapIdx (fun i operand => operand.atIndex i) ++
          [(targetOperand row.kind w address).atIndex row.lead.length]) := by
  have hvalue := tdOperandValue_row hwf w
  simp only [PcRelRow.wellFormed, Bool.and_eq_true] at hwf
  obtain ⟨⟨⟨⟨hidx, horder⟩, hlead⟩, -⟩, -⟩ := hwf
  have hkind : (pcRelDesc row.lead.length row.kind).kind = .pcRel := by cases row.kind <;> rfl
  have hindex : (pcRelDesc row.lead.length row.kind).operandIndex = row.lead.length := by
    cases row.kind <;> rfl
  have hoffset : decodeTdOperand row.record w address (pcRelDesc row.lead.length row.kind) =
      some (targetOperand row.kind w address) := by
    rw [decodeTdOperand, hkind, hindex, hvalue, tdPcRelOperand_eq]
  obtain ⟨lead, hops, hnes⟩ := exists_decodes row.record w address fun desc hdesc =>
    (Bool.and_eq_true_iff.1 (List.all_eq_true.1 hlead desc hdesc)).1
  have hlen : lead.length = row.lead.length := by
    simpa using (congrArg List.length hops).symm
  have hindices : row.record.descs.map (·.operandIndex) =
      List.range' 0 row.record.descs.length := by
    simp [PcRelRow.record, hindex, eq_of_beq horder, List.range'_concat]
  have hall : row.record.descs.map (decodeTdOperand row.record w address) =
      (lead ++ [targetOperand row.kind w address]).map some := by
    simp only [PcRelRow.record, List.map_append, List.map_cons, List.map_nil] at hops ⊢
    rw [hops]
    exact congrArg (lead.map some ++ [·]) hoffset
  refine ⟨lead, hops, hnes, ?_⟩
  rw [decodeTdOperands_in_order w address (by simp [PcRelRow.record]) hidx hindices hall]
  simp [List.mapIdx_append, hlen]

theorem decodeTdOperands_row {row : PcRelRow} (hwf : row.wellFormed = true) (w : BitVec 32)
    (address : BitVec 64) :
    ∃ lead : List Operand, lead.length = row.lead.length ∧ (∀ operand ∈ lead, operand.kind ≠ .pcRel) ∧
      decodeTdOperands row.record w address =
        some (lead ++ [(targetOperand row.kind w address).atIndex row.lead.length]) := by
  obtain ⟨lead, hops, hkinds, heq⟩ := decodeTdOperands_lead hwf w address
  have hlen : lead.length = row.lead.length := by
    simpa using (congrArg List.length hops).symm
  refine ⟨_, by simp [hlen], ?_, heq⟩
  intro operand hmem
  obtain ⟨i, hi, rfl⟩ := List.mem_mapIdx.1 hmem
  simpa using hkinds _ (List.getElem_mem hi)

/-! ## Finding the row -/

variable {tables : Tables} {engine : Engine}

theorem findTdRecord_of_filter {w : BitVec 32} {i : Nat} {record : Record} (checkFeatures : Bool)
    (h : (tables.candidates w).filter (fun c => w &&& c.2.mask == c.2.value) = [(i, record)]) :
    findTdRecord tables engine w checkFeatures =
      if tdRecordMatches tables engine w checkFeatures record then some record else none := by
  have hskip : ∀ (candidates : List (Nat × Record)) (best : Option (Nat × Record)),
      candidates.foldl (considerTdRecord tables engine w checkFeatures) best =
        (candidates.filter fun c => w &&& c.2.mask == c.2.value).foldl
          (considerTdRecord tables engine w checkFeatures) best := by
    intro candidates
    induction candidates with
    | nil => simp
    | cons c rest ih =>
      intro best
      rw [List.foldl_cons, List.filter_cons, ih]
      by_cases hc : (w &&& c.2.mask == c.2.value) = true
      · rw [if_pos hc, List.foldl_cons]
      · have hno : tdRecordMatches tables engine w checkFeatures c.2 = false := by
          simp [tdRecordMatches, hc]
        have hbest : considerTdRecord tables engine w checkFeatures best c = best := by
          simp [considerTdRecord, hno]
        rw [if_neg hc, hbest]
  rw [findTdRecord, hskip, h]
  simp only [List.foldl_cons, List.foldl_nil, considerTdRecord]
  split <;> rfl

theorem tdRecordOperandsMatch_row {row : PcRelRow} (hwf : row.wellFormed = true) (w : BitVec 32) :
    tdRecordOperandsMatch row.record w = true := by
  simp only [PcRelRow.wellFormed, Bool.and_eq_true] at hwf
  obtain ⟨⟨⟨⟨hidx, -⟩, hlead⟩, -⟩, -⟩ := hwf
  apply tdRecordOperandsMatch_of_decodes w hidx
  intro desc hdesc
  rcases List.mem_append.1 hdesc with hmem | hmem
  · have hdec := List.all_eq_true.1 hlead desc hmem
    rw [Bool.and_eq_true] at hdec
    exact .inl hdec.1
  · right
    rw [List.mem_singleton.1 hmem]
    cases row.kind <;> rfl

/-! ## The decoded instruction -/

theorem foldTdMemoryOperands_row {row : PcRelRow} (hwf : row.wellFormed = true) (w : BitVec 32)
    {lead : List Operand} (hlen : lead.length = row.lead.length) {target : Operand}
    (htarget : target.kind = .pcRel) :
    foldTdMemoryOperands tables row.record w (lead ++ [target]) = lead ++ [target] := by
  simp only [PcRelRow.wellFormed, Bool.and_eq_true, Bool.or_eq_true, decide_eq_true_eq,
    bne_iff_ne, Bool.not_eq_true'] at hwf
  obtain ⟨-, hshort | ⟨⟨hload, hstore⟩, hprefetch⟩⟩ := hwf
  · have hbase : operandIsGpr64Base target = false := by simp [operandIsGpr64Base, htarget]
    have hcases : lead = [] ∨ ∃ operand, lead = [operand] := by
      cases lead with
      | nil => exact .inl rfl
      | cons operand rest =>
        have hnil : rest = [] := List.eq_nil_of_length_eq_zero (by simp at hlen; omega)
        exact .inr ⟨operand, by rw [hnil]⟩
    unfold foldTdMemoryOperands
    rcases hcases with rfl | ⟨operand, rfl⟩ <;> simp [hbase]
  · have hclass : row.record.instClass ≠ .load ∧ row.record.instClass ≠ .store ∧
        ¬ row.record.isPrefetchMemory = true := ⟨hload, hstore, by simp [hprefetch]⟩
    unfold foldTdMemoryOperands
    exact if_pos hclass

/-- What a row makes of its word. -/
structure DecodedAs (row : PcRelRow) (w : BitVec 32) (address : BitVec 64) (inst : Inst) : Prop where
  operands : ∃ lead : List Operand, lead.length = row.lead.length ∧
    (∀ operand ∈ lead, operand.kind ≠ .pcRel) ∧
    inst.operands = lead ++ [(targetOperand row.kind w address).atIndex row.lead.length]
  arch : inst.arch = .aarch64
  mnemonicId : inst.mnemonicId = row.mnemonicId
  instClass : inst.instClass = row.instClass
  flags : inst.flags = row.flags
  address : inst.address = address
  size : inst.size = 4
  bytes : inst.bytes = store32le w

theorem finishTd_row {row : PcRelRow} (hwf : row.wellFormed = true) {code : List Byte}
    (hlen : 4 ≤ code.length) (address : BitVec 64) :
    ∃ inst, finishTd tables engine code address row.record = .ok inst ∧
      DecodedAs row (load32le code) address inst := by
  obtain ⟨lead, hlead, hkinds, hops⟩ := decodeTdOperands_row hwf (load32le code) address
  have hfold : foldTdMemoryOperands tables row.record (load32le code)
      (lead ++ [(targetOperand row.kind (load32le code) address).atIndex row.lead.length]) = _ :=
    foldTdMemoryOperands_row hwf (load32le code) hlead rfl
  have hbytes : code.take 4 = store32le (load32le code) := by
    rw [store32le_eq, load32le_eq, LittleEndian.bytesOf_wordOf 4 _ (by simp [hlen]) (by decide)]
  rw [finishTd]
  simp only [hops]
  exact ⟨_, rfl, ⟨lead, hlead, hkinds, hfold⟩, rfl, rfl, rfl, rfl, rfl, rfl, hbytes⟩

/-- The row is the only one that matches its words. -/
def Tables.Alone (tables : Tables) (record : Record) : Prop :=
  ∀ w, w &&& record.mask = record.value →
    ∃ i, (tables.candidates w).filter (fun c => w &&& c.2.mask == c.2.value) = [(i, record)]

/-- One of the landing pads, which are decoded before the tables are asked, fits the row. -/
def Record.MatchesBti (record : Record) : Prop :=
  0xd503241f &&& record.mask = record.value ∨ 0xd503245f &&& record.mask = record.value ∨
    0xd503249f &&& record.mask = record.value ∨ 0xd50324df &&& record.mask = record.value

theorem decodeOne_alone {record : Record} {code : List Byte} (halone : tables.Alone record)
    (hw : load32le code &&& record.mask = record.value) (hpredicate : record.predicate = .none)
    (hops : tdRecordOperandsMatch record (load32le code) = true)
    (hbti : ¬ record.MatchesBti)
    (hmode : engine.config.mode = .aarch64) (hlen : 4 ≤ code.length) (address : BitVec 64) :
    decodeOne tables engine code address =
      if featuresMatch engine record.featureBits then finishTd tables engine code address record
      else .error .unsupportedFeature := by
  obtain ⟨i, hfilter⟩ := halone _ hw
  have hpads : ¬ (load32le code = 0xd503241f ∨ load32le code = 0xd503245f ∨
      load32le code = 0xd503249f ∨ load32le code = 0xd50324df) := by
    unfold Record.MatchesBti at hbti
    rintro (h | h | h | h) <;> rw [h] at hw <;> tauto
  have hok : ¬ (engine.config.mode ≠ .aarch64 ∨ code.length < 4) := by
    simp [hmode, Nat.not_lt.2 hlen]
  have hpred : tdPredicateMatch tables engine record (load32le code) = true := by
    simp [tdPredicateMatch, hpredicate]
  have hmatches : ∀ checkFeatures, tdRecordMatches tables engine (load32le code) checkFeatures record =
      (!checkFeatures || featuresMatch engine record.featureBits) := by
    intro checkFeatures
    simp [tdRecordMatches, hops, hpred, hw]
  rw [decodeOne]
  simp only [findTdRecord_of_filter _ hfilter, hmatches]
  rw [if_neg hok, if_neg hpads]
  by_cases hfeatures : featuresMatch engine record.featureBits = true
  · simp [hfeatures]
  · simp [hfeatures]

theorem decodeOne_eq_finishTd (hrows : PcRelRows tables) {row : PcRelRow} (hmem : row ∈ pcRelRows)
    {code : List Byte} (hw : load32le code &&& row.mask = row.value)
    (hmode : engine.config.mode = .aarch64) (hlen : 4 ≤ code.length) (address : BitVec 64) :
    decodeOne tables engine code address =
      if featuresMatch engine row.featureBits then finishTd tables engine code address row.record
      else .error .unsupportedFeature := by
  have hbti : ∀ row ∈ pcRelRows, ¬ (0xd503241f &&& row.mask = row.value ∨
      0xd503245f &&& row.mask = row.value ∨ 0xd503249f &&& row.mask = row.value ∨
      0xd50324df &&& row.mask = row.value) := by decide
  have halone : tables.Alone row.record := hrows row hmem
  exact decodeOne_alone halone hw rfl (tdRecordOperandsMatch_row (wellFormed_of_mem row hmem) _)
    (hbti row hmem) hmode hlen address

theorem decodeOne_row (hrows : PcRelRows tables) {row : PcRelRow} (hmem : row ∈ pcRelRows)
    {code : List Byte} (hw : load32le code &&& row.mask = row.value)
    (hmode : engine.config.mode = .aarch64) (hlen : 4 ≤ code.length) (address : BitVec 64) :
    if featuresMatch engine row.featureBits then
      ∃ inst, decodeOne tables engine code address = .ok inst ∧
        DecodedAs row (load32le code) address inst
    else decodeOne tables engine code address = .error .unsupportedFeature := by
  rw [decodeOne_eq_finishTd hrows hmem hw hmode hlen]
  split
  · exact finishTd_row (wellFormed_of_mem row hmem) hlen address
  · rfl

theorem operands_of_decodeOne (hrows : PcRelRows tables) {row : PcRelRow} (hmem : row ∈ pcRelRows)
    {code : List Byte} (hw : load32le code &&& row.mask = row.value)
    (hmode : engine.config.mode = .aarch64) (hlen : 4 ≤ code.length) {address : BitVec 64} {inst : Inst}
    (h : decodeOne tables engine code address = .ok inst) :
    DecodedAs row (load32le code) address inst ∧ ∃ lead : List Operand,
      row.lead.map (decodeTdOperand row.record (load32le code) address) = lead.map some ∧
      inst.operands = lead.mapIdx (fun i operand => operand.atIndex i) ++
        [(targetOperand row.kind (load32le code) address).atIndex row.lead.length] := by
  have hwf := wellFormed_of_mem row hmem
  rw [decodeOne_eq_finishTd hrows hmem hw hmode hlen] at h
  split at h
  · have hrow : ∃ inst', finishTd tables engine code address row.record = .ok inst' ∧
        DecodedAs row (load32le code) address inst' := finishTd_row hwf hlen address
    obtain ⟨inst', hinst', hdec⟩ := hrow
    rw [hinst'] at h
    cases h
    refine ⟨hdec, ?_⟩
    obtain ⟨lead, hops, -, heq⟩ := decodeTdOperands_lead hwf (load32le code) address
    have hlead : lead.length = row.lead.length := by
      simpa using (congrArg List.length hops).symm
    have hfold : foldTdMemoryOperands tables row.record (load32le code)
        (lead.mapIdx (fun i operand => operand.atIndex i) ++
          [(targetOperand row.kind (load32le code) address).atIndex row.lead.length]) = _ :=
      foldTdMemoryOperands_row hwf (load32le code) (by simp [hlead]) rfl
    rw [finishTd] at hinst'
    simp only [heq, hfold] at hinst'
    cases hinst'
    exact ⟨lead, hops, rfl⟩
  · cases h

end AsmKit.A64
