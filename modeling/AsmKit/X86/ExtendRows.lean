import AsmKit.Analysis.Extend
import AsmKit.X86.Origin

/-!
# The rows of `movsx`, `movsxd` and `movzx`

What the decoder makes of the widening moves: a register from a narrower register or from memory.
-/

namespace AsmKit.X86

/-! ## The rows -/

structure ExtendRow where
  id : Nat
  mnemonicId : Nat
  opcode : Byte
  dst : Nat
  src : Nat
  mem : Bool
  instClass : InstClass := .alu
deriving DecidableEq, Repr

def ExtendRow.record (row : ExtendRow) : Record :=
  { id := row.id, mnemonicId := row.mnemonicId, opcode := row.opcode
    opcodeMap := if row.opcode = 0x63 then 0 else 1
    modrmKind := if row.mem then .mem else .reg
    opSize := if row.dst = 16 then .o16 else if row.dst = 32 then .o32 else .fixed
    rexW := row.dst == 64, nameHas64 := row.dst == 64, instClass := row.instClass
    decodeForm := .modrmRegRm
    operands :=
      [{ kind := .reg, regClass := .gpr, width := row.dst },
        if row.mem then { kind := .mem, width := row.src }
        else { kind := .reg, regClass := .gpr, width := row.src }]
    rmOperand := 1, regOperand := 0 }

def extendRows : List ExtendRow :=
  [⟨67457, Mnemonic.movsx, 0xbe, 16, 8, false, .alu⟩, ⟨67454, Mnemonic.movsx, 0xbe, 16, 8, true, .load⟩,
    ⟨67463, Mnemonic.movsx, 0xbe, 32, 8, false, .alu⟩, ⟨67460, Mnemonic.movsx, 0xbe, 32, 8, true, .alu⟩,
    ⟨67469, Mnemonic.movsx, 0xbe, 64, 8, false, .alu⟩, ⟨67466, Mnemonic.movsx, 0xbe, 64, 8, true, .alu⟩,
    ⟨67455, Mnemonic.movsx, 0xbf, 16, 16, false, .alu⟩,
    ⟨67452, Mnemonic.movsx, 0xbf, 16, 16, true, .load⟩,
    ⟨67461, Mnemonic.movsx, 0xbf, 32, 16, false, .alu⟩,
    ⟨67458, Mnemonic.movsx, 0xbf, 32, 16, true, .alu⟩,
    ⟨67467, Mnemonic.movsx, 0xbf, 64, 16, false, .alu⟩,
    ⟨67464, Mnemonic.movsx, 0xbf, 64, 16, true, .alu⟩,
    ⟨67456, Mnemonic.movsxd, 0x63, 16, 32, false, .alu⟩,
    ⟨67453, Mnemonic.movsxd, 0x63, 16, 32, true, .load⟩,
    ⟨67462, Mnemonic.movsxd, 0x63, 32, 32, false, .alu⟩,
    ⟨67459, Mnemonic.movsxd, 0x63, 32, 32, true, .load⟩,
    ⟨67468, Mnemonic.movsxd, 0x63, 64, 32, false, .alu⟩,
    ⟨67465, Mnemonic.movsxd, 0x63, 64, 32, true, .alu⟩,
    ⟨67482, Mnemonic.movzx, 0xb6, 16, 8, false, .alu⟩, ⟨67480, Mnemonic.movzx, 0xb6, 16, 8, true, .load⟩,
    ⟨67486, Mnemonic.movzx, 0xb6, 32, 8, false, .alu⟩, ⟨67484, Mnemonic.movzx, 0xb6, 32, 8, true, .alu⟩,
    ⟨67490, Mnemonic.movzx, 0xb6, 64, 8, false, .alu⟩, ⟨67488, Mnemonic.movzx, 0xb6, 64, 8, true, .load⟩,
    ⟨67481, Mnemonic.movzx, 0xb7, 16, 16, false, .alu⟩,
    ⟨67479, Mnemonic.movzx, 0xb7, 16, 16, true, .load⟩,
    ⟨67485, Mnemonic.movzx, 0xb7, 32, 16, false, .alu⟩,
    ⟨67483, Mnemonic.movzx, 0xb7, 32, 16, true, .alu⟩,
    ⟨67489, Mnemonic.movzx, 0xb7, 64, 16, false, .alu⟩,
    ⟨67487, Mnemonic.movzx, 0xb7, 64, 16, true, .load⟩]

def ExtendRow.infos (row : ExtendRow) : List OperandInfo :=
  [⟨OperandFlag.explicit ||| OperandFlag.write, row.dst⟩,
    ⟨if row.mem then OperandFlag.explicit ||| OperandFlag.memory ||| OperandFlag.read
      else OperandFlag.explicit ||| OperandFlag.read, row.src⟩]

theorem extendRows_widths : ∀ row ∈ extendRows, (row.dst = 16 ∨ row.dst = 32 ∨ row.dst = 64) ∧
    (row.src = 8 ∨ row.src = 16 ∨ row.src = 32) := by decide

instance (mnemonic : Nat) : Decidable (isExtend mnemonic) := inferInstanceAs (Decidable (_ ∨ _ ∨ _))

/-- What the tables say of the widening moves. The instructions that no row decodes have no
operand information. -/
structure ExtendRows (tables : AsmKit.Tables) : Prop where
  row : ∀ record, tables.x86.Holds record → isExtend record.mnemonicId →
    ∃ row ∈ extendRows, record = row.record
  infos : ∀ row ∈ extendRows, tables.operandInfos .x86 row.id = row.infos
  other : tables.operandInfos .x86 Id.other = []

/-! ## Registers -/

theorem gprFromEncoding_valid (encoding : Byte) {width : Nat} (rexSeen : Bool)
    (hwidth : width = 8 ∨ width = 16 ∨ width = 32 ∨ width = 64) :
    gprFromEncoding encoding width rexSeen ≠ Reg.invalid := by
  have hlt : (encoding &&& 15).toNat < 16 := by
    rw [BitVec.toNat_and]
    exact Nat.lt_of_le_of_lt Nat.and_le_right (by decide)
  have hlists : ∀ registers ∈ [Reg.gpr8Rex, Reg.gpr8Legacy, Reg.gpr16, Reg.gpr32, Reg.gpr64],
      registers.length = 16 ∧ Reg.invalid ∉ registers := by decide
  have hvalid : ∀ registers ∈ [Reg.gpr8Rex, Reg.gpr8Legacy, Reg.gpr16, Reg.gpr32, Reg.gpr64],
      registers.getD (encoding &&& 15).toNat Reg.invalid ≠ Reg.invalid := by
    intro registers hmem
    obtain ⟨hlength, hnot⟩ := hlists registers hmem
    have hin : (encoding &&& 15).toNat < registers.length := by
      rw [hlength]
      exact hlt
    rw [List.getD_eq_getElem?_getD, List.getElem?_eq_getElem hin, Option.getD_some]
    intro h
    exact hnot (h ▸ List.getElem_mem hin)
  unfold gprFromEncoding
  rcases hwidth with rfl | rfl | rfl | rfl
  · cases rexSeen
    · exact hvalid _ (by simp)
    · exact hvalid _ (by simp)
  · exact hvalid _ (by simp)
  · exact hvalid _ (by simp)
  · exact hvalid _ (by simp)

/-! ## The operands -/

section

variable {engine : Engine} {e : Encoding} {row : ExtendRow}

/-- The width a general register of the row is read at: 64 bits only in the 64-bit mode. -/
def gprWidth (engine : Engine) (width : Nat) : Nat :=
  if width = 64 ∧ engine.config.mode ≠ .x86_64 then
    if engine.config.mode = .x86_16 then 16 else 32
  else width

theorem setEncoded_gpr {operand : RecordOperand} (hkind : operand.kind ≠ .opaque_)
    (hclass : operand.regClass = .none ∨ operand.regClass = .gpr)
    (hwidth : operand.width = 8 ∨ operand.width = 16 ∨ operand.width = 32 ∨ operand.width = 64)
    (ops : List Operand) (index : Nat) (encoding : Byte) (rexSeen : Bool) :
    ∃ reg, setEncoded engine ops index encoding operand rexSeen =
      ops.modify index fun o =>
        { o with kind := .reg, reg, width := gprWidth engine operand.width } := by
  obtain ⟨kind, regClass, width⟩ := operand
  have hgpr : gprWidth engine width = 8 ∨ gprWidth engine width = 16 ∨ gprWidth engine width = 32 ∨
      gprWidth engine width = 64 := by
    unfold gprWidth
    split_ifs <;> simp_all
  have hcontainer : registerOperandContainerWidth (gprWidth engine width) regClass kind =
      gprWidth engine width := by
    unfold registerOperandContainerWidth
    rcases hclass with rfl | rfl <;> simp
  refine ⟨gprFromEncoding encoding (gprWidth engine width) rexSeen, ?_⟩
  have hregister : registerFromEncodingClass encoding (gprWidth engine width) regClass rexSeen =
      gprFromEncoding encoding (gprWidth engine width) rexSeen := by
    rcases hclass with rfl | rfl <;> rfl
  have hsegment : ¬ (regClass = .segment ∧ width = 0) := by
    rcases hclass with rfl | rfl <;> simp
  unfold setEncoded
  rw [if_neg (fun h => hkind h.1)]
  simp only [hsegment, hclass, if_false, true_and]
  rw [← gprWidth, hcontainer, hregister, setReg]
  exact if_neg (gprFromEncoding_valid _ _ hgpr)

/-- Operands that only an encoded register or memory has been filled in. -/
structure FilledIn (o : Operand) (width : Nat) (o' : Operand) : Prop where
  kind : o'.kind = .reg ∨ o'.kind = .mem
  width : o'.width = width
  flags : o'.flags = o.flags
  operandIndex : o'.operandIndex = o.operandIndex

theorem setRm_gpr {operand : RecordOperand} {ops : List Operand} {index : Nat}
    (hoperand : e.record.operand index = operand) (hkind : operand.kind ≠ .opaque_)
    (hclass : operand.regClass = .none ∨ operand.regClass = .gpr)
    (hwidth : operand.width = 8 ∨ operand.width = 16 ∨ operand.width = 32) (high : Byte) :
    ∃ f : Operand → Operand, setRm engine e ops index high = ops.modify index f ∧
      ∀ o, FilledIn o operand.width (f o) := by
  have hnarrow : gprWidth engine operand.width = operand.width := by
    unfold gprWidth
    rw [if_neg]
    rintro ⟨h, -⟩
    omega
  unfold setRm
  simp only [hoperand]
  split
  · obtain ⟨reg, hset⟩ := @setEncoded_gpr engine operand hkind hclass (by tauto) ops index
      (e.modrm.rm ||| e.prefixes.rexB ||| high) e.prefixes.rexSeen
    rw [hset, hnarrow]
    exact ⟨_, rfl, fun o => ⟨.inl rfl, rfl, rfl, rfl⟩⟩
  · exact ⟨_, rfl, fun o => ⟨.inr rfl, rfl, rfl, rfl⟩⟩

theorem tdOperands_eq (he : e.record = row.record) :
    tdOperands engine e = setRm engine e (setEncoded engine (initOperands row.record) 0
      (e.modrm.reg ||| e.prefixes.rexR) (row.record.operand 0) e.prefixes.rexSeen) 1
      e.prefixes.evexRmHigh16 := by
  obtain ⟨record, prefixes, opcode, modrm, displacement, immPtr, address, len⟩ := e
  subst he
  have hcount : ∀ ops, withShiftCount ⟨row.record, prefixes, opcode, modrm, displacement, immPtr,
      address, len⟩ ops = ops := by
    intro ops
    refine if_neg ?_
    rintro ⟨-, -, -, h, -⟩
    cases h
  rw [tdOperands, hcount]
  rfl

theorem tdOperands_extend (he : e.record = row.record) (hmem : row ∈ extendRows) :
    ∃ dst src, tdOperands engine e = [dst, src] ∧
      (dst.kind = .reg ∧ dst.width = gprWidth engine row.dst ∧ dst.flags = 0 ∧ dst.operandIndex = 0) ∧
      FilledIn (Operand.empty.atIndex 1) row.src src := by
  obtain ⟨hdst, hsrc⟩ := extendRows_widths row hmem
  have hsource : (row.record.operand 1).kind ≠ .opaque_ ∧
      ((row.record.operand 1).regClass = .none ∨ (row.record.operand 1).regClass = .gpr) ∧
      (row.record.operand 1).width = row.src := by
    show (if row.mem then _ else _ : RecordOperand).kind ≠ _ ∧
      ((if row.mem then _ else _ : RecordOperand).regClass = _ ∨
        (if row.mem then _ else _ : RecordOperand).regClass = _) ∧
      (if row.mem then _ else _ : RecordOperand).width = _
    cases row.mem
    · exact ⟨by simp, .inr rfl, rfl⟩
    · exact ⟨by simp, .inl rfl, rfl⟩
  obtain ⟨hkind, hclass, hwidth⟩ := hsource
  have hreg : (row.record.operand 0).kind ≠ .opaque_ := by simp [ExtendRow.record, Record.operand]
  obtain ⟨reg, hset⟩ := @setEncoded_gpr engine (row.record.operand 0) hreg (.inr rfl) (.inr hdst)
    (initOperands row.record) 0 (e.modrm.reg ||| e.prefixes.rexR) e.prefixes.rexSeen
  have hoperand : e.record.operand 1 = row.record.operand 1 := by rw [he]
  rw [tdOperands_eq he, hset]
  obtain ⟨f, hrm, hf⟩ := @setRm_gpr engine e _ ((initOperands row.record).modify 0 fun o =>
    { o with kind := .reg, reg, width := gprWidth engine (row.record.operand 0).width }) 1 hoperand hkind
    hclass (by rw [hwidth]; exact hsrc) e.prefixes.evexRmHigh16
  rw [hrm]
  refine ⟨_, _, rfl, ⟨rfl, rfl, rfl, rfl⟩, ?_⟩
  obtain ⟨hk, hw, hfl, hi⟩ := hf _
  exact ⟨hk, hw.trans hwidth, hfl, hi⟩

end

/-! ## Mnemonics -/

theorem getD_ne {α : Type} {l : List α} {i : Nat} {d v : α} (hl : v ∉ l) (hd : d ≠ v) :
    l.getD i d ≠ v := by
  rw [List.getD_eq_getElem?_getD]
  cases h : l[i]? with
  | none => exact hd
  | some x =>
    rintro rfl
    exact hl (List.mem_of_getElem? h)

theorem ofCondition_not_extend {mnemonics : List Nat} (condition : Byte)
    (h : 484 ∉ mnemonics ∧ 485 ∉ mnemonics ∧ 488 ∉ mnemonics) :
    ¬ isExtend (ofCondition mnemonics condition) := by
  have hne : ∀ n, n ∉ mnemonics → 1 ≠ n → ofCondition mnemonics condition ≠ Mnemonic.base + n := by
    intro n hn h1 heq
    exact getD_ne hn h1 (Nat.add_left_cancel heq)
  rintro (heq | heq | heq)
  · exact hne 484 h.1 (by decide) heq
  · exact hne 485 h.2.1 (by decide) heq
  · exact hne 488 h.2.2 (by decide) heq

theorem extend_of_tdMnemonicId {e : Encoding} (h : isExtend (tdMnemonicId e)) :
    isExtend e.record.mnemonicId := by
  unfold tdMnemonicId at h
  split at h
  · split at h
    · exact absurd h (ofCondition_not_extend _ (by decide))
    split at h
    · exact absurd h (ofCondition_not_extend _ (by decide))
    · exact h
  · exact h

theorem byHand_not_extend : ∀ mnemonic ∈ [Mnemonic.endbr64, Mnemonic.endbr32, Mnemonic.nop,
    Mnemonic.in_, Mnemonic.out, Mnemonic.mov, Mnemonic.other], ¬ isExtend mnemonic := by decide

theorem sseCmpForm_le {id form : Nat} (h : sseCmpForm id = some form) : form ≤ 3 := by
  obtain ⟨before, after, heq, -⟩ := List.lookup_eq_some_iff.1 h
  have hmem : (id, form) ∈ before ++ (id, form) :: after := by simp
  rw [← heq] at hmem
  simp only [List.mem_cons, Prod.mk.injEq, List.not_mem_nil, or_false] at hmem
  omega

theorem sseCmp_not_extend {id : Nat} {predicate : Byte} {mnemonicId : Nat}
    (h : sseCmpMnemonicId id predicate = some mnemonicId) : ¬ isExtend mnemonicId := by
  obtain ⟨form, hform, rfl⟩ := Option.map_eq_some_iff.1 h
  have hforms := sseCmpForm_le hform
  have hpredicate : Mnemonic.sseCmp.getD (predicate &&& 7).toNat 0 ≤ 138 := by
    rw [List.getD_eq_getElem?_getD]
    cases hget : Mnemonic.sseCmp[(predicate &&& 7).toNat]? with
    | none => exact Nat.zero_le _
    | some p =>
      have hall : ∀ p ∈ Mnemonic.sseCmp, p ≤ 138 := by decide
      exact hall p (List.mem_of_getElem? hget)
  have hlt : Mnemonic.sseCmp.getD (predicate &&& 7).toNat 0 + form < 484 := by omega
  have hne : ∀ n, 484 ≤ n → Mnemonic.base + Mnemonic.sseCmp.getD (predicate &&& 7).toNat 0 + form ≠
      Mnemonic.base + n := by
    intro n hn
    omega
  rintro (heq | heq | heq)
  · exact hne 484 (by decide) heq
  · exact hne 485 (by decide) heq
  · exact hne 488 (by decide) heq

/-! ## Decoding -/

section

variable {engine : Engine} {code : List Byte} {address : BitVec 64} {prior inst : Inst}

theorem decodeTdModrm_extend {f : ModrmForm} {record : Record} (hf : f.Checked code)
    (h : isExtend (decodeTdModrm engine code address prior f record).mnemonicId) :
    isExtend record.mnemonicId := by
  unfold decodeTdModrm at h
  rw [finish_of_size hf.pos hf.le_max hf.le_length, Option.getD_some] at h
  simp only at h
  generalize hinst1 : populateTdOperands engine (tdEncoding code address f record) _ = inst1 at h
  have hkept : isExtend inst1.mnemonicId := by
    rcases applySseCmpAlias_cases inst1 record with halias | ⟨predicate, mnemonicId, hsse, halias⟩
    · rw [halias, ite_self] at h
      split at h <;> split at h <;> exact h
    · rw [halias] at h
      by_cases hcmp : f.head.opcodeMap = 1 ∧ f.head.opcode = 0xc2
      · rw [if_pos hcmp] at h
        refine absurd ?_ (sseCmp_not_extend hsse)
        split at h <;> split at h <;> exact h
      · rw [if_neg hcmp] at h
        split at h <;> split at h <;> exact h
  rw [← hinst1] at hkept
  unfold populateTdOperands at hkept
  split at hkept
  · exact hkept
  · exact extend_of_tdMnemonicId hkept

/-- What the widening moves are decoded to, without what the table adds. -/
structure ExtendDecoded (engine : Engine) (inst : Inst) (dst src : Operand) : Prop where
  arch : inst.arch = .x86
  mode : inst.mode = engine.config.mode
  operands : inst.operands = [dst, src]
  dst_kind : dst.kind = .reg
  src_kind : src.kind = .reg ∨ src.kind = .mem
  flags : dst.flags = 0 ∧ src.flags = 0
  indices : dst.operandIndex = 0 ∧ src.operandIndex = 1
  dst_width : dst.width = 16 ∨ dst.width = 32 ∨ dst.width = 64
  src_width : src.width = 8 ∨ src.width = 16 ∨ src.width = 32
  row : inst.id = Id.other ∧ inst.instClass = .alu ∨
    ∃ row ∈ extendRows, inst.id = row.id ∧ inst.instClass = row.instClass

theorem decodeTdModrm_row {f : ModrmForm} {row : ExtendRow} (hf : f.Checked code)
    (hmem : row ∈ extendRows) :
    ∃ dst src, ExtendDecoded engine (decodeTdModrm engine code address prior f row.record) dst src := by
  obtain ⟨dst, src, hops, ⟨hkind, hwidth, hflags, hindex⟩, hsrc⟩ :=
    @tdOperands_extend engine (tdEncoding code address f row.record) row rfl hmem
  have hform : ¬ (row.record.decodeForm = .unsupported ∨ maxOperands < row.record.operands.length) := by
    simp [ExtendRow.record, maxOperands]
  obtain ⟨mnemonicId, attributes, flags, hkept⟩ :=
    @decodeTdModrm_kept engine code address prior f row.record hf _ hform hops (by simp)
  obtain ⟨hdst, hnarrow⟩ := extendRows_widths row hmem
  rw [hkept]
  refine ⟨dst, src, rfl, rfl, rfl, hkind, hsrc.kind, ⟨hflags, hsrc.flags⟩, ⟨hindex, hsrc.operandIndex⟩, ?_,
    ?_, .inr ⟨row, hmem, rfl, rfl⟩⟩
  · rw [hwidth]
    unfold gprWidth
    split_ifs <;> simp_all
  · rw [hsrc.width]
    exact hnarrow

theorem decodeMovsxd_extend {f : ModrmForm} (hf : f.Checked code) :
    ∃ dst src, ExtendDecoded engine (decodeMovsxd engine code address prior f) dst src := by
  unfold decodeMovsxd
  simp only [finish_of_size hf.pos hf.le_max hf.le_length, Option.getD_some]
  generalize hwidth : (if f.head.prefixes.prefix66 = true then 16 else 32) = dstWidth
  have hdst : dstWidth = 16 ∨ dstWidth = 32 := by
    rw [← hwidth]
    split
    · exact .inl rfl
    · exact .inr rfl
  obtain ⟨g, hrm, hg⟩ := @setRm_gpr engine (fallbackEncoding address f
    [{ kind := .reg, regClass := .gpr, width := dstWidth },
      { kind := .mem, regClass := .gpr, width := 32 }]) _
    [Operand.ofReg (gprFromEncoding (f.modrm.reg ||| f.head.prefixes.rexR) dstWidth true) dstWidth,
      Operand.empty.atIndex 1] 1 rfl (by simp [fallbackEncoding, fallbackRecord, Record.operand]) (.inr rfl) (.inr (.inr rfl)) 0
  obtain ⟨hkind, hw, hflags, hindex⟩ := hg (Operand.empty.atIndex 1)
  rw [hrm]
  exact ⟨_, g (Operand.empty.atIndex 1), rfl, rfl, rfl, rfl, hkind, ⟨rfl, hflags⟩, ⟨rfl, hindex⟩,
    by rcases hdst with h | h <;> simp [h, Operand.ofReg], .inr (.inr hw), .inl ⟨rfl, rfl⟩⟩

theorem decodeModrmFallback_extend {f : ModrmForm} (hf : f.Checked code)
    (h : isExtend (decodeModrmFallback engine code address prior f).mnemonicId) :
    ∃ dst src, ExtendDecoded engine (decodeModrmFallback engine code address prior f) dst src := by
  unfold decodeModrmFallback at h ⊢
  simp only at h ⊢
  split at h
  · rw [if_pos ‹_›]
    exact decodeMovsxd_extend hf
  split at h
  · exact absurd h (ofCondition_not_extend _ (by decide))
  split at h
  · exact absurd h (ofCondition_not_extend _ (by decide))
  · -- What nothing above knows is `mov` or has no name.
    unfold decodeUnknown at h
    simp only [finish_of_size hf.pos hf.le_max hf.le_length, Option.getD_some] at h
    split at h
    · exact absurd h (byHand_not_extend Mnemonic.mov (by simp))
    · exact absurd h (byHand_not_extend Mnemonic.other (by simp))

theorem decodeTdNoModrm_extend {h : Head} {record : Record} (hnext : 0 < h.next)
    (hdec : decodeTdNoModrm engine code address prior h record = .ok inst)
    (hmnemonic : isExtend inst.mnemonicId) : isExtend record.mnemonicId := by
  unfold decodeTdNoModrm at hdec
  simp only at hdec
  split at hdec
  · cases hdec
  rename_i hlen
  rw [not_or, not_lt, not_lt] at hlen
  rw [finish_of_size (by omega) hlen.2 hlen.1, Option.getD_some] at hdec
  have hpopulated : ∀ (e : Encoding) (inst0 : Inst), inst0.mnemonicId = e.record.mnemonicId →
      isExtend (populateTdOperands engine e inst0).mnemonicId → isExtend e.record.mnemonicId := by
    intro e inst0 heq h
    unfold populateTdOperands at h
    split at h
    · rwa [heq] at h
    · exact extend_of_tdMnemonicId h
  cases hdec
  split at hmnemonic
  · exact hpopulated _ _ rfl hmnemonic
  · exact hpopulated _ _ rfl hmnemonic

theorem decodeOne_extend {tables : AsmKit.Tables} (hrows : ExtendRows tables)
    (hdec : decodeOne engine tables.x86 code address prior = .ok inst)
    (hmnemonic : isExtend inst.mnemonicId) (hsource : 1 < inst.operands.length) :
    ∃ dst src, ExtendDecoded engine inst dst src := by
  cases decodeOne_origin hdec with
  | endbr mnemonicId hid hfinish =>
    unfold finish at hfinish
    split at hfinish
    · cases hfinish
    cases hfinish
    exact absurd hmnemonic (byHand_not_extend mnemonicId (by rcases hid with rfl | rfl <;> simp))
  | nop hfinish =>
    unfold finish at hfinish
    split at hfinish
    · cases hfinish
    cases hfinish
    exact absurd hmnemonic (byHand_not_extend Mnemonic.nop (by simp))
  | rel hrel =>
    -- A relative branch has one operand, whatever it keeps of the record before.
    unfold decodeRelBranch at hrel
    simp only at hrel
    split at hrel
    · cases hrel
    cases hrel
    simp at hsource
  | noModrm hnext hrecord hmodrm hrow =>
    obtain ⟨row, -, rfl⟩ := hrows.row _ hrecord (decodeTdNoModrm_extend hnext hrow hmnemonic)
    simp only [ExtendRow.record] at hmodrm
    split at hmodrm <;> cases hmodrm
  | io hio =>
    unfold decodeIo at hio
    simp only at hio
    generalize (if isIoImm _ = true then 1 else 0) = immSize at hio
    split at hio
    · cases hio
    cases hio
    simp only at hmnemonic
    split at hmnemonic <;> exact absurd hmnemonic (byHand_not_extend _ (by simp))
  | other hother =>
    unfold decodeOther finish at hother
    simp only at hother
    split at hother
    · cases hother
    split at hother
    · rename_i hfinish
      split at hfinish
      · cases hfinish
      cases hfinish
      cases hother
      exact absurd hmnemonic (byHand_not_extend Mnemonic.other (by simp))
    · cases hother
  | modrm hchecked hrecord =>
    obtain ⟨row, hmem, rfl⟩ := hrows.row _ hrecord (decodeTdModrm_extend hchecked hmnemonic)
    exact decodeTdModrm_row hchecked hmem
  | fallback hchecked => exact decodeModrmFallback_extend hchecked hmnemonic

end

end AsmKit.X86
