import AsmKit.A64.LoadSignedRows
import AsmKit.A64.RelocatePcRel
import AsmKit.X86.ExtendRows

/-!
# The value of a widening move

The effects of the widening moves and the signed loads, carried out, against the value that the
processor writes.
-/

namespace AsmKit

open Widths

/-! ## What is widened -/

/-- The widening moves of x86 and the signed loads of AArch64. -/
def Engine.Widens (engine : Engine) (mnemonic : Nat) : Prop :=
  match engine.target.arch with
  | .x86 => X86.isExtend mnemonic
  | .aarch64 => A64.isLoadSigned mnemonic
  | _ => False

/-- `movzx` alone copies no sign. -/
def Engine.copiesSign (engine : Engine) (mnemonic : Nat) : Bool :=
  !(engine.target.arch == .x86 && mnemonic == X86.Mnemonic.movzx)

/-- A literal is a word. -/
def Operand.widenedWidth (src : Operand) : Nat := if src.kind = .pcRel then 32 else src.width

/-- The register or memory that is widened, for a literal the memory at its address. -/
def Operand.widened (src : Operand) (context : Context) : BitVec 64 :=
  if src.kind = .pcRel then context.mem { displacement := src.absTarget, addressWidth := 64 }
  else src.holds context

/-- No set sign has to be copied. A literal is not loaded, so the register holds its value already. -/
def WidensRightly (isSigned : Bool) (dst src : Operand) (context : Context) : Prop :=
  if src.kind = .pcRel then
    low dst.width (context.reg dst.reg) = extended isSigned 32 dst.width (src.widened context)
  else
    isSigned = false ∨ dst.width ≤ src.width ∨ (src.holds context).getLsbD (src.width - 1) = false

/-! ## The effects -/

section

variable {inst : Inst} {dst src : Operand} {move extend : ValueEffectKind}

theorem Extension.evalEffects_iff (hext : Extension inst dst src) {isSigned : Bool}
    (hmove : move = .copy ∨ move = .load) (hextend : extend = .signExtend ∨ extend = .zeroExtend)
    (hsrc : src.width ≠ 0) (hdst : dst.width ≠ 0) (hle : dst.width ≤ 64) (context : Context) :
    ∃ σ, AsmKit.evalEffects (extendEffects inst move extend) (inst.values context) = some σ ∧
      (low dst.width (σ (.operand 0)) =
          extended isSigned src.widenedWidth dst.width (src.widened context) ↔
        WidensRightly isSigned dst src context) := by
  have hkind : src.kind ≠ .pcRel := by
    rcases hext.src_kind with h | h <;> simp [h]
  obtain ⟨σ, heval, hvalue⟩ := hext.evalEffects hmove hextend hsrc hdst context
  refine ⟨σ, heval, ?_⟩
  rw [hvalue, low_low, Operand.widenedWidth, Operand.widened, WidensRightly, if_neg hkind, if_neg hkind,
    if_neg hkind]
  exact low_eq_extended_iff (Nat.pos_of_ne_zero hsrc) hle _

theorem evalEffects_signExtend_self (hdst : inst.operands[0]? = some dst) (hwidth : dst.width ≠ 0)
    (context : Context) :
    ∃ σ, evalEffects [{ kind := .signExtend, destination := valueOperand inst (some 0)
                        sources := [valueOperand inst (some 0)] }] (inst.values context) = some σ ∧
      σ (.operand 0) = low dst.width (dst.holds context) := by
  have hread : (valueOperand inst (some 0)).read (inst.values context) =
      low dst.width (dst.holds context) := by
    rw [ValueRef.read, valueOperand_width hdst, valueOperand_contents hdst,
      Inst.values_operand hdst]
  have hsource : ValueEffect.source { kind := .signExtend, destination := valueOperand inst (some 0)
                                      sources := [valueOperand inst (some 0)] } 0 =
      valueOperand inst (some 0) := by
    have hne : (valueOperand inst (some 0)).width ≠ 0 := by rwa [valueOperand_width hdst]
    simp only [ValueEffect.source, List.getD_cons_zero, hne, if_false]
  refine ⟨_, by rw [evalEffects_cons, ValueEffect.step, ValueEffect.result, hsource]; rfl, ?_⟩
  show (valueOperand inst (some 0)).write (signed (valueOperand inst (some 0)).width
    (valueOperand inst (some 0)).width ((valueOperand inst (some 0)).read (inst.values context)))
    (inst.values context) (.operand 0) = _
  rw [valueOperand_write hdst, Function.update_self, hread, valueOperand_width hdst, signed_self,
    low_low, low_low]

end

/-! ## Decoded instructions -/

section

variable {tables : AsmKit.Tables} {engine : Engine} {inst0 : Inst} {dst src : Operand}

theorem X86.ExtendDecoded.extension (hrows : X86.ExtendRows tables)
    (h : X86.ExtendDecoded engine inst0 dst src) :
    Extension (applyOperandMetadata tables inst0)
      (dst.withInfos (tables.operandInfos .x86 inst0.id))
      (src.withInfos (tables.operandInfos .x86 inst0.id)) where
  operands := by simp [applyOperandMetadata, h.operands, h.arch]
  dst_kind := by simp [h.dst_kind]
  src_kind := by simpa using h.src_kind
  written := by
    rw [Operand.withInfos_flags, Operand.withInfos_flags, h.flags.1, h.flags.2, h.indices.1, h.indices.2]
    rcases h.row with ⟨hid, -⟩ | ⟨row, hmem, hid, -⟩
    · rw [hid, hrows.other]
      exact .inr (by decide)
    · rw [hid, hrows.infos row hmem]
      exact .inl (by simp [ExtendRow.infos]; decide)
  instClass := by
    have hrow : ∀ row ∈ X86.extendRows, row.instClass ≠ .store := by decide
    rcases h.row with ⟨-, hclass⟩ | ⟨row, hmem, -, hclass⟩
    · simp [applyOperandMetadata, hclass]
    · simpa [applyOperandMetadata, hclass] using hrow row hmem

theorem A64.LoadDecoded.extension {l : A64.LoadSigned} (hrows : A64.LoadSignedRows tables)
    (hmem : l ∈ A64.loadSignedRows) (harch : inst0.arch = .aarch64) (h : A64.LoadDecoded l inst0 dst src) :
    Extension (applyOperandMetadata tables inst0)
      (dst.withInfos (tables.operandInfos .aarch64 inst0.id))
      (src.withInfos (tables.operandInfos .aarch64 inst0.id)) where
  operands := by simp [applyOperandMetadata, h.operands, harch]
  dst_kind := by simp [h.dst_kind]
  src_kind := by simp [h.src_kind]
  written := by
    have hinfo : l.infos[if l.form.writesBack then 1 else 0]? =
        some ⟨OperandFlag.explicit ||| OperandFlag.write, l.width⟩ := by
      unfold A64.LoadSigned.infos
      cases l.form <;> rfl
    left
    rw [Operand.withInfos_flags, h.dst_flags, h.id, hrows.infos l hmem, h.indices.1, hinfo]
    show hasFlag (0 ||| (OperandFlag.explicit ||| OperandFlag.write)) OperandFlag.write = true
    decide
  instClass := by simp [applyOperandMetadata, h.instClass]

end

/-! ## The whole -/

section

variable {tables : AsmKit.Tables} {engine : Engine} {code : List Byte} {address : BitVec 64}
  {prior inst : Inst} {state : Option DecodeState} {control : ControlAnalysis}

/-- What is said of a widening instruction with the operands `dst` and `src`. -/
def WidenedIff (engine : Engine) (inst : Inst) (control : ControlAnalysis) : Prop :=
  ∃ va dst src, analyzeInstValues engine inst control = .ok va ∧ inst.operands = [dst, src] ∧
    dst.kind = .reg ∧ dst.width ≤ 64 ∧
    ∀ context, ∃ σ, evalEffects va.effects (inst.values context) = some σ ∧
      (low dst.width (σ (.operand 0)) =
          extended (engine.copiesSign inst.mnemonicId) src.widenedWidth dst.width (src.widened context) ↔
        WidensRightly (engine.copiesSign inst.mnemonicId) dst src context)

theorem X86.widened_iff (hrows : X86.ExtendRows tables) (harch : engine.target.arch = .x86)
    (hdec : AsmKit.decodeOne tables engine code address prior = .ok inst)
    (hmnemonic : X86.isExtend inst.mnemonicId) (hsource : 1 < inst.operands.length)
    (control : ControlAnalysis) : WidenedIff engine inst control := by
  obtain ⟨inst0, hgen, rfl⟩ := decodeOne_x86 harch hdec
  obtain ⟨dst, src, h⟩ := X86.decodeOne_extend hrows hgen hmnemonic
    (by simpa [applyOperandMetadata] using hsource)
  have hext := h.extension hrows
  obtain ⟨move, hmove, heffects⟩ := X86.values_extension hext hmnemonic control
  have hd : dst.width ≠ 0 ∧ dst.width ≤ 64 := by
    rcases h.dst_width with h | h | h <;> omega
  have hs : src.width ≠ 0 := by
    rcases h.src_width with h | h | h <;> omega
  have hdst := Operand.withInfos_width (tables.operandInfos .x86 inst0.id) dst hd.1
  have hsrc := Operand.withInfos_width (tables.operandInfos .x86 inst0.id) src hs
  refine ⟨_, _, _, analyzeInstValues_eq_x86 control h.mode.symm harch h.arch, hext.operands,
    hext.dst_kind, hdst.symm ▸ hd.2, ?_⟩
  intro context
  rw [heffects]
  refine hext.evalEffects_iff hmove ?_ (hsrc.symm ▸ hs) (hdst.symm ▸ hd.1) (hdst.symm ▸ hd.2) context
  split
  · exact .inr rfl
  · exact .inl rfl

theorem A64.widened_memory {inst0 : Inst} {l : A64.LoadSigned} {dst src : Operand}
    (hrows : A64.LoadSignedRows tables) (harch : engine.target.arch = .aarch64)
    (hfrom : A64.FromCode engine code address inst0)
    (hmnemonic : A64.isLoadSigned inst0.mnemonicId) (hmem : l ∈ A64.loadSignedRows)
    (h : A64.LoadDecoded l inst0 dst src)
    (hcontrol : control.semantics = A64.analyze (applyOperandMetadata tables inst0)) :
    WidenedIff engine (applyOperandMetadata tables inst0) control := by
  have hext := h.extension hrows hmem hfrom.arch
  have hkinds : ∀ operand ∈ (applyOperandMetadata tables inst0).operands, operand.kind ≠ .pcRel := by
    rw [hext.operands]
    simp [h.dst_kind, h.src_kind]
  have haddress : control.semantics.pcRel.isAddressMaterialization = false := by
    rw [hcontrol]
    exact A64.analyze_isAddressMaterialization hkinds
  have hd : dst.width ≠ 0 ∧ dst.width ≤ 64 := by
    rw [h.dst_width]
    rcases l.width_cases with h | h <;> omega
  have hs : src.width ≠ 0 := by
    rw [h.src_width]
    simp [Nat.shiftLeft_eq]
  have hdst := Operand.withInfos_width (tables.operandInfos .aarch64 inst0.id) dst hd.1
  have hsrc := Operand.withInfos_width (tables.operandInfos .aarch64 inst0.id) src hs
  refine ⟨_, _, _, analyzeInstValues_eq_aarch64 control hfrom.mode.symm harch hfrom.arch, hext.operands,
    hext.dst_kind, hdst.symm ▸ hd.2, ?_⟩
  intro context
  have hwidens : A64.isLoadSigned (applyOperandMetadata tables inst0).mnemonicId := hmnemonic
  rw [if_pos (.inl h.instClass : (applyOperandMetadata tables inst0).instClass = .load ∨ _),
    A64.values_extension hwidens haddress hext (by simp [h.src_kind])]
  exact hext.evalEffects_iff (.inr rfl) (.inl rfl) (hsrc.symm ▸ hs) (hdst.symm ▸ hd.1) (hdst.symm ▸ hd.2)
    context

theorem A64.widened_literal {inst0 : Inst} (hrows : A64.LoadSignedRows tables)
    (harch : engine.target.arch = .aarch64) (hfrom : A64.FromCode engine code address inst0)
    (hlen : 4 ≤ code.length)
    (hmnemonic : A64.isLoadSigned inst0.mnemonicId)
    (hw : load32le code &&& A64.ldrswLiteralRow.mask = A64.ldrswLiteralRow.value)
    (hfinish : A64.finishTd tables.a64 engine code address A64.ldrswLiteralRow.record = .ok inst0)
    (hcontrol : control.semantics = A64.analyze (applyOperandMetadata tables inst0)) :
    WidenedIff engine (applyOperandMetadata tables inst0) control := by
  obtain ⟨dst, src, h⟩ := A64.finishTd_literal hfinish
  have hmem : A64.ldrswLiteralRow ∈ A64.pcRelRows := by decide
  have haddress : control.semantics.pcRel.isAddressMaterialization = false := by
    obtain ⟨inst1, hrow, hdecoded⟩ := @A64.finishTd_row tables.a64 engine _
      (A64.wellFormed_of_mem _ hmem) code hlen address
    rw [hfinish] at hrow
    cases hrow
    rw [hcontrol]
    have hno : A64.isAddressMaterialization inst0 = false := hdecoded.isAddressMaterialization hmem hw
    exact A64.analyze_not_address hno
  generalize hdst : dst.withInfos (tables.operandInfos .aarch64 inst0.id) = dst'
  generalize hsrc : src.withInfos (tables.operandInfos .aarch64 inst0.id) = src'
  have hops : (applyOperandMetadata tables inst0).operands = [dst', src'] := by
    simp [applyOperandMetadata, h.operands, hfrom.arch, hdst, hsrc]
  have hkinds : dst'.kind = .reg ∧ src'.kind = .pcRel := by
    simp [← hdst, ← hsrc, h.dst_kind, h.src_kind]
  have hwidth : dst'.width = 64 := by
    rw [← hdst, Operand.withInfos_width _ _ (by rw [h.dst_width]; decide), h.dst_width]
  have hwritten : hasFlag dst'.flags OperandFlag.write = true := by
    rw [← hdst, Operand.withInfos_flags, h.dst_flags, h.id, hrows.literalInfos, h.indices.1]
    decide
  have hnone : findMemoryOperand (applyOperandMetadata tables inst0) = none := by
    simp [findMemoryOperand, hops, List.findIdx?_cons, hkinds]
  have hdestination : findDestinationOperand (applyOperandMetadata tables inst0) = some 0 := by
    simp [findDestinationOperand, hops, List.findIdx?_cons, hwritten]
  have heffects : (emitExtend (applyOperandMetadata tables inst0) .signExtend
      (emitMemoryEffect (applyOperandMetadata tables inst0) {})).effects =
      [{ kind := .signExtend, destination := valueOperand (applyOperandMetadata tables inst0) (some 0)
         sources := [valueOperand (applyOperandMetadata tables inst0) (some 0)] }] := by
    unfold emitExtend emitMemoryEffect
    simp [hnone, hdestination, ValueAnalysis.addEffect, maxValueEffects]
  have hwidens : A64.isLoadSigned (applyOperandMetadata tables inst0).mnemonicId := hmnemonic
  refine ⟨_, dst', src', analyzeInstValues_eq_aarch64 control hfrom.mode.symm harch hfrom.arch, hops,
    hkinds.1, by omega, ?_⟩
  intro context
  rw [if_pos (.inl h.instClass : (applyOperandMetadata tables inst0).instClass = .load ∨ _),
    A64.values_loadSigned hwidens haddress, heffects]
  obtain ⟨σ, heval, hvalue⟩ := @evalEffects_signExtend_self (applyOperandMetadata tables inst0) dst'
    (by rw [hops]; rfl) (by omega) context
  refine ⟨σ, heval, ?_⟩
  rw [hvalue, low_low, Operand.holds_reg hkinds.1, WidensRightly, if_pos hkinds.2,
    Operand.widenedWidth, if_pos hkinds.2]

/-- The effects of a widening instruction give the widened value when no set sign has to be copied,
and those of a literal load when the register holds the value already. -/
theorem widening_iff (hx86 : X86.ExtendRows tables) (ha64 : A64.LoadSignedRows tables)
    (hdec : decodeOne tables engine code address prior = .ok inst)
    (hwidens : engine.Widens inst.mnemonicId) (hsource : 1 < inst.operands.length)
    (hcontrol : analyzeInstWithState engine inst state = .ok control) :
    WidenedIff engine inst control := by
  unfold Engine.Widens at hwidens
  split at hwidens
  · exact X86.widened_iff hx86 ‹_› hdec hwidens hsource control
  · rename_i harch
    have hsemantics : control.semantics = A64.analyze inst := by
      have h := analyzeInst_of_withState hcontrol
      simp only [analyzeInst, harch] at h
      exact (Except.ok.inj h).symm
    obtain ⟨inst0, hgen, rfl⟩ := decodeOne_aarch64 harch hdec
    have hfrom := A64.decodeOne_fromCode hgen
    rcases A64.decodeOne_loadSigned ha64 hgen hwidens with ⟨l, hmem, dst, src, h⟩ | ⟨hw, hfinish⟩
    · exact A64.widened_memory ha64 harch hfrom hwidens hmem h hsemantics
    · exact A64.widened_literal ha64 harch hfrom (A64.length_of_decodeOne hgen) hwidens hw hfinish
        hsemantics
  · cases hwidens

end

/-! ## At fixed instructions -/

/-- Tables with the rows of the widening moves and of the signed loads from memory alone. -/
def widenTables : AsmKit.Tables :=
  { noTables with
    x86 :=
      { noTables.x86 with
        bucket := fun index => (X86.extendRows.map (·.record)).filter fun record =>
          record.opcodeMap * 256 + record.opcode.toNat == index / 54 }
    a64 :=
      { A64.Tables.ofRecords (A64.loadSignedRows.map (·.record)) with
        hasWritebackBaseFirst := fun id =>
          A64.loadSignedRows.any fun l => l.record.id == id && l.form.writesBack }
    operandInfos := fun arch id =>
      match arch with
      | .x86 => ((X86.extendRows.find? (·.id == id)).map (·.infos)).getD []
      | _ =>
        if id = A64.ldrswLiteralRow.id then A64.ldrswLiteralInfos
        else ((A64.loadSignedRows.find? (·.record.id == id)).map (·.infos)).getD [] }

theorem widenTables_x86 : X86.ExtendRows widenTables where
  row record hholds _ := by
    rcases hholds with ⟨index, hmem⟩ | ⟨_, _, _, _, hfast⟩
    · simp only [widenTables, List.mem_filter, List.mem_map] at hmem
      obtain ⟨⟨row, hrow, heq⟩, -⟩ := hmem
      exact ⟨row, hrow, heq.symm⟩
    · cases hfast
  infos := by decide
  other := by decide

theorem widenTables_a64 : A64.LoadSignedRows widenTables where
  row w candidate hmem _ := by
    obtain ⟨record, hrecord, rfl⟩ := List.mem_map.1 hmem
    obtain ⟨l, hl, rfl⟩ := List.mem_map.1 hrecord
    exact .inl ⟨l, hl, rfl⟩
  infos := by decide
  literalInfos := by decide
  writeback := by decide

/-- `ldrsb x0, [x1]`. -/
def ldrsbInst : Inst :=
  (decodeOne widenTables aarch64Engine (store32le 0x39800020) 0x1000
    aarch64Engine.emptyInst).toOption.getD aarch64Engine.emptyInst

theorem widening_ldrsb : ∃ control,
    analyzeInstWithState aarch64Engine ldrsbInst none = .ok control ∧
      WidenedIff aarch64Engine ldrsbInst control := by
  have hdec : decodeOne widenTables aarch64Engine (store32le 0x39800020) 0x1000
      aarch64Engine.emptyInst = .ok ldrsbInst := rfl
  obtain ⟨control, hcontrol⟩ : ∃ control,
    analyzeInstWithState aarch64Engine ldrsbInst none = .ok control := ⟨_, rfl⟩
  exact ⟨control, hcontrol, widening_iff widenTables_x86 widenTables_a64 hdec (.inr (.inr rfl))
    (by decide) hcontrol⟩

/-- `movsx eax, cl`. -/
def movsxInst : Inst :=
  (decodeOne widenTables x86Engine64 [0x0f, 0xbe, 0xc1] 0x1000
    x86Engine64.emptyInst).toOption.getD x86Engine64.emptyInst

/-- The byte 0x80 in every register: `movsx eax, cl` writes 0xffffff80, and its effects give 0x80. -/
theorem widening_movsx : ∃ control va dst src σ,
    decodeOne widenTables x86Engine64 [0x0f, 0xbe, 0xc1] 0x1000 x86Engine64.emptyInst = .ok movsxInst ∧
    movsxInst.mnemonicId = X86.Mnemonic.movsx ∧ movsxInst.operands = [dst, src] ∧
    dst.width = 32 ∧ src.width = 8 ∧
    extended true 8 32 (src.holds ⟨fun _ => 0x80, fun _ => 0⟩) = 0xffffff80 ∧
    analyzeInstWithState x86Engine64 movsxInst none = .ok control ∧
    analyzeInstValues x86Engine64 movsxInst control = .ok va ∧
    evalEffects va.effects (movsxInst.values ⟨fun _ => 0x80, fun _ => 0⟩) = some σ ∧
    low 32 (σ (.operand 0)) = 0x80 :=
  ⟨_, _, _, _, _, rfl, rfl, rfl, rfl, rfl, rfl, rfl, rfl, rfl, rfl⟩

end AsmKit
