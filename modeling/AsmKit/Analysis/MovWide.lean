import AsmKit.A64.RowDecode
import AsmKit.Analysis.Eval
import AsmKit.Decode.Block
import AsmKit.Isa.MovWide

/-!
# The copy of `movz` and `movn`

The value that the copy effect of an immediate move takes from its source, against the value that
the processor writes.
-/

namespace AsmKit.A64

open SignedField Widths
open Isa.A64 (MovWide decodeMovWide hw_of_decode)

/-! ## The rows -/

def movWideWidth (wide : Bool) : Nat := if wide then 64 else 32

def movWideRecord (wide negate : Bool) : Record :=
  { id := (if negate then 69366 else 69380) + if wide then 1 else 0
    mnemonicId := if negate then Mnemonic.movn else Mnemonic.movz
    mask := 0xff800000
    value := (if wide then 0x80000000 else 0) ||| if negate then 0x12800000 else 0x52800000
    fixedBits := 9, instClass := .alu, flags := 0
    descs :=
      [regDesc .gpr (movWideWidth wide),
        { operandIndex := 1, kind := .imm, width := 32, sourceMask := 0xffff },
        { operandIndex := 2, kind := .imm, width := movWideWidth wide
          transform := if wide then .movShift64 else .movShift32, sourceMask := 0x30 }]
    pieces := pieceRun 0 0 0 5 ++ pieceRun 1 0 5 16 ++ pieceRun 2 4 21 2 }

def movWideInfos (wide : Bool) : List OperandInfo :=
  [⟨OperandFlag.explicit ||| OperandFlag.write, movWideWidth wide⟩,
    ⟨OperandFlag.explicit ||| OperandFlag.read, 32⟩,
    ⟨OperandFlag.explicit ||| OperandFlag.read, movWideWidth wide⟩]

/-- What the tables say of `movz` and `movn`. -/
structure MovWideRows (tables : AsmKit.Tables) : Prop where
  row : ∀ wide negate, tables.a64.Alone (movWideRecord wide negate)
  infos : ∀ wide negate,
    tables.operandInfos .aarch64 (movWideRecord wide negate).id = movWideInfos wide

theorem movWideRecord_wellFormed (wide negate : Bool) : (movWideRecord wide negate).WellFormed where
  nonempty := by simp [movWideRecord]
  indicesOk := by cases wide <;> cases negate <;> decide
  ordered := by cases wide <;> cases negate <;> decide
  predicate := rfl
  notBti := by
    unfold Record.MatchesBti
    cases wide <;> cases negate <;> decide

theorem movWideWidth_cases (wide : Bool) : movWideWidth wide = 32 ∨ movWideWidth wide = 64 := by
  cases wide
  · exact .inl rfl
  · exact .inr rfl

theorem movWideRecord_value {w : BitVec 32} {m : MovWide} (h : decodeMovWide w = some m) :
    w &&& (movWideRecord m.wide m.negate).mask = (movWideRecord m.wide m.negate).value := by
  unfold decodeMovWide at h
  split at h
  · rename_i hw
    cases h
    have hbits : ∀ v : BitVec 32, w &&& 0xff800000 = v →
        w.getLsbD 31 = v.getLsbD 31 ∧ w.getLsbD 30 = v.getLsbD 30 := by
      rintro v rfl
      simp
    show w &&& 0xff800000 = (movWideRecord (w.getLsbD 31) (!w.getLsbD 30)).value
    rcases BitPattern.and_or_twoPow hw.1 30 with h | h <;>
      rcases BitPattern.and_or_twoPow h 31 with h | h <;>
      obtain ⟨h31, h30⟩ := hbits _ h <;> rw [h31, h30] <;> exact h.trans (by decide)
  · cases h

/-! ## The instruction -/

section

variable {w : BitVec 32} {m : MovWide}

theorem movWide_operands (h : decodeMovWide w = some m) (address : BitVec 64) :
    (movWideRecord m.wide m.negate).descs.map
        (decodeTdOperand (movWideRecord m.wide m.negate) w address) =
      [Operand.ofReg (tdGprId m.rd.toNat (movWideWidth m.wide) false) (movWideWidth m.wide),
        Operand.ofImm (m.imm.setWidth 64) 32,
        Operand.ofImm ((tdOperandValue (movWideRecord m.wide m.negate) w 2).setWidth 64)
          (movWideWidth m.wide)].map some := by
  have hmasked : ∀ desc ∈ (movWideRecord m.wide m.negate).descs, desc.sourceMask ≠ 0 := by
    cases m.wide <;> cases m.negate <;> decide
  have hfields : m.rd = field 5 0 w ∧ m.imm = field 16 5 w := by
    unfold decodeMovWide at h
    split at h
    · cases h
      exact ⟨rfl, rfl⟩
    · cases h
  have hrd : tdOperandValue (movWideRecord m.wide m.negate) w 0 = m.rd.setWidth 32 := by
    have hpieces : (movWideRecord m.wide m.negate).pieces =
        [] ++ pieceRun 0 0 0 5 ++ (pieceRun 1 0 5 16 ++ pieceRun 2 4 21 2) := rfl
    rw [tdOperandValue_of_masked hmasked, hpieces, hfields.1]
    exact gather_pieceRun (by simp) (by decide) 0 w
  have himm : tdOperandValue (movWideRecord m.wide m.negate) w 1 = m.imm.setWidth 32 := by
    rw [tdOperandValue_of_masked hmasked, hfields.2]
    exact gather_pieceRun (by decide) (by decide) 5 w
  have hreg : decodeTdOperand (movWideRecord m.wide m.negate) w address
      (regDesc .gpr (movWideWidth m.wide)) = _ :=
    decodeTdOperand_gpr hrd rfl rfl (movWideWidth_cases m.wide) rfl rfl
  have hshift : ∀ wide : Bool, (if wide then Transform.movShift64 else .movShift32) = .rawUnsigned ∨
      (if wide then Transform.movShift64 else .movShift32) = .movShift32 ∨
      (if wide then Transform.movShift64 else .movShift32) = .movShift64 := by decide
  have hwiden : (m.imm.setWidth 32).setWidth 64 = m.imm.setWidth 64 := by bv_omega
  simp only [movWideRecord, List.map_cons, List.map_nil] at hreg himm ⊢
  rw [hreg, decodeTdOperand_imm address rfl (.inl rfl), himm, hwiden,
    decodeTdOperand_imm address rfl (hshift m.wide)]
  rfl

variable {tables : AsmKit.Tables} {engine : Engine} {code : List Byte} {address : BitVec 64}
  {prior inst : Inst}

theorem decodeOne_movWide (hrows : MovWideRows tables) (harch : engine.target.arch = .aarch64)
    (hm : decodeMovWide (load32le code) = some m)
    (hdec : AsmKit.decodeOne tables engine code address prior = .ok inst) :
    inst.arch = .aarch64 ∧ inst.mode = engine.config.mode ∧ inst.instClass = .alu ∧
      inst.mnemonicId = (movWideRecord m.wide m.negate).mnemonicId ∧
      ∃ o imm shift, inst.operands = [o, imm, shift] ∧
        (o.kind = .reg ∧ o.reg = tdGprId m.rd.toNat (movWideWidth m.wide) false ∧
          o.width = movWideWidth m.wide ∧ hasFlag o.flags OperandFlag.write = true) ∧
        (imm.kind = .imm ∧ imm.imm = m.imm.setWidth 64) ∧ shift.kind = .imm := by
  obtain ⟨inst0, hgen, rfl⟩ := decodeOne_aarch64 harch hdec
  have hfrom := decodeOne_fromCode hgen
  obtain ⟨hmnemonic, hclass, hid, hops⟩ := decodeOne_of_operands (hrows.row m.wide m.negate)
    (movWideRecord_wellFormed _ _) (movWideRecord_value hm) (movWide_operands hm address)
    (engine.mode_of_aarch64 harch) hgen
  have hprefetch : (movWideRecord m.wide m.negate).isPrefetchMemory = false := by
    cases m.wide <;> cases m.negate <;> decide
  rw [foldTdMemoryOperands_of_class (by simp [movWideRecord]) (by simp [movWideRecord]) hprefetch] at hops
  refine ⟨hfrom.arch, hfrom.mode, hclass, hmnemonic, ?_⟩
  have hwidth : movWideWidth m.wide ≠ 0 := by
    rcases movWideWidth_cases m.wide with h | h <;> rw [h] <;> decide
  simp only [applyOperandMetadata, hops, hfrom.arch, hid, hrows.infos]
  refine ⟨_, _, _, rfl, ⟨rfl, rfl, if_neg hwidth, ?_⟩, ⟨rfl, rfl⟩, rfl⟩
  show hasFlag (0 ||| (OperandFlag.explicit ||| OperandFlag.write)) OperandFlag.write = true
  decide

/-! ## The effect -/

theorem emitCopy_effects {o source : Operand} {rest : List Operand}
    (hops : inst.operands = o :: source :: rest)
    (hwrite : hasFlag o.flags OperandFlag.write = true) :
    (emitCopy inst {}).effects =
      [{ kind := .copy, destination := valueOperand inst (some 0)
         sources := [valueOperand inst (some 1)] }] := by
  have hdestination : findDestinationOperand inst = some 0 := by
    simp [findDestinationOperand, hops, List.findIdx?_cons, hwrite]
  have hsource : findSourceOperand inst (some 0) none = some 1 := by
    simp [findSourceOperand, hops, List.range_succ_eq_map]
  unfold emitCopy
  simp only [hdestination, hsource]
  rfl

theorem values_movWide {wide negate : Bool} (control : ControlAnalysis)
    (hcontrol : control.semantics.pcRel.isAddressMaterialization = false)
    (h : inst.mnemonicId = (movWideRecord wide negate).mnemonicId) :
    (A64.values inst control {}).effects = (emitCopy inst {}).effects := by
  have hne : inst.mnemonicId ≠ Mnemonic.adr ∧ inst.mnemonicId ≠ Mnemonic.adrp ∧
      inst.mnemonicId ≠ Mnemonic.ldrsw ∧ inst.mnemonicId ≠ Mnemonic.ldrsh ∧
      inst.mnemonicId ≠ Mnemonic.ldrsb := by
    rw [h]
    cases wide <;> cases negate <;> decide
  have hmove : inst.mnemonicId = Mnemonic.mov ∨ inst.mnemonicId = Mnemonic.movz ∨
      inst.mnemonicId = Mnemonic.movn := by
    rw [h]
    cases wide <;> cases negate <;> decide
  obtain ⟨hadr, hadrp, hldrsw, hldrsh, hldrsb⟩ := hne
  unfold A64.values
  simp only [hadr, hadrp, hldrsw, hldrsh, hldrsb, hcontrol, hmove, Bool.false_eq_true, or_self,
    false_and, if_false, if_true]
  split
  · rfl
  split <;> rfl

end

/-! ## The whole -/

section

variable {tables : AsmKit.Tables} {engine : Engine} {code : List Byte} {address : BitVec 64}
  {prior inst : Inst} {state : Option DecodeState} {control : ControlAnalysis} {m : MovWide}

/-- The source of the copy of `movz` is what the move writes when the halfword is not shifted or zero;
the one of `movn` is so for `0xffff` in the upper half of a 32-bit register alone. -/
theorem movWide_copy_iff (hrows : MovWideRows tables) (harch : engine.target.arch = .aarch64)
    (hm : decodeMovWide (load32le code) = some m)
    (hdec : AsmKit.decodeOne tables engine code address prior = .ok inst)
    (hcontrol : analyzeInstWithState engine inst state = .ok control) :
    ∃ va destination source, analyzeInstValues engine inst control = .ok va ∧
      va.effects = [{ kind := .copy, destination, sources := [source] }] ∧
      destination.kind = .operand ∧ destination.width = movWideWidth m.wide ∧
      destination.registerId = tdGprId m.rd.toNat destination.width false ∧
      ∀ context, low destination.width (source.contents (inst.values context)) = m.value ↔ m.Bare := by
  obtain ⟨hinst, hmode, hclass, hmnemonic, o, imm, shift, hops, ⟨hkind, hreg, hwidth, hwrite⟩,
    ⟨himmKind, himm⟩, hshift⟩ := decodeOne_movWide hrows harch hm hdec
  have hsemantics : control.semantics = analyze inst := by
    have h := analyzeInst_of_withState hcontrol
    simp only [analyzeInst, harch] at h
    exact (Except.ok.inj h).symm
  have hkinds : ∀ operand ∈ inst.operands, operand.kind ≠ .pcRel := by
    simp [hops, hkind, himmKind, hshift]
  have haddress : control.semantics.pcRel.isAddressMaterialization = false := by
    rw [hsemantics]
    exact analyze_isAddressMaterialization hkinds
  have hplain : ¬ (inst.instClass = .load ∨ inst.instClass = .store) := by simp [hclass]
  rw [analyzeInstValues_eq_aarch64 control hmode.symm harch hinst, if_neg hplain]
  refine ⟨_, valueOperand inst (some 0), valueOperand inst (some 1), rfl, ?_, ?_, ?_, ?_, ?_⟩
  · rw [values_movWide control haddress hmnemonic, emitCopy_effects hops hwrite]
  · simp [valueOperand, hops]
  · simp [valueOperand, hops, hwidth]
  · simp [valueOperand, hops, hkind, hreg, hwidth]
  · intro context
    have hhalf : 16 ≤ movWideWidth m.wide := by
      rcases movWideWidth_cases m.wide with h | h <;> rw [h] <;> decide
    have hholds : imm.holds context = m.imm.setWidth 64 := by
      simp only [Operand.holds, himmKind, himm]
    rw [valueOperand_width (by rw [hops]; rfl : inst.operands[0]? = some o), hwidth,
      valueOperand_contents (by rw [hops]; rfl : inst.operands[1]? = some imm),
      Inst.values_operand (by rw [hops]; rfl : inst.operands[1]? = some imm), hholds,
      low_setWidth _ hhalf, eq_comm]
    exact MovWide.value_eq_imm_iff (hw_of_decode hm)

end

/-! ## At fixed words -/

def movWideRecords : List Record :=
  [movWideRecord false false, movWideRecord true false, movWideRecord false true,
    movWideRecord true true]

/-- Tables with the rows of `movz` and `movn` alone. -/
def movWideTables : AsmKit.Tables :=
  { noTables with
    a64 := .ofRecords movWideRecords
    operandInfos := fun _ id => movWideInfos (id % 2 == 1) }

theorem movWideTables_rows : MovWideRows movWideTables where
  row wide negate := by
    apply Tables.ofRecords_alone (by decide)
    cases wide <;> cases negate <;> simp [movWideRecords]
  infos wide negate := by cases wide <;> cases negate <;> rfl

/-- `movz w0, #1`. -/
def movzInst : Inst :=
  (AsmKit.decodeOne movWideTables aarch64Engine (store32le 0x52800020) 0x1000
    aarch64Engine.emptyInst).toOption.getD aarch64Engine.emptyInst

theorem movWide_copy_movz : ∃ control va destination source,
    analyzeInstWithState aarch64Engine movzInst none = .ok control ∧
      analyzeInstValues aarch64Engine movzInst control = .ok va ∧
      va.effects = [{ kind := .copy, destination, sources := [source] }] ∧
      destination.kind = .operand ∧ destination.width = 32 ∧
      destination.registerId = tdGprId 0 destination.width false ∧
      ∀ context, low destination.width (source.contents (movzInst.values context)) =
        MovWide.value ⟨false, false, 0, 1, 0⟩ ↔ MovWide.Bare ⟨false, false, 0, 1, 0⟩ := by
  have hdec : AsmKit.decodeOne movWideTables aarch64Engine (store32le 0x52800020) 0x1000
      aarch64Engine.emptyInst = .ok movzInst := rfl
  have hm : decodeMovWide (load32le (store32le 0x52800020)) = some ⟨false, false, 0, 1, 0⟩ := rfl
  obtain ⟨control, hcontrol⟩ : ∃ control,
    analyzeInstWithState aarch64Engine movzInst none = .ok control := ⟨_, rfl⟩
  obtain ⟨va, destination, source, h⟩ := movWide_copy_iff movWideTables_rows rfl hm hdec hcontrol
  exact ⟨control, va, destination, source, hcontrol, h⟩

/-- `movz x0, #1, lsl #16`. -/
def movzShiftedInst : Inst :=
  (AsmKit.decodeOne movWideTables aarch64Engine (store32le 0xd2a00020) 0x1000
    aarch64Engine.emptyInst).toOption.getD aarch64Engine.emptyInst

/-- It writes 0x10000, and its copy takes 1. -/
theorem movWide_copy_shifted : ∃ control va destination source,
    AsmKit.decodeOne movWideTables aarch64Engine (store32le 0xd2a00020) 0x1000
      aarch64Engine.emptyInst = .ok movzShiftedInst ∧
    decodeMovWide (load32le (store32le 0xd2a00020)) = some ⟨true, false, 1, 1, 0⟩ ∧
    MovWide.value ⟨true, false, 1, 1, 0⟩ = 0x10000 ∧
    analyzeInstWithState aarch64Engine movzShiftedInst none = .ok control ∧
    analyzeInstValues aarch64Engine movzShiftedInst control = .ok va ∧
    va.effects = [{ kind := .copy, destination, sources := [source] }] ∧
    low destination.width (source.contents (movzShiftedInst.values ⟨fun _ => 0, fun _ => 0⟩)) = 1 :=
  ⟨_, _, _, _, rfl, rfl, rfl, rfl, rfl, rfl, rfl⟩

end AsmKit.A64
