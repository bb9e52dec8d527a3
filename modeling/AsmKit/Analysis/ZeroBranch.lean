import AsmKit.A64.PcRelDecode
import AsmKit.Analysis.Eval
import AsmKit.Arm.Thumb
import AsmKit.Isa.Thumb
import AsmKit.Relocate.A64

/-!
# The condition of compare-and-branch and test-and-branch

The relation that the value analysis reports for `cbz`, `cbnz`, `tbz` and `tbnz`, against the
branches that the processors take.
-/

namespace AsmKit

open BitPattern SignedField Widths
open A64 (PcRelRow pcRelRows)

/-! ## The reported condition -/

section

variable {inst : Inst} {o : Operand} {rest : List Operand}

theorem zeroCondition_taken (hops : inst.operands = o :: rest) (state : ConditionState)
    (relation : CompareRelation) (σ : Values) :
    (Arm.zeroCondition inst state relation).taken σ =
      relation.holds ((σ (.operand 0)).setWidth o.width) 0 := by
  have hleft : valueOperand inst (some 0) =
      { kind := .operand, width := o.width
        registerId := if o.kind = .reg then o.reg else 0
        immediate := if o.kind = .imm ∨ o.kind = .pcRel then o.imm else 0 } := by
    simp [valueOperand, hops]
  have hright : (valueImmediate 0 inst.operand0.width).read σ = 0 := low_zero
  show relation.holds (((valueOperand inst (some 0)).read σ).setWidth (valueOperand inst (some 0)).width)
    (((valueImmediate 0 inst.operand0.width).read σ).setWidth (valueOperand inst (some 0)).width) = _
  rw [hleft, hright]
  show relation.holds ((low o.width (σ (.operand 0))).setWidth o.width) ((0#64).setWidth o.width) = _
  rw [setWidth_low _ (Nat.le_refl o.width), BitVec.setWidth_zero]
  rfl

end

/-! ## ARM -/

namespace Arm

def compareBranchRecord (nonzero : Bool) : Record :=
  { id := if nonzero then 68887 else 68888
    mnemonicId := if nonzero then Mnemonic.cbnz else Mnemonic.cbz
    mask := 0xfd00, value := if nonzero then 0xb900 else 0xb100, size := 2, fixedBits := 7
    priority := 0, decodeSpace := .default
    featureBits := (Vector.replicate 8 0).set 1 0x0010000000000000, instClass := .condBranch
    flags := InstFlag.direct ||| InstFlag.terminator ||| InstFlag.conditional ||| InstFlag.pcRelative }

/-- What the tables say of `cbz` and `cbnz`: a low register, then the target. -/
structure CompareBranchRows (tables : Tables) : Prop where
  row : ∀ nonzero, tables.OnlyRow 2 (compareBranchRecord nonzero)
  operands : ∀ nonzero w address, ∃ target,
    tables.decodeTdOperands (compareBranchRecord nonzero) w address =
      some [Operand.ofReg (Reg.r0 + (w &&& 7).toNat) 32, target]

section

variable {tables : AsmKit.Tables} {engine : Engine} {code : List Byte} {address : BitVec 64}
  {prior inst : Inst} {nonzero : Bool}

theorem decodeOne_compareBranch (hrows : CompareBranchRows tables.arm)
    (harch : engine.target.arch = .arm) (hmode : engine.config.mode = .armThumb)
    (hdec : AsmKit.decodeOne tables engine code address prior = .ok inst)
    (hmnemonic : inst.mnemonicId = (compareBranchRecord nonzero).mnemonicId) :
    (load16le code).setWidth 32 &&& 0xfd00 = (compareBranchRecord nonzero).value ∧
      inst.arch = .arm ∧ inst.mode = .armThumb ∧
      ∃ o rest, inst.operands = o :: rest ∧ o.kind = .reg ∧ o.width = 32 ∧
        o.reg = Reg.r0 + ((load16le code).setWidth 32 &&& 7#32).toNat := by
  obtain ⟨inst0, hgen, rfl⟩ := decodeOne_arm harch hdec
  obtain ⟨hvalue, hfinish⟩ := (hrows.row nonzero).finishTd_of_decode hmode hgen hmnemonic
  obtain ⟨target, hops⟩ := hrows.operands nonzero (rowWord code 2) address
  have hid : (compareBranchRecord nonzero).id ≠ Id.t2It := by cases nonzero <;> decide
  simp only [finishTd, hops, hid, false_and, if_false] at hfinish
  cases hfinish
  refine ⟨hvalue, rfl, hmode, _, _, rfl, ?_, ?_, ?_⟩
  · simp [Operand.ofReg]
  · unfold Operand.withInfos
    split <;> rfl
  · unfold Operand.withInfos
    split <;> rfl

theorem values_compareBranch (control : ControlAnalysis) (va : ValueAnalysis)
    (h : inst.mnemonicId = (compareBranchRecord nonzero).mnemonicId) :
    (Arm.values inst control va).condition =
      zeroCondition inst .armFlags (if nonzero then .ne else .eq) := by
  unfold Arm.values useCondition
  cases nonzero
  · have heq : inst.mnemonicId = Mnemonic.cbz := h
    rw [if_pos heq]
    rfl
  · have heq : inst.mnemonicId = Mnemonic.cbnz := h
    have hne : inst.mnemonicId ≠ Mnemonic.cbz := by
      rw [heq]
      decide
    rw [if_neg hne, if_pos heq]
    rfl

theorem decodeCompareBranch_eq {h : BitVec 16}
    (hvalue : h.setWidth 32 &&& 0xfd00 = (compareBranchRecord nonzero).value) :
    Isa.A32.decodeCompareBranch h = some ⟨nonzero, field 3 0 h⟩ := by
  have hlow : h &&& 0xfd00 = if nonzero then 0xb900 else 0xb100 := by
    have hcut := congrArg (BitVec.setWidth 16) hvalue
    rw [BitVec.setWidth_and, BitVec.setWidth_setWidth_of_le _ (by decide), BitVec.setWidth_eq] at hcut
    refine hcut.trans ?_
    cases nonzero <;> decide
  have hmask : h &&& 0xf500 = 0xb100 := by
    have hand : h &&& 0xf500 = (h &&& 0xfd00) &&& 0xf500 := by
      rw [BitVec.and_assoc]
      rfl
    rw [hand, hlow]
    cases nonzero <;> decide
  have hbit : h.getLsbD 11 = nonzero := by
    have hget : (h &&& 0xfd00).getLsbD 11 = nonzero := by
      rw [hlow]
      cases nonzero <;> decide
    rw [BitVec.getLsbD_and] at hget
    simpa using hget
  rw [Isa.A32.decodeCompareBranch, if_pos hmask, hbit]

theorem lowRegister_eq (h : BitVec 16) :
    (h.setWidth 32 &&& 7#32).setWidth 4 = (field 3 0 h).setWidth 4 := by
  apply BitVec.eq_of_getLsbD_eq
  intro i hi
  interval_cases i <;> simp [field]

end

end Arm

/-! ## AArch64 -/

namespace A64

/-- The row of a compare or a test branch, for a register of 32 or 64 bits. -/
def zeroRow (test wide nonzero : Bool) : PcRelRow :=
  match test, wide, nonzero with
  | false, false, true => compareRow 66072 Mnemonic.cbnz 0x35000000 32
  | false, true, true => compareRow 66073 Mnemonic.cbnz 0xb5000000 64
  | false, false, false => compareRow 66074 Mnemonic.cbz 0x34000000 32
  | false, true, false => compareRow 66075 Mnemonic.cbz 0xb4000000 64
  | true, false, true => testRow 71773 Mnemonic.tbnz 0x37000000 32
  | true, true, true => testRow 71774 Mnemonic.tbnz 0xb7000000 64
  | true, false, false => testRow 71791 Mnemonic.tbz 0x36000000 32
  | true, true, false => testRow 71792 Mnemonic.tbz 0xb6000000 64

def zeroWidth (wide : Bool) : Nat := if wide then 64 else 32

theorem zeroRow_mem : ∀ test wide nonzero, zeroRow test wide nonzero ∈ pcRelRows := by decide

theorem zeroRow_mask : ∀ test wide nonzero, (zeroRow test wide nonzero).mask = 0xff000000 := by
  decide

theorem zeroRow_mnemonicId : ∀ test wide nonzero, (zeroRow test wide nonzero).mnemonicId =
    if test then (if nonzero then Mnemonic.tbnz else Mnemonic.tbz)
    else (if nonzero then Mnemonic.cbnz else Mnemonic.cbz) := by decide

theorem zeroRow_value {w : BitVec 32} {test : Bool}
    (h : w &&& 0x7e000000 = if test then 0x36000000 else 0x34000000) :
    w &&& (zeroRow test (w.getLsbD 31) (w.getLsbD 24)).mask =
      (zeroRow test (w.getLsbD 31) (w.getLsbD 24)).value := by
  have hbits : ∀ v : BitVec 32, w &&& 0xff000000 = v →
      w.getLsbD 31 = v.getLsbD 31 ∧ w.getLsbD 24 = v.getLsbD 24 := by
    rintro v rfl
    simp
  rw [zeroRow_mask]
  cases test <;> rcases and_or_twoPow h 24 with h | h <;> rcases and_or_twoPow h 31 with h | h <;>
    obtain ⟨h31, h24⟩ := hbits _ h <;> rw [h31, h24] <;> exact h

theorem zeroRow_lead (test wide nonzero : Bool) :
    ∃ descs, (zeroRow test wide nonzero).lead = regDesc .gpr (zeroWidth wide) :: descs := by
  cases test <;> cases wide <;> cases nonzero <;> exact ⟨_, rfl⟩

theorem zeroRow_register (test wide nonzero : Bool) (w : BitVec 32) (address : BitVec 64) :
    decodeTdOperand (zeroRow test wide nonzero).record w address (regDesc .gpr (zeroWidth wide)) =
      some (Operand.ofReg (tdGprId (Isa.A64.rt w).toNat (zeroWidth wide) false) (zeroWidth wide)) := by
  have hmasked : ∀ desc ∈ (zeroRow test wide nonzero).record.descs, desc.sourceMask ≠ 0 := by
    revert test wide nonzero
    decide
  have hpieces : ∃ after, (zeroRow test wide nonzero).record.pieces =
      [] ++ pieceRun 0 0 0 5 ++ after ∧ ∀ p ∈ after, p.operandIndex ≠ 0 := by
    cases test <;> cases wide <;> cases nonzero <;> exact ⟨_, rfl, by decide⟩
  obtain ⟨after, hpieces, hafter⟩ := hpieces
  have hvalue : tdOperandValue (zeroRow test wide nonzero).record w 0 =
      (Isa.A64.rt w).setWidth 32 := by
    rw [tdOperandValue_of_masked hmasked, hpieces]
    exact gather_pieceRun (by simp) hafter 0 w
  exact decodeTdOperand_gpr hvalue rfl rfl (by cases wide <;> decide) rfl rfl

section

variable {tables : AsmKit.Tables} {engine : Engine} {code : List Byte} {address : BitVec 64}
  {prior inst : Inst} {test : Bool}

theorem decodeOne_zeroBranch (hrows : PcRelRows tables.a64) (harch : engine.target.arch = .aarch64)
    (hw : load32le code &&& 0x7e000000 = if test then 0x36000000 else 0x34000000)
    (hdec : AsmKit.decodeOne tables engine code address prior = .ok inst) :
    let row := zeroRow test ((load32le code).getLsbD 31) ((load32le code).getLsbD 24)
    let width := zeroWidth ((load32le code).getLsbD 31)
    inst.arch = .aarch64 ∧ inst.mode = engine.config.mode ∧ inst.mnemonicId = row.mnemonicId ∧
      ∃ o rest, inst.operands = o :: rest ∧ o.kind = .reg ∧ o.width = width ∧
        o.reg = tdGprId (Isa.A64.rt (load32le code)).toNat width false := by
  intro row width
  obtain ⟨inst0, hgen, rfl⟩ := decodeOne_aarch64 harch hdec
  have hfrom := decodeOne_fromCode hgen
  obtain ⟨hdecoded, lead, hlead, hops⟩ := operands_of_decodeOne hrows (zeroRow_mem test _ _)
    (zeroRow_value hw) (engine.mode_of_aarch64 harch) (length_of_decodeOne hgen) hgen
  refine ⟨hfrom.arch, hfrom.mode, hdecoded.mnemonicId, ?_⟩
  obtain ⟨descs, hdescs⟩ :=
    zeroRow_lead test ((load32le code).getLsbD 31) ((load32le code).getLsbD 24)
  rw [hdescs, List.map_cons, zeroRow_register] at hlead
  cases lead with
  | nil => cases hlead
  | cons o lead =>
    obtain ⟨ho, -⟩ := List.cons.inj hlead
    cases Option.some.inj ho
    rw [List.mapIdx_cons, List.cons_append] at hops
    simp only [applyOperandMetadata, hops, List.map_cons]
    refine ⟨_, _, rfl, ?_, ?_, ?_⟩
    · simp [Operand.ofReg]
    · have hne : width ≠ 0 := by
        show zeroWidth _ ≠ 0
        unfold zeroWidth
        split <;> decide
      unfold Operand.withInfos
      split
      · exact if_neg hne
      · rfl
    · unfold Operand.withInfos
      split <;> rfl

theorem values_zeroBranch {wide nonzero : Bool} (control : ControlAnalysis) (va : ValueAnalysis)
    (h : inst.mnemonicId = (zeroRow test wide nonzero).mnemonicId) :
    (A64.values inst control va).condition =
      Arm.zeroCondition inst .aarch64Flags (if nonzero then .ne else .eq) := by
  rw [zeroRow_mnemonicId] at h
  unfold A64.values
  dsimp only
  cases nonzero
  · have heq : inst.mnemonicId = Mnemonic.cbz ∨ inst.mnemonicId = Mnemonic.tbz := by
      cases test
      · exact .inl h
      · exact .inr h
    rw [if_pos heq]
    rfl
  · have hne : inst.mnemonicId = Mnemonic.cbnz ∨ inst.mnemonicId = Mnemonic.tbnz := by
      cases test
      · exact .inl h
      · exact .inr h
    have heq : ¬ (inst.mnemonicId = Mnemonic.cbz ∨ inst.mnemonicId = Mnemonic.tbz) := by
      rw [h]
      cases test <;> decide
    rw [if_neg heq, if_pos hne]
    rfl

end

/-! ## The branch of the processor -/

theorem holds_zero {width : Nat} (nonzero : Bool) (x : BitVec width) :
    (if nonzero then CompareRelation.ne else .eq).holds x 0 = ((x == 0) ^^ nonzero) := by
  cases nonzero
  · exact (Bool.xor_false _).symm
  · exact (Bool.xor_true _).symm

/-- What the relation with zero says of a branch: a test branch looks at one bit alone, so its
register must be zero or have the bit. -/
def zeroAgrees (s : Isa.A64.Cpu) : Isa.A64.Insn → Prop
  | .tb _ bit _ rt =>
    (s.get rt).setWidth (zeroWidth (bit.getLsbD 5)) = 0 ∨ (s.get rt).getLsbD bit.toNat = true
  | _ => True

theorem testBit_getLsbD (w : BitVec 32) : (Isa.A64.testBit w).getLsbD 5 = w.getLsbD 31 := by
  rw [Isa.A64.testBit, BitVec.getLsbD_append, field_getLsbD, field_getLsbD]
  simp

theorem toNat_lt_zeroWidth (bit : BitVec 6) : bit.toNat < zeroWidth (bit.getLsbD 5) := by
  revert bit
  decide

theorem test_eq_iff {x : BitVec 64} {bit width : Nat} (hbit : bit < width) (nonzero : Bool) :
    ((x.setWidth width == 0) ^^ nonzero) = (x.getLsbD bit == nonzero) ↔
      x.setWidth width = 0 ∨ x.getLsbD bit = true := by
  have hzero : x.setWidth width = 0 → x.getLsbD bit = false := by
    intro h
    have hget : (x.setWidth width).getLsbD bit = false := by
      rw [h]
      exact BitVec.getLsbD_zero
    simpa [hbit] using hget
  have hbeq : x.setWidth width = 0 ↔ (x.setWidth width == 0) = true := beq_iff_eq.symm
  rw [hbeq]
  cases hx : x.setWidth width == 0
  · cases nonzero <;> cases x.getLsbD bit <;> decide
  · rw [hzero (beq_iff_eq.1 hx)]
    cases nonzero <;> decide

theorem zeroBranch_iff {w : BitVec 32} {test : Bool}
    (hw : w &&& 0x7e000000 = if test then 0x36000000 else 0x34000000) :
    ∃ i, Isa.A64.decode w = some i ∧ ∀ s,
      ((if w.getLsbD 24 then CompareRelation.ne else .eq).holds
        ((s.get (Isa.A64.rt w)).setWidth (zeroWidth (w.getLsbD 31))) 0 = i.taken s ↔
          zeroAgrees s i) := by
  cases test
  · refine ⟨_, Isa.A64.decode_of_isCb (beq_iff_eq.2 hw), fun s => ?_⟩
    rw [holds_zero]
    cases w.getLsbD 31
    · exact iff_of_true rfl trivial
    · show (((s.get (Isa.A64.rt w)).setWidth 64 == 0) ^^ _) = _ ↔ _
      rw [BitVec.setWidth_eq]
      exact iff_of_true rfl trivial
  · refine ⟨_, Isa.A64.decode_of_isTb (beq_iff_eq.2 hw), fun s => ?_⟩
    rw [holds_zero, ← testBit_getLsbD]
    exact test_eq_iff (toNat_lt_zeroWidth _) _

end A64

/-! ## The whole -/

section

variable {tables : Tables} {engine : Engine} {code : List Byte} {address : BitVec 64}
  {prior inst : Inst}

theorem compareBranch_taken (hrows : Arm.CompareBranchRows tables.arm)
    (hmode : engine.config.mode = .armThumb)
    (hdec : decodeOne tables engine code address prior = .ok inst) {nonzero : Bool}
    (hmnemonic : inst.mnemonicId = (Arm.compareBranchRecord nonzero).mnemonicId)
    (control : ControlAnalysis) :
    ∃ t va, Isa.A32.decodeCompareBranch (load16le code) = some t ∧
      analyzeInstValues engine inst control = .ok va ∧
      ∀ s, va.condition.taken (inst.values (Arm.context s)) = t.taken s := by
  have harch : engine.target.arch = .arm := by
    have hmodeArch := engine.mode_arch
    rw [hmode] at hmodeArch
    exact (Option.some.inj hmodeArch).symm
  obtain ⟨hvalue, hinst, hinstMode, o, rest, hops, hkind, hwidth, hreg⟩ :=
    Arm.decodeOne_compareBranch hrows harch hmode hdec hmnemonic
  rw [analyzeInstValues_eq_arm control (hmode.trans hinstMode.symm) harch hinst]
  refine ⟨_, _, Arm.decodeCompareBranch_eq hvalue, rfl, fun s => ?_⟩
  have hcontext : (Arm.context s).reg o.reg =
      (s.get ((field 3 0 (load16le code)).setWidth 4)).setWidth 64 := by
    rw [hreg, ← Arm.lowRegister_eq, ← Arm.context_reg]
    rfl
  rw [Arm.values_compareBranch control _ hmnemonic, zeroCondition_taken hops,
    Inst.values_operand0 hops, Operand.holds_reg hkind, hwidth, hcontext, BitVec.setWidth_setWidth_of_le _ (by decide),
    BitVec.setWidth_eq, A64.holds_zero]
  rfl

theorem zeroBranch_taken_a64 (hrows : A64.PcRelRows tables.a64)
    (harch : engine.target.arch = .aarch64)
    (hdec : decodeOne tables engine code address prior = .ok inst) {test : Bool}
    (hw : load32le code &&& 0x7e000000 = if test then 0x36000000 else 0x34000000)
    (control : ControlAnalysis) :
    ∃ i va, Isa.A64.decode (load32le code) = some i ∧
      analyzeInstValues engine inst control = .ok va ∧
      ∀ s mem, va.condition.taken (inst.values ⟨A64.registers s, mem⟩) = i.taken s ↔
        A64.zeroAgrees s i := by
  obtain ⟨hinst, hmode, hmnemonic, o, rest, hops, hkind, hwidth, hreg⟩ :=
    A64.decodeOne_zeroBranch hrows harch hw hdec
  obtain ⟨i, hi, htaken⟩ := A64.zeroBranch_iff hw
  rw [analyzeInstValues_eq_aarch64 control hmode.symm harch hinst]
  refine ⟨i, _, hi, rfl, fun s mem => ?_⟩
  have hregister : (⟨A64.registers s, mem⟩ : Context).reg o.reg =
      s.get (Isa.A64.rt (load32le code)) := by
    rw [hreg]
    apply A64.registers_tdGprId
    unfold A64.zeroWidth
    split
    · exact .inr rfl
    · exact .inl rfl
  rw [← htaken s, A64.values_zeroBranch control _ hmnemonic, zeroCondition_taken hops,
    Inst.values_operand0 hops, Operand.holds_reg hkind, hwidth, hregister]

/-- The relation reported for a compare-and-branch is the branch. For a test-and-branch it is so when
the register is zero or has the bit. -/
theorem zeroBranch_taken_iff (harm : Arm.CompareBranchRows tables.arm)
    (ha64 : A64.PcRelRows tables.a64)
    (hdec : decodeOne tables engine code address prior = .ok inst) (control : ControlAnalysis) :
    (engine.config.mode = .armThumb →
      (inst.mnemonicId = Arm.Mnemonic.cbz ∨ inst.mnemonicId = Arm.Mnemonic.cbnz) →
      ∃ t va, Isa.A32.decodeCompareBranch (load16le code) = some t ∧
        analyzeInstValues engine inst control = .ok va ∧
        ∀ s, va.condition.taken (inst.values (Arm.context s)) = t.taken s) ∧
    (engine.target.arch = .aarch64 →
      (Isa.A64.isCb (load32le code) = true ∨ Isa.A64.isTb (load32le code) = true) →
      ∃ i va, Isa.A64.decode (load32le code) = some i ∧
        analyzeInstValues engine inst control = .ok va ∧
        ∀ s mem, va.condition.taken (inst.values ⟨A64.registers s, mem⟩) = i.taken s ↔
          A64.zeroAgrees s i) := by
  constructor
  · intro hmode hmnemonic
    have hrecord : ∃ nonzero, inst.mnemonicId = (Arm.compareBranchRecord nonzero).mnemonicId := by
      rcases hmnemonic with h | h
      · exact ⟨false, h⟩
      · exact ⟨true, h⟩
    obtain ⟨nonzero, hmnemonic⟩ := hrecord
    exact compareBranch_taken harm hmode hdec hmnemonic control
  · intro harch hw
    have htest : ∃ test : Bool, load32le code &&& 0x7e000000 =
        if test then 0x36000000 else 0x34000000 := by
      rcases hw with h | h
      · exact ⟨false, beq_iff_eq.1 h⟩
      · exact ⟨true, beq_iff_eq.1 h⟩
    obtain ⟨test, hw⟩ := htest
    exact zeroBranch_taken_a64 ha64 harch hdec hw control

end

/-! ## At fixed words -/

/-- Tables with the rows of these branches. -/
def zeroBranchTables : Tables :=
  { noTables with
    arm := .ofPair 2 Arm.compareBranchRecord fun _ w _ =>
      some [Operand.ofReg (Arm.Reg.r0 + (w &&& 7).toNat) 32, Operand.ofPcRel 4 0]
    a64 := A64.pcRelTables }

theorem zeroBranchTables_rows : Arm.CompareBranchRows zeroBranchTables.arm where
  row := Arm.Tables.ofPair_onlyRow (by decide) (by decide)
  operands _ w address := ⟨_, rfl⟩

/-- `cbz r0, #4`. -/
def cbzInst : Inst :=
  (decodeOne zeroBranchTables armEngineThumb (store16le 0xb100) 0x1000
    armEngineThumb.emptyInst).toOption.getD armEngineThumb.emptyInst

/-- `tbz w0, #0`. -/
def tbzInst : Inst :=
  (decodeOne zeroBranchTables aarch64Engine (store32le 0x36000000) 0x1000
    aarch64Engine.emptyInst).toOption.getD aarch64Engine.emptyInst

theorem zeroBranch_taken_cbz_tbz :
    (∃ t va, Isa.A32.decodeCompareBranch (load16le (store16le 0xb100)) = some t ∧
      analyzeInstValues armEngineThumb cbzInst { semantics := Arm.analyze cbzInst } = .ok va ∧
      ∀ s, va.condition.taken (cbzInst.values (Arm.context s)) = t.taken s) ∧
    ∃ i va, Isa.A64.decode (load32le (store32le 0x36000000)) = some i ∧
      analyzeInstValues aarch64Engine tbzInst { semantics := A64.analyze tbzInst } = .ok va ∧
      ∀ s mem, va.condition.taken (tbzInst.values ⟨A64.registers s, mem⟩) = i.taken s ↔
        A64.zeroAgrees s i := by
  have hcbz : decodeOne zeroBranchTables armEngineThumb (store16le 0xb100) 0x1000
      armEngineThumb.emptyInst = .ok cbzInst := rfl
  have htbz : decodeOne zeroBranchTables aarch64Engine (store32le 0x36000000) 0x1000
      aarch64Engine.emptyInst = .ok tbzInst := rfl
  constructor
  · exact (zeroBranch_taken_iff zeroBranchTables_rows A64.pcRelTables_rows hcbz _).1 rfl (.inl rfl)
  · exact (zeroBranch_taken_iff zeroBranchTables_rows A64.pcRelTables_rows htbz _).2 rfl (.inr rfl)

/-- `tbz w0, #0` is taken when `w0` is 2, which is not zero. -/
theorem zeroBranch_not_taken : ∃ i va,
    Isa.A64.decode (load32le (store32le 0x36000000)) = some i ∧
    decodeOne zeroBranchTables aarch64Engine (store32le 0x36000000) 0x1000
      aarch64Engine.emptyInst = .ok tbzInst ∧
    analyzeInstValues aarch64Engine tbzInst { semantics := A64.analyze tbzInst } = .ok va ∧
    va.condition.taken (tbzInst.values ⟨A64.registers
      ⟨fun _ => 2, ⟨false, false, false, false⟩, 0x1000, fun _ => 0⟩, fun _ => 0⟩) = false ∧
    i.taken ⟨fun _ => 2, ⟨false, false, false, false⟩, 0x1000, fun _ => 0⟩ = true :=
  ⟨_, _, rfl, rfl, rfl, rfl, rfl⟩

end AsmKit
