import AsmKit.Analysis.Eval
import AsmKit.Arm.Thumb
import AsmKit.Decode.Block
import AsmKit.Isa.Thumb

/-!
# The effects of `tbb` and `tbh`

The control target that the effects compute, against the target of the processor.
-/

namespace AsmKit

open LittleEndian SignedField Widths

namespace Arm

/-! ## The rows -/

def tableBranchRecord (half : Bool) : Record :=
  { id := if half then 68817 else 68816
    mnemonicId := if half then Mnemonic.tbh else Mnemonic.tbb
    mask := 0xfff0fff0, value := if half then 0xe8d0f010 else 0xe8d0f000, size := 4, fixedBits := 24
    priority := 0, decodeSpace := .default, instClass := .indirectBranch
    flags := InstFlag.terminator }

/-- `arm_td_mem_tbb_operand`. -/
def memTbbOperand (value : BitVec 32) (width : Nat) (scale : BitVec 8) : Operand :=
  { kind := .mem, width
    mem := { base := Reg.r0 + ((value >>> 4) &&& 0x0f).toNat, index := Reg.r0 + (value &&& 0x0f).toNat
             scale, addressWidth := 32 } }

/-- The pieces of the rows: four bits from bit 0 of the word, four from bit 16. -/
def tableBranchValue (w : BitVec 32) : BitVec 32 := (w &&& 0x0f) ||| ((w >>> 12) &&& 0xf0)

def tableBranchOperand (half : Bool) (w : BitVec 32) : Operand :=
  memTbbOperand (tableBranchValue w) 0 (if half then 2 else 1)

/-- What the tables say of `tbb` and `tbh`. -/
structure TableBranchRows (tables : AsmKit.Tables) : Prop where
  row : ∀ half, tables.arm.OnlyRow 4 (tableBranchRecord half)
  operands : ∀ half w address,
    tables.arm.decodeTdOperands (tableBranchRecord half) w address = some [tableBranchOperand half w]
  infos : ∀ half, tables.operandInfos .arm (tableBranchRecord half).id =
    [⟨OperandFlag.explicit ||| OperandFlag.memory ||| OperandFlag.read, 0⟩]

/-! ## The instruction -/

section

variable {tables : AsmKit.Tables} {engine : Engine} {code : List Byte} {address : BitVec 64}
  {prior inst : Inst} {half : Bool}

theorem decodeOne_tableBranch (htables : TableBranchRows tables) (harch : engine.target.arch = .arm)
    (hmode : engine.config.mode = .armThumb)
    (hdec : AsmKit.decodeOne tables engine code address prior = .ok inst)
    (hmnemonic : inst.mnemonicId = (tableBranchRecord half).mnemonicId) :
    thumbWord code &&& 0xfff0fff0 = (tableBranchRecord half).value ∧
      inst.arch = .arm ∧ inst.mode = .armThumb ∧ inst.instClass = .indirectBranch ∧
      inst.address = address ∧ ∃ flags,
        inst.operands = [{ tableBranchOperand half (thumbWord code) with flags }] := by
  obtain ⟨inst0, hgen, rfl⟩ := decodeOne_arm harch hdec
  obtain ⟨hvalue, hfinish⟩ := (htables.row half).finishTd_of_decode hmode hgen hmnemonic
  have hword : rowWord code 4 = thumbWord code := rfl
  rw [hword] at hvalue hfinish
  have hid : (tableBranchRecord half).id ≠ Id.t2It := by cases half <;> decide
  simp only [finishTd, htables.operands, hid, false_and, if_false] at hfinish
  cases hfinish
  refine ⟨hvalue, rfl, hmode, rfl, rfl, ?_⟩
  simp only [applyOperandMetadata, htables.infos, List.map_cons, List.map_nil]
  exact ⟨_, rfl⟩

end

/-! ## The effects -/

def entryWidth (half : Bool) : Nat := if half then 16 else 8

/-- The immediate base of the effects. -/
def tableBranchBase (address : BitVec 64) : BitVec 64 := ((address + 4) &&& ~~~3) ||| 1

section

variable {engine : Engine} {inst : Inst} {half : Bool} {o : Operand}

@[simp] theorem useCondition_effects (control : ControlAnalysis) (va : ValueAnalysis) :
    (useCondition inst control va).effects = va.effects := by
  unfold useCondition
  split
  · rfl
  split
  · rfl
  split <;> rfl

theorem analyzeInstValues_tableBranch (control : ControlAnalysis)
    (harch : engine.target.arch = .arm) (hmode : engine.config.mode = inst.mode)
    (harm : inst.arch = .arm) (hclass : inst.instClass = .indirectBranch)
    (hmnemonic : inst.mnemonicId = (tableBranchRecord half).mnemonicId)
    (hops : inst.operands = [o]) (hmem : o.kind = .mem) :
    ∃ va, analyzeInstValues engine inst control = .ok va ∧
      va.effects = (emitTableBranch inst {}).effects := by
  have hplain : ¬ (inst.instClass = .load ∨ inst.instClass = .store) := by simp [hclass]
  have htable : (inst.mnemonicId = Mnemonic.tbb ∨ inst.mnemonicId = Mnemonic.tbh) ∧
      findMemoryOperand inst ≠ none := by
    refine ⟨?_, by simp [findMemoryOperand, hops, hmem]⟩
    rw [hmnemonic]
    cases half <;> decide
  have hcmp : inst.mnemonicId ≠ Mnemonic.cmp := by
    rw [hmnemonic]
    cases half <;> decide
  have heffects : valueEffects inst control {} = emitTableBranch inst {} := if_pos htable
  rw [analyzeInstValues_eq_arm control hmode harch harm, if_neg hplain]
  exact ⟨_, rfl, by rw [Arm.values, useCondition_effects, if_neg hcmp, heffects]⟩

theorem evalEffects_tableBranch (hmnemonic : inst.mnemonicId = (tableBranchRecord half).mnemonicId)
    (hops : inst.operands = [o]) (hmem : o.kind = .mem) (hwidth : o.width = 0) (σ : Values) :
    ∃ σ', evalEffects (emitTableBranch inst {}).effects σ = some σ' ∧
      σ' .controlTarget =
        low 32 (tableBranchBase inst.address + 2 * low (entryWidth half) (σ (.operand 0))) := by
  have hentry : (if inst.mnemonicId = Mnemonic.tbb then 8 else 16) = entryWidth half := by
    rw [hmnemonic]
    cases half <;> rfl
  have hle : entryWidth half ≤ 32 := by cases half <;> decide
  have hpos : entryWidth half ≠ 0 := by cases half <;> decide
  have hsource : valueOperand inst (findMemoryOperand inst) = { kind := .operand } := by
    simp [findMemoryOperand, valueOperand, hops, hmem, hwidth]
  simp only [emitTableBranch, ValueAnalysis.addEffect, maxValueEffects, hentry, hsource, List.length_nil,
    List.length_cons, List.nil_append, List.cons_append, Nat.reduceLeDiff, Nat.reduceAdd, if_false]
  simp only [evalEffects_cons, evalEffects_nil, ValueEffect.step, ValueEffect.result,
    ValueEffect.source, ValueRef.read, ValueRef.contents, ValueRef.write, ValueRef.place?,
    valueTemporary, valueImmediate, valueControlTarget, List.getD_cons_zero, List.getD_cons_succ,
    Option.map_some, Option.bind_some, hpos, if_true, if_false, Function.update_self, low_low,
    OfNat.ofNat_ne_zero]
  refine ⟨_, rfl, ?_⟩
  rw [Function.update_self, low_mul (by decide), low_add (by decide), BitVec.mul_comm]
  rfl

end

/-! ## The target -/

theorem or_one_of_dvd {w : Nat} {x : BitVec w} (hw : 1 ≤ w) (h : 2 ^ 1 ∣ x.toNat) :
    x ||| 1#w = x + 1#w :=
  (BitVec.add_eq_or_of_and_eq_zero _ _ ((and_mask_eq_zero_iff x 1 hw).2 h)).symm

theorem and_not_mask_eq_self_iff {w : Nat} (x : BitVec w) (n : Nat) (h : n ≤ w) :
    x &&& ~~~mask w n = x ↔ 2 ^ n ∣ x.toNat := by
  constructor
  · intro heq
    rw [← heq]
    exact dvd_and_not_mask x n h
  · exact and_not_mask_of_dvd x n h

theorem tableBranchBase_eq_iff {address : BitVec 64} (haddress : 2 ∣ address.toNat) (e : BitVec 32) :
    (tableBranchBase address).setWidth 32 + 2#32 * e =
        (address.setWidth 32 + 4#32 + 2#32 * e) ||| 1#32 ↔ 4 ∣ address.toNat := by
  have hpc : (address.setWidth 32 + 4#32).toNat = (address.toNat + 4) % 2 ^ 32 := by simp
  have heven : 2 ^ 1 ∣ (address.setWidth 32 + 4#32).toNat := by
    rw [hpc]
    omega
  have htwice : 2 ^ 1 ∣ (2#32 * e).toNat := by
    rw [BitVec.toNat_mul, BitVec.toNat_ofNat]
    omega
  have hbase : (tableBranchBase address).setWidth 32 =
      ((address.setWidth 32 + 4#32) &&& ~~~mask 32 2) + 1#32 := by
    have hlow : 2 ^ 1 ∣ ((address.setWidth 32 + 4#32) &&& ~~~mask 32 2).toNat :=
      Nat.dvd_trans (by decide) (dvd_and_not_mask _ 2 (by decide))
    rw [← or_one_of_dvd (by decide) hlow, tableBranchBase, BitVec.setWidth_or, BitVec.setWidth_and,
      BitVec.setWidth_add _ _ (by decide)]
    rfl
  have hsum := dvd_add _ _ 1 (by decide) heven htwice
  rw [hbase, or_one_of_dvd (by decide) hsum, BitVec.add_assoc, BitVec.add_comm 1#32,
    ← BitVec.add_assoc, BitVec.add_left_inj, BitVec.add_left_inj,
    and_not_mask_eq_self_iff _ 2 (by decide), hpc]
  omega

/-! ## The entry -/

section

variable {w : BitVec 32} {half : Bool}

theorem decodeTableBranch_eq (h : w &&& 0xfff0fff0 = (tableBranchRecord half).value) :
    Isa.A32.decodeTableBranch w = some ⟨half, field 4 16 w, field 4 0 w⟩ := by
  have hmask : w &&& 0xfff0ffe0 = 0xe8d0f000 := by
    have hand : w &&& 0xfff0ffe0 = (w &&& 0xfff0fff0) &&& 0xfff0ffe0 := by
      rw [BitVec.and_assoc]
      rfl
    rw [hand, h]
    cases half <;> decide
  have hbit : w.getLsbD 4 = half := by
    have hvalue : (w &&& 0xfff0fff0).getLsbD 4 = half := by
      rw [h]
      cases half <;> decide
    rw [BitVec.getLsbD_and] at hvalue
    simpa using hvalue
  rw [Isa.A32.decodeTableBranch, if_pos hmask, hbit]

theorem tableBranchValue_base : ((tableBranchValue w >>> 4) &&& 0x0f).setWidth 4 = field 4 16 w := by
  apply BitVec.eq_of_getLsbD_eq
  intro i hi
  interval_cases i <;> simp [tableBranchValue, field]

theorem tableBranchValue_index : (tableBranchValue w &&& 0x0f).setWidth 4 = field 4 0 w := by
  apply BitVec.eq_of_getLsbD_eq
  intro i hi
  interval_cases i <;> simp [tableBranchValue, field]

theorem tableBranch_holds (s : Isa.A32.Cpu) (flags : BitVec 32) :
    { tableBranchOperand half w with flags }.holds (context s) =
      readWord 64 s.mem
        (Isa.A32.TableBranch.entryAddress ⟨half, field 4 16 w, field 4 0 w⟩ s) 8 := by
  have hscale : Isa.A32.TableBranch.entryAddress ⟨half, field 4 16 w, field 4 0 w⟩ s =
      s.get (field 4 16 w) + s.get (field 4 0 w) * (if half then 2#8 else 1#8).setWidth 32 +
        (0#64).setWidth 32 := by
    cases half
    · show _ = _ + _ * 1#32 + 0#32
      rw [BitVec.mul_one, BitVec.add_zero]
      rfl
    · show _ = _ + _ * 2#32 + 0#32
      rw [BitVec.add_zero, show 2#32 = BitVec.twoPow 32 1 from rfl, BitVec.mul_twoPow_eq_shiftLeft]
      rfl
  rw [hscale, ← tableBranchValue_base, ← tableBranchValue_index, ← context_reg, ← context_reg]
  rfl

theorem tableBranch_entry (s : Isa.A32.Cpu) (flags : BitVec 32) :
    (low (entryWidth half)
      ({ tableBranchOperand half w with flags }.holds (context s))).setWidth 32 =
      Isa.A32.TableBranch.entry ⟨half, field 4 16 w, field 4 0 w⟩ s := by
  rw [tableBranch_holds, low, BitVec.setWidth_setWidth_of_le _ (by decide)]
  cases half
  · show ((readWord 64 s.mem _ 8).setWidth 8).setWidth 32 = (s.mem _).setWidth 32
    rw [readWord_setWidth s.mem _ (by decide) (by decide : 1 ≤ 8) (by decide), readWord_one]
  · show ((readWord 64 s.mem _ 8).setWidth 16).setWidth 32 = (readWord 16 s.mem _ 2).setWidth 32
    rw [readWord_setWidth s.mem _ (by decide) (by decide : 2 ≤ 8) (by decide)]

end

/-! ## The whole -/

/-- Tables with the rows of `tbb` and `tbh` alone. -/
def tableBranchTables : AsmKit.Tables :=
  { noTables with
    arm := .ofPair 4 tableBranchRecord fun r w _ => some [tableBranchOperand (r.id == 68817) w]
    operandInfos := fun _ _ => [⟨OperandFlag.explicit ||| OperandFlag.memory ||| OperandFlag.read, 0⟩] }

theorem tableBranchTables_rows : TableBranchRows tableBranchTables where
  row := Tables.ofPair_onlyRow (by decide) (by decide)
  operands half w address := by cases half <;> rfl
  infos half := rfl

/-- `tbb [r0, r1]`. -/
def tbbCode : List Byte := [0xd0, 0xe8, 0x01, 0xf0]

def tbbInst (address : BitVec 64) : Inst :=
  (AsmKit.decodeOne tableBranchTables armEngineThumb tbbCode address
    armEngineThumb.emptyInst).toOption.getD armEngineThumb.emptyInst

section

variable {tables : AsmKit.Tables} {engine : Engine} {code : List Byte} {address : BitVec 64}
  {prior inst : Inst}

theorem isTableBranch_iff :
    (inst.mnemonicId = Mnemonic.tbb ∨ inst.mnemonicId = Mnemonic.tbh) ↔
      ∃ half, inst.mnemonicId = (tableBranchRecord half).mnemonicId :=
  (Bool.exists_bool (p := fun half => inst.mnemonicId = (tableBranchRecord half).mnemonicId)).symm

/-- The effects of a table branch at an even address lead to its target exactly at the multiples
of 4, whatever the registers and the table hold. -/
theorem tableBranch_target_iff (htables : TableBranchRows tables) (harch : engine.target.arch = .arm)
    (hmode : engine.config.mode = .armThumb)
    (hdec : AsmKit.decodeOne tables engine code address prior = .ok inst)
    (hmnemonic : inst.mnemonicId = Mnemonic.tbb ∨ inst.mnemonicId = Mnemonic.tbh)
    (haddress : 2 ∣ address.toNat) (control : ControlAnalysis) :
    ∃ t va, Isa.A32.decodeTableBranch (thumbWord code) = some t ∧
      analyzeInstValues engine inst control = .ok va ∧
      ∀ s : Isa.A32.Cpu, s.thumb = true → s.pc = address.setWidth 32 →
        ∃ σ, evalEffects va.effects (inst.values (context s)) = some σ ∧
          (σ .controlTarget = (t.target s).setWidth 64 ↔ 4 ∣ address.toNat) := by
  obtain ⟨half, hmnemonic⟩ := isTableBranch_iff.1 hmnemonic
  obtain ⟨hvalue, hinst, hinstMode, hclass, haddr, flags, hops⟩ :=
    decodeOne_tableBranch htables harch hmode hdec hmnemonic
  obtain ⟨va, hva, heffects⟩ := analyzeInstValues_tableBranch control
    harch (by rw [hinstMode, hmode]) hinst hclass hmnemonic hops rfl
  refine ⟨_, va, decodeTableBranch_eq hvalue, hva, ?_⟩
  intro s hthumb hpc
  obtain ⟨σ, hσ, htarget⟩ :=
    evalEffects_tableBranch hmnemonic hops rfl rfl (inst.values (context s))
  refine ⟨σ, heffects ▸ hσ, ?_⟩
  have hentry : inst.values (context s) (.operand 0) =
      { tableBranchOperand half (thumbWord code) with flags }.holds (context s) := by
    rw [Inst.values, hops]
    rfl
  rw [htarget, hentry, haddr, low, BitVec.setWidth_add _ _ (by decide),
    BitVec.setWidth_mul _ _ (by decide), tableBranch_entry, Isa.A32.TableBranch.target,
    Isa.A32.Cpu.readPc, if_pos hthumb, hpc, ← tableBranchBase_eq_iff haddress]
  constructor
  · intro h
    have h32 := congrArg (BitVec.setWidth 32) h
    rw [BitVec.setWidth_setWidth_of_le _ (by decide), BitVec.setWidth_setWidth_of_le _ (by decide),
      BitVec.setWidth_eq, BitVec.setWidth_eq] at h32
    exact h32
  · exact congrArg (BitVec.setWidth 64)

theorem tableBranch_target_aligned : ∃ t va, Isa.A32.decodeTableBranch (thumbWord tbbCode) = some t ∧
    analyzeInstValues armEngineThumb (tbbInst 0x1000) { semantics := analyze (tbbInst 0x1000) } =
      .ok va ∧
    ∀ s : Isa.A32.Cpu, s.thumb = true → s.pc = (0x1000#64).setWidth 32 →
      ∃ σ, evalEffects va.effects ((tbbInst 0x1000).values (context s)) = some σ ∧
        (σ .controlTarget = (t.target s).setWidth 64 ↔ 4 ∣ (0x1000#64).toNat) := by
  have hdec : AsmKit.decodeOne tableBranchTables armEngineThumb tbbCode 0x1000
      armEngineThumb.emptyInst = .ok (tbbInst 0x1000) := rfl
  exact tableBranch_target_iff tableBranchTables_rows rfl rfl hdec (.inl rfl) (by decide) _

/-- Behind half of a word, `tbb` with an entry of zero goes two bytes too low. -/
theorem tableBranch_target_low : ∃ t va σ, Isa.A32.decodeTableBranch (thumbWord tbbCode) = some t ∧
    AsmKit.decodeOne tableBranchTables armEngineThumb tbbCode 0x1002 armEngineThumb.emptyInst =
      .ok (tbbInst 0x1002) ∧
    analyzeInstValues armEngineThumb (tbbInst 0x1002) { semantics := analyze (tbbInst 0x1002) } =
      .ok va ∧
    evalEffects va.effects ((tbbInst 0x1002).values (context
      ⟨fun _ => 0, ⟨false, false, false, false⟩, 0x1002, true, fun _ => 0⟩)) = some σ ∧
    σ .controlTarget = 0x1005 ∧
    t.target ⟨fun _ => 0, ⟨false, false, false, false⟩, 0x1002, true, fun _ => 0⟩ = 0x1007 :=
  ⟨_, _, _, rfl, rfl, rfl, rfl, rfl, rfl⟩

end

end Arm

end AsmKit
