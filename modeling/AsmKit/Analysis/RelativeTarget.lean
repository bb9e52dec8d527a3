import AsmKit.Analysis.Address
import AsmKit.Analysis.Eval
import AsmKit.Decode.Block

/-!
# The relative operand and its target

Which operand an analysis takes for the relative one, and which target it reports: x86 and AArch64
look for the operand, ARM takes the first one.
-/

namespace AsmKit

/-! ## Relative operands -/

/-- Memory at the program counter. -/
def Arm.isPcMemory (o : Operand) : Bool :=
  o.kind == .mem && o.mem.base == Reg.pc && o.mem.index == 0

def Operand.IsRelative (arch : Arch) (o : Operand) : Prop :=
  o.kind = .pcRel ∨ (arch = .x86 ∧ X86.isRipMemory o = true) ∨
    (arch = .arm ∧ Arm.isPcMemory o = true)

/-- What an ARM instruction reads from the program counter as a base. -/
def Arm.pcBase (inst : Inst) : BitVec 64 :=
  (inst.address + if inst.mode = .armThumb then 4 else 8) &&& ~~~3

/-- The target of a relative operand. The decoder records it, except for memory of ARM. -/
def Inst.relativeTarget (arch : Arch) (inst : Inst) (o : Operand) : BitVec 64 :=
  if arch = .arm ∧ o.kind = .mem then Arm.pcBase inst + o.mem.displacement else o.absTarget

/-- Where the displacement of an operand leads from the instruction, nowhere without one. -/
def Inst.displaced (arch : Arch) (inst : Inst) (o : Operand) : BitVec 64 :=
  let next := if arch = .x86 then inst.address + BitVec.ofNat 64 inst.size else inst.address
  if arch = .x86 ∧ X86.isRipMemory o then next + o.mem.displacement
  else if o.imm = 0 then 0 else next + o.imm

/-! ## What is reported, and when it is right -/

def PcRelativeInfo.Reports (info : PcRelativeInfo) (i : Nat) (target : BitVec 64) : Prop :=
  info.isPcRelative = true ∧ info.operandIndex = i ∧ info.originalTarget = target

/-- The operand at place `i` is the first one, on x86 the first one that looks relative. -/
def Inst.IsFirst (arch : Arch) (inst : Inst) (i : Nat) : Prop :=
  match arch with
  | .x86 => i < maxOperands ∧
      ∀ j < i, ∀ p, inst.operands[j]? = some p → X86.isPcRelOperand p = false
  | _ => i = 0

/-- The operand holds its target. A 0 on x86 and AArch64 also means that none is recorded, so there
the displacement has to lead to 0. -/
def Inst.RecordsTarget (arch : Arch) (inst : Inst) (o : Operand) : Prop :=
  match arch with
  | .arm => o.absTarget = inst.relativeTarget .arm o
  | _ => o.absTarget = 0 → inst.displaced arch o = 0

/-- An instruction flagged as relative, with its relative operand in front and the target in it. -/
structure Inst.PlainTarget (arch : Arch) (inst : Inst) (i : Nat) (o : Operand) : Prop where
  flagged : inst.has InstFlag.pcRelative = true
  place : inst.IsFirst arch i
  target : inst.RecordsTarget arch o

/-! ## The analyses -/

section

variable {inst : Inst} {i : Nat} {o : Operand} (hop : inst.operands[i]? = some o)

include hop

theorem operands_ne_nil_of_getElem? : inst.operands ≠ [] := by
  intro hnil
  rw [hnil] at hop
  cases hop

theorem operand0_of_getElem? (hi : i = 0) : inst.operand0 = o := by
  subst hi
  unfold Inst.operand0
  cases hops : inst.operands with
  | nil =>
    rw [hops] at hop
    cases hop
  | cons o' rest =>
    rw [hops] at hop
    cases hop
    rfl

theorem Arm.analyze_reports_iff :
    (Arm.analyze inst).pcRel.Reports i (inst.relativeTarget .arm o) ↔ inst.PlainTarget .arm i o := by
  have hne := operands_ne_nil_of_getElem? hop
  unfold Arm.analyze PcRelativeInfo.Reports
  simp only
  split
  · rename_i hflagged
    constructor
    · rintro ⟨-, hi, htarget⟩
      rw [operand0_of_getElem? hop hi.symm] at htarget
      exact ⟨hflagged.1, hi.symm, htarget⟩
    · rintro ⟨-, hi, htarget⟩
      refine ⟨rfl, hi.symm, ?_⟩
      rw [operand0_of_getElem? hop hi]
      exact htarget
  · rename_i hnot
    constructor
    · rintro ⟨hfalse, -⟩
      cases hfalse
    · intro h
      exact absurd ⟨h.flagged, hne⟩ hnot

theorem A64.findPcRelOperand_first (hi : i = 0) (hkind : o.kind = .pcRel) :
    A64.findPcRelOperand inst = some o := by
  subst hi
  unfold A64.findPcRelOperand
  cases hops : inst.operands with
  | nil =>
    rw [hops] at hop
    cases hop
  | cons o' rest =>
    rw [hops] at hop
    cases hop
    simp [maxOperands, hkind]

omit hop in
theorem A64.operandTarget_iff (hkind : o.kind = .pcRel) :
    A64.operandTarget inst o = inst.relativeTarget .aarch64 o ↔ inst.RecordsTarget .aarch64 o := by
  have hmem : X86.isRipMemory o = false := by simp [X86.isRipMemory, hkind]
  simp only [A64.operandTarget, Inst.relativeTarget, Inst.RecordsTarget, Inst.displaced, hmem,
    reduceCtorEq, Bool.false_eq_true, and_self, false_and, if_false]
  by_cases hzero : o.absTarget = 0
  · by_cases himm : o.imm = 0 <;> simp [hzero, himm]
  · exact iff_of_true (if_pos (.inl hzero)) fun h => absurd h hzero

theorem A64.analyze_reports_iff (hkind : o.kind = .pcRel) :
    (A64.analyze inst).pcRel.Reports i (inst.relativeTarget .aarch64 o) ↔
      inst.PlainTarget .aarch64 i o := by
  unfold A64.analyze PcRelativeInfo.Reports
  simp only
  split
  · rename_i hnone
    constructor
    · rintro ⟨hfalse, -⟩
      cases hfalse
    · intro h
      rw [A64.findPcRelOperand_first hop h.place hkind] at hnone
      cases hnone
  rename_i found hfound
  split
  · rename_i hnot
    constructor
    · rintro ⟨hfalse, -⟩
      cases hfalse
    · intro h
      exact absurd h.flagged hnot
  · rename_i hflagged
    constructor
    · rintro ⟨-, hi, htarget⟩
      rw [A64.findPcRelOperand_first hop hi.symm hkind] at hfound
      cases hfound
      exact ⟨not_not.1 hflagged, hi.symm, (A64.operandTarget_iff hkind).1 htarget⟩
    · intro h
      have hi : i = 0 := h.place
      rw [A64.findPcRelOperand_first hop hi hkind] at hfound
      cases hfound
      exact ⟨rfl, hi.symm, (A64.operandTarget_iff hkind).2 h.target⟩

end

/-! ### x86 -/

namespace X86

section

variable {inst : Inst} {i : Nat} {o : Operand}

theorem isPcRelOperand_of_isRelative (hrel : o.IsRelative .x86) : isPcRelOperand o = true := by
  rcases hrel with hkind | ⟨-, hrip⟩ | ⟨harm, -⟩
  · simp [isPcRelOperand, hkind]
  · simp [isPcRelOperand, hrip]
  · cases harm

theorem pcRelOperandIndex_iff (hop : inst.operands[i]? = some o) (hrel : o.IsRelative .x86) :
    i < maxOperands ∧ pcRelOperandIndex inst = i ↔ inst.IsFirst .x86 i := by
  refine and_congr_right fun hi => ?_
  have htaken : (inst.operands.take maxOperands)[i]? = some o := by
    rw [List.getElem?_take_of_lt hi, hop]
  obtain ⟨hlt, hget⟩ := List.getElem?_eq_some_iff.1 htaken
  rw [pcRelOperandIndex, List.findIdx_eq hlt, hget]
  constructor
  · rintro ⟨-, hbefore⟩ j hj p hp
    have hpj := hbefore j hj
    rw [← List.getElem?_take_of_lt (hj.trans hi)] at hp
    obtain ⟨-, rfl⟩ := List.getElem?_eq_some_iff.1 hp
    exact hpj
  · intro hbefore
    refine ⟨isPcRelOperand_of_isRelative hrel, fun j hj => hbefore j hj _ ?_⟩
    rw [← List.getElem?_take_of_lt (hj.trans hi)]
    exact List.getElem?_eq_getElem _

theorem pcRelOperand_of_isFirst (hop : inst.operands[i]? = some o) (hrel : o.IsRelative .x86)
    (h : inst.IsFirst .x86 i) : pcRelOperand inst = some o := by
  obtain ⟨hi, hindex⟩ := (pcRelOperandIndex_iff hop hrel).2 h
  unfold pcRelOperandIndex at hindex
  rw [pcRelOperand, List.find?_eq_getElem?_findIdx, hindex, List.getElem?_take_of_lt hi, hop]

theorem pcRelativeOperandTarget_iff :
    pcRelativeOperandTarget inst o = inst.relativeTarget .x86 o ↔ inst.RecordsTarget .x86 o := by
  simp only [pcRelativeOperandTarget, Inst.relativeTarget, Inst.RecordsTarget, Inst.displaced,
    reduceCtorEq, false_and, if_false, if_true, true_and]
  by_cases hzero : o.absTarget = 0
  · by_cases hrip : isRipMemory o = true
    · have hmem : o.kind = .mem ∧ o.mem.base = Reg.rip := by simpa [isRipMemory] using hrip
      simp [hzero, hrip, hmem.1, hmem.2]
    · have hmem : ¬ (o.kind = .mem ∧ o.mem.base = Reg.rip) := by simpa [isRipMemory] using hrip
      rw [if_neg (fun h => hmem ⟨h.1, h.2.1⟩), if_neg hrip]
      by_cases himm : o.imm = 0 <;> simp [hzero, himm]
  · rw [if_neg (fun h => hzero h.2.2), if_pos (.inl hzero)]
    exact iff_of_true rfl fun h => absurd h hzero

theorem analyze_reports_iff (hop : inst.operands[i]? = some o) (hrel : o.IsRelative .x86) :
    (analyze inst).pcRel.Reports i (inst.relativeTarget .x86 o) ↔ inst.PlainTarget .x86 i o := by
  unfold analyze PcRelativeInfo.Reports
  simp only
  split
  · rename_i hnot
    constructor
    · rintro ⟨hfalse, -⟩
      cases hfalse
    · intro h
      exact absurd h.flagged hnot
  rename_i hflagged
  split
  · rename_i hnone
    constructor
    · rintro ⟨hfalse, -⟩
      cases hfalse
    · intro h
      rw [pcRelOperand_of_isFirst hop hrel h.place] at hnone
      cases hnone
  · rename_i found hfound
    constructor
    · rintro ⟨-, hindex, htarget⟩
      have hi : i < maxOperands := by
        rw [pcRelOperand, List.find?_eq_getElem?_findIdx] at hfound
        obtain ⟨hlt, -⟩ := List.getElem?_eq_some_iff.1 hfound
        rw [← hindex]
        exact lt_of_lt_of_le hlt (List.length_take_le _ _)
      have hplace := (pcRelOperandIndex_iff hop hrel).1 ⟨hi, hindex⟩
      rw [pcRelOperand_of_isFirst hop hrel hplace] at hfound
      cases hfound
      exact ⟨not_not.1 hflagged, hplace, pcRelativeOperandTarget_iff.1 htarget⟩
    · intro h
      rw [pcRelOperand_of_isFirst hop hrel h.place] at hfound
      cases hfound
      exact ⟨rfl, ((pcRelOperandIndex_iff hop hrel).2 h.place).2,
        pcRelativeOperandTarget_iff.2 h.target⟩

end

end X86

/-! ## The reported target -/

/-- The analyses of an instruction name the operand at place `i`, and its target wherever they name
one. -/
structure ReportsTarget (engine : Engine) (inst : Inst) (control : ControlAnalysis) (i : Nat)
    (o : Operand) : Prop where
  analyzed : ∃ semantics, analyzeInst engine inst = .ok semantics ∧
    semantics.pcRel.Reports i (inst.relativeTarget engine.target.arch o)
  addresses : ∀ va, analyzeInstValues engine inst control = .ok va →
    va.Addresses (inst.relativeTarget engine.target.arch o) ∧
      (inst.materializesAddress engine.target.arch → va.HasAddress)

section

variable {engine : Engine} {inst : Inst} {control : ControlAnalysis} {i : Nat} {o : Operand}
  (harch : engine.target.arch = .x86 ∨ engine.target.arch = .arm ∨ engine.target.arch = .aarch64)

include harch

theorem analyzeInst_reports_iff {semantics : InstSemantics}
    (hop : inst.operands[i]? = some o) (hrel : o.IsRelative engine.target.arch)
    (h : analyzeInst engine inst = .ok semantics) :
    semantics.pcRel.Reports i (inst.relativeTarget engine.target.arch o) ↔
      inst.PlainTarget engine.target.arch i o := by
  unfold analyzeInst at h
  rcases harch with hx | ha | ha
  · simp only [hx] at h hrel ⊢
    cases h
    exact X86.analyze_reports_iff hop hrel
  · simp only [ha] at h hrel ⊢
    cases h
    exact Arm.analyze_reports_iff hop
  · simp only [ha] at h hrel ⊢
    cases h
    have hkind : o.kind = .pcRel := by
      rcases hrel with hkind | ⟨hx, -⟩ | ⟨harm, -⟩
      · exact hkind
      · cases hx
      · cases harm
    exact A64.analyze_reports_iff hop hkind

theorem analyzeInstValues_addresses {va : ValueAnalysis} {target : BitVec 64}
    (hreports : control.semantics.pcRel.Reports i target) (hops : inst.operands ≠ [])
    (hva : analyzeInstValues engine inst control = .ok va) :
    va.Addresses target ∧ (inst.materializesAddress engine.target.arch → va.HasAddress) := by
  obtain ⟨hrel, -, rfl⟩ := hreports
  obtain ⟨hinst, hmode⟩ := analyzeInstValues_matches hva
  generalize hload : (if inst.instClass = .load ∨ inst.instClass = .store then
    emitMemoryEffect inst {} else {}) = loaded
  have haddresses : loaded.Addresses control.semantics.pcRel.originalTarget := by
    rw [← hload]
    split
    · exact addresses_empty.memoryEffect
    · exact addresses_empty
  have hlen : loaded.effects.length < maxValueEffects := by
    rw [← hload]
    split
    · exact lt_of_le_of_lt emitMemoryEffect_length_le (by decide)
    · decide
  rcases harch with hx | ha | ha
  · rw [analyzeInstValues_eq_x86 control hmode hx (hinst.trans hx), hload] at hva
    cases hva
    rw [hx]
    exact ⟨X86.values_addresses hrel haddresses, X86.values_hasAddress hops hlen⟩
  · rw [analyzeInstValues_eq_arm control hmode ha (hinst.trans ha), hload] at hva
    cases hva
    rw [ha]
    exact ⟨Arm.values_addresses haddresses, Arm.values_hasAddress hops hlen⟩
  · rw [analyzeInstValues_eq_aarch64 control hmode ha (hinst.trans ha), hload] at hva
    cases hva
    rw [ha]
    exact ⟨A64.values_addresses haddresses, A64.values_hasAddress hops hlen⟩

/-- The analyses report a relative operand and its target just when the instruction is flagged, the
operand is the first one, and the target is held in it. -/
theorem reportsTarget_iff {state : Option DecodeState}
    (hop : inst.operands[i]? = some o) (hrel : o.IsRelative engine.target.arch)
    (hcontrol : analyzeInstWithState engine inst state = .ok control) :
    ReportsTarget engine inst control i o ↔ inst.PlainTarget engine.target.arch i o := by
  have hsemantics := analyzeInst_of_withState hcontrol
  have hiff := analyzeInst_reports_iff harch hop hrel hsemantics
  constructor
  · rintro ⟨⟨semantics, hanalyzed, hreports⟩, -⟩
    exact (analyzeInst_reports_iff harch hop hrel hanalyzed).1 hreports
  · intro hfinds
    have hreports := hiff.2 hfinds
    exact ⟨⟨control.semantics, hsemantics, hreports⟩, fun va hva =>
      analyzeInstValues_addresses harch hreports (operands_ne_nil_of_getElem? hop) hva⟩

end

/-! ## At fixed instructions -/

/-- The row of `lea` with a 64-bit destination. -/
def leaRecord : X86.Record :=
  { id := 66999, mnemonicId := X86.Mnemonic.lea, opcode := 0x8d, opcodeMap := 0, modrmKind := .mem
    rexW := true, nameHas64 := true, instClass := .other, decodeForm := .modrmRegRm
    operands := [{ kind := .reg, regClass := .gpr, width := 64 }, { kind := .mem, width := 64 }]
    rmOperand := 1, regOperand := 0 }

def leaTables : AsmKit.Tables :=
  { noTables with
    x86 := { noTables.x86 with bucket := fun _ => [leaRecord] }
    operandInfos := fun _ id =>
      if id = leaRecord.id then
        [⟨OperandFlag.explicit ||| OperandFlag.write, 64⟩,
          ⟨OperandFlag.explicit ||| OperandFlag.memory ||| OperandFlag.read, 64⟩]
      else [] }

/-- `lea rax, [rip + 16]`. -/
def leaInst : Inst :=
  (decodeOne leaTables x86Engine64 [0x48, 0x8d, 0x05, 0x10, 0, 0, 0] 0x1000
    x86Engine64.emptyInst).toOption.getD x86Engine64.emptyInst

theorem reportsTarget_lea : ∃ control o,
    decodeOne leaTables x86Engine64 [0x48, 0x8d, 0x05, 0x10, 0, 0, 0] 0x1000
      x86Engine64.emptyInst = .ok leaInst ∧
    leaInst.operands[1]? = some o ∧ o.absTarget = 0x1017 ∧
    analyzeInstWithState x86Engine64 leaInst none = .ok control ∧
    ReportsTarget x86Engine64 leaInst control 1 o := by
  obtain ⟨control, hcontrol⟩ : ∃ control,
    analyzeInstWithState x86Engine64 leaInst none = .ok control := ⟨_, rfl⟩
  obtain ⟨o, hop, htarget, hrip⟩ : ∃ o, leaInst.operands[1]? = some o ∧ o.absTarget = 0x1017 ∧
    X86.isRipMemory o = true := ⟨_, rfl, rfl, rfl⟩
  have hplain : leaInst.PlainTarget .x86 1 o := by
    refine ⟨rfl, ⟨by decide, ?_⟩, fun hzero => ?_⟩
    · intro j hj p hp
      rw [Nat.lt_one_iff.1 hj] at hp
      cases hp
      rfl
    · rw [htarget] at hzero
      cases hzero
  exact ⟨control, o, rfl, hop, htarget, hcontrol,
    (reportsTarget_iff (.inl rfl) hop (.inr (.inl ⟨rfl, hrip⟩)) hcontrol).2 hplain⟩

/-- `ldr r0, [pc, #8]`. -/
def ldrLiteralInst : Inst :=
  (decodeOne noTables armEngineA32 (store32le 0xe59f0008) 0x1000
    armEngineA32.emptyInst).toOption.getD armEngineA32.emptyInst

/-- The literal is operand 1 and at 0x1010: the analysis names operand 0, and 0 as its target. -/
theorem reportsTarget_ldr_literal : ∃ o semantics,
    decodeOne noTables armEngineA32 (store32le 0xe59f0008) 0x1000 armEngineA32.emptyInst =
      .ok ldrLiteralInst ∧
    ldrLiteralInst.operands[1]? = some o ∧ o.kind = .pcRel ∧ o.absTarget = 0x1010 ∧
    analyzeInst armEngineA32 ldrLiteralInst = .ok semantics ∧
    semantics.pcRel.operandIndex = 0 ∧ semantics.pcRel.originalTarget = 0 ∧
    ∀ control, ¬ ReportsTarget armEngineA32 ldrLiteralInst control 1 o := by
  refine ⟨_, _, rfl, rfl, rfl, rfl, rfl, rfl, rfl, fun control h => ?_⟩
  obtain ⟨semantics, hanalyzed, -, hindex, -⟩ := h.analyzed
  cases hanalyzed
  cases hindex

end AsmKit
