import AsmKit.Analysis.Eval

/-!
# The effects of widening moves and loads

An extension is reported as a move of the source into the destination and an extension of the
destination from itself.
-/

namespace AsmKit

open Widths

/-! ## Extensions -/

/-- A destination register with a register or memory as its source. -/
structure Extension (inst : Inst) (dst src : Operand) : Prop where
  operands : inst.operands = [dst, src]
  dst_kind : dst.kind = .reg
  src_kind : src.kind = .reg ∨ src.kind = .mem
  written : hasFlag dst.flags OperandFlag.write = true ∨ hasFlag src.flags OperandFlag.write = false
  instClass : inst.instClass ≠ .store

/-- The value of the destination, in `d` bits from `s`. -/
def extended (isSigned : Bool) (s d : Nat) (v : BitVec 64) : BitVec 64 :=
  if isSigned then signed s d v else low d (low s v)

theorem low_eq_extended_iff {isSigned : Bool} {s d : Nat} (hs : 0 < s) (hd : d ≤ 64)
    (v : BitVec 64) :
    low d (low s v) = extended isSigned s d v ↔
      isSigned = false ∨ d ≤ s ∨ v.getLsbD (s - 1) = false := by
  unfold extended
  cases isSigned
  · simp
  · rw [if_pos rfl, eq_comm, signed_eq_low_iff v hs hd]
    simp

/-! ## The effects -/

def extendEffects (inst : Inst) (move extend : ValueEffectKind) : List ValueEffect :=
  [{ kind := move, destination := valueOperand inst (some 0), sources := [valueOperand inst (some 1)] },
    { kind := extend, destination := valueOperand inst (some 0)
      sources := [valueOperand inst (some 0)] }]

section

variable {inst : Inst} {dst src : Operand} (hext : Extension inst dst src)

include hext

theorem Extension.operand1 : inst.operands[1]? = some src := by
  rw [hext.operands]
  rfl

theorem Extension.destination : findDestinationOperand inst = some 0 := by
  rcases hext.written with h | h
  · simp [findDestinationOperand, hext.operands, List.findIdx?_cons, h]
  · cases hdst : hasFlag dst.flags OperandFlag.write <;>
      simp [findDestinationOperand, hext.operands, List.findIdx?_cons, h, hdst]

theorem Extension.source : findSourceOperand inst (some 0) none = some 1 := by
  simp [findSourceOperand, hext.operands, List.range_succ_eq_map]

theorem Extension.memory (h : src.kind = .mem) : findMemoryOperand inst = some 1 := by
  simp [findMemoryOperand, hext.operands, List.findIdx?_cons, hext.dst_kind, h]

theorem Extension.no_memory (h : src.kind = .reg) : findMemoryOperand inst = none := by
  simp [findMemoryOperand, hext.operands, List.findIdx?_cons, hext.dst_kind, h]

theorem Extension.evalEffects {move extend : ValueEffectKind} (hmove : move = .copy ∨ move = .load)
    (hextend : extend = .signExtend ∨ extend = .zeroExtend) (hsrc : src.width ≠ 0)
    (hdst : dst.width ≠ 0) (context : Context) :
    ∃ σ, AsmKit.evalEffects (extendEffects inst move extend) (inst.values context) = some σ ∧
      σ (.operand 0) = low dst.width (low src.width (src.holds context)) := by
  have hmoved : (inst.values context) (.operand 1) = src.holds context :=
    Inst.values_operand hext.operand1 context
  have hread1 : valueOperand inst (some 1) =
      { kind := .operand, operandIndex := 1, width := src.width
        registerId := if src.kind = .reg then src.reg else 0
        immediate := if src.kind = .imm ∨ src.kind = .pcRel then src.imm else 0 } := by
    simp [valueOperand, hext.operands]
  have hread0 : valueOperand inst (some 0) =
      { kind := .operand, operandIndex := 0, width := dst.width
        registerId := if dst.kind = .reg then dst.reg else 0
        immediate := if dst.kind = .imm ∨ dst.kind = .pcRel then dst.imm else 0 } := by
    simp [valueOperand, hext.operands]
  rcases hmove with rfl | rfl <;> rcases hextend with rfl | rfl <;>
    simp only [extendEffects, evalEffects_cons, evalEffects_nil, ValueEffect.step,
      ValueEffect.result, ValueEffect.source, ValueRef.read, ValueRef.contents, ValueRef.write,
      ValueRef.place?, List.getD_cons_zero, Option.map_some, Option.bind_some, hread0, hread1, hsrc,
      hdst, if_false, hmoved, Function.update_self, low_low, signed_self] <;>
    exact ⟨_, rfl, by rw [Function.update_self]⟩

theorem Extension.emitMemoryEffect (h : src.kind = .mem) :
    AsmKit.emitMemoryEffect inst {} =
      { effects := [{ kind := .load, destination := valueOperand inst (some 0)
                      sources := [valueOperand inst (some 1)] }] } := by
  unfold AsmKit.emitMemoryEffect
  simp [hext.destination, hext.memory h, hext.instClass, ValueAnalysis.addEffect, maxValueEffects]

theorem Extension.emitMemoryEffect_reg (h : src.kind = .reg) :
    AsmKit.emitMemoryEffect inst {} = {} := by
  unfold AsmKit.emitMemoryEffect
  simp [hext.no_memory h]

theorem Extension.emitCopy :
    AsmKit.emitCopy inst {} =
      { effects := [{ kind := .copy, destination := valueOperand inst (some 0)
                      sources := [valueOperand inst (some 1)] }] } := by
  unfold AsmKit.emitCopy
  simp [hext.destination, hext.source, ValueAnalysis.addEffect, maxValueEffects]

theorem Extension.emitExtend (move kind : ValueEffectKind) :
    (AsmKit.emitExtend inst kind
      { effects := [{ kind := move, destination := valueOperand inst (some 0)
                      sources := [valueOperand inst (some 1)] }] }).effects =
      extendEffects inst move kind := by
  unfold AsmKit.emitExtend
  simp [hext.destination, ValueAnalysis.addEffect, maxValueEffects, extendEffects]

end

/-! ## x86 -/

namespace X86

def isExtend (mnemonic : Nat) : Prop :=
  mnemonic = Mnemonic.movsx ∨ mnemonic = Mnemonic.movsxd ∨ mnemonic = Mnemonic.movzx

section

variable {inst : Inst} {dst src : Operand} (hext : Extension inst dst src)
  (hmnemonic : isExtend inst.mnemonicId)

include hmnemonic

theorem values_extension_effects (control : ControlAnalysis) (va : ValueAnalysis) :
    (values inst control va).effects = (valueEffects inst control va).effects := by
  have hcompare : isCompare inst.mnemonicId = false ∧ setsFlags inst.mnemonicId = false ∧
      takenRelation inst.mnemonicId = .none := by
    rcases hmnemonic with h | h | h <;> rw [h] <;> decide
  obtain ⟨hcmp, hflags, htaken⟩ := hcompare
  unfold values useCondition defineCondition
  simp [hcmp, hflags, htaken]

include hext

theorem moved_extension :
    let va := if inst.instClass = .load ∨ inst.instClass = .store then emitMemoryEffect inst {} else {}
    let moved := if isMove inst.mnemonicId ∧ findMemoryOperand inst ≠ none ∧ va.effects = [] then
      emitMemoryEffect inst va else va
    (if findMemoryOperand inst = none then emitCopy inst moved else moved) =
      { effects := [{ kind := if src.kind = .mem then .load else .copy
                      destination := valueOperand inst (some 0)
                      sources := [valueOperand inst (some 1)] }] } := by
  intro va moved
  have hmove : isMove inst.mnemonicId = true := by
    rcases hmnemonic with h | h | h <;> rw [h] <;> decide
  rcases hext.src_kind with hreg | hmem
  · have hva : va = {} := by
      simp only [va, hext.emitMemoryEffect_reg hreg, ite_self]
    have hmoved : moved = {} := by
      simp only [moved, hext.no_memory hreg, ne_eq, not_true_eq_false, false_and, and_false, if_false]
      exact hva
    rw [if_pos (hext.no_memory hreg), hmoved, hext.emitCopy, hreg]
    rfl
  · rw [hext.memory hmem, if_neg (by simp), if_pos hmem]
    show (if isMove inst.mnemonicId ∧ findMemoryOperand inst ≠ none ∧ va.effects = [] then
      emitMemoryEffect inst va else va) = _
    rw [hext.memory hmem]
    simp only [va]
    split
    · rw [hext.emitMemoryEffect hmem]
      simp
    · rw [if_pos ⟨hmove, by simp, rfl⟩, hext.emitMemoryEffect hmem]

theorem values_extension (control : ControlAnalysis) :
    ∃ move, (move = .copy ∨ move = .load) ∧
      (values inst control (if inst.instClass = .load ∨ inst.instClass = .store then
        emitMemoryEffect inst {} else {})).effects =
        extendEffects inst move
          (if inst.mnemonicId = Mnemonic.movzx then .zeroExtend else .signExtend) := by
  have hmoved := moved_extension hext hmnemonic
  simp only at hmoved
  rw [values_extension_effects hmnemonic]
  unfold valueEffects
  simp only
  refine ⟨if src.kind = .mem then .load else .copy, ?_, ?_⟩
  · split
    · exact .inr rfl
    · exact .inl rfl
  · have hne : inst.mnemonicId ≠ Mnemonic.lea ∧ inst.mnemonicId ≠ Mnemonic.mov := by
      rcases hmnemonic with h | h | h <;> rw [h] <;> decide
    rw [if_neg (fun h => hne.1 h.1), if_neg (fun h => hne.2 h.1)]
    by_cases hsigned : inst.mnemonicId = Mnemonic.movsx ∨ inst.mnemonicId = Mnemonic.movsxd
    · have hzero : inst.mnemonicId ≠ Mnemonic.movzx := by
        rcases hsigned with h | h <;> rw [h] <;> decide
      rw [if_pos hsigned, hmoved, hext.emitExtend, if_neg hzero]
    · have hzero : inst.mnemonicId = Mnemonic.movzx := by
        rcases hmnemonic with h | h | h
        · exact absurd (.inl h) hsigned
        · exact absurd (.inr h) hsigned
        · exact h
      rw [if_neg hsigned, if_pos hzero, hmoved, hext.emitExtend, if_pos hzero]

end

end X86

/-! ## AArch64 -/

namespace A64

def isLoadSigned (mnemonic : Nat) : Prop :=
  mnemonic = Mnemonic.ldrsw ∨ mnemonic = Mnemonic.ldrsh ∨ mnemonic = Mnemonic.ldrsb

section

variable {inst : Inst} {control : ControlAnalysis} (hmnemonic : isLoadSigned inst.mnemonicId)
  (hcontrol : control.semantics.pcRel.isAddressMaterialization = false)

include hmnemonic hcontrol

theorem values_loadSigned (va : ValueAnalysis) :
    (values inst control va).effects = (emitExtend inst .signExtend va).effects := by
  have hne : inst.mnemonicId ≠ Mnemonic.adr ∧ inst.mnemonicId ≠ Mnemonic.adrp ∧
      ¬ (inst.mnemonicId = Mnemonic.mov ∨ inst.mnemonicId = Mnemonic.movz ∨
        inst.mnemonicId = Mnemonic.movn) ∧ binaryKinds.lookup inst.mnemonicId = none ∧
      ¬ (inst.mnemonicId = Mnemonic.cbz ∨ inst.mnemonicId = Mnemonic.tbz) ∧
      ¬ (inst.mnemonicId = Mnemonic.cbnz ∨ inst.mnemonicId = Mnemonic.tbnz) := by
    rcases hmnemonic with h | h | h <;> rw [h] <;> decide
  obtain ⟨hadr, hadrp, hmov, hbinary, hzero, hnonzero⟩ := hne
  have haddress : ¬ ((inst.mnemonicId = Mnemonic.adr ∨ inst.mnemonicId = Mnemonic.adrp ∨
      control.semantics.pcRel.isAddressMaterialization = true) ∧
      findDestinationOperand inst ≠ none) := by
    rintro ⟨h | h | h, -⟩
    · exact hadr h
    · exact hadrp h
    · rw [hcontrol] at h
      cases h
  unfold values
  simp only
  rw [if_neg hzero, if_neg hnonzero, if_neg haddress, if_neg hmov]
  have hextend : inst.mnemonicId = Mnemonic.ldrsw ∨ inst.mnemonicId = Mnemonic.ldrsh ∨
      inst.mnemonicId = Mnemonic.ldrsb := hmnemonic
  rw [if_pos hextend]
  unfold emitBinaryOf
  rw [hbinary]

theorem values_extension {dst src : Operand} (hext : Extension inst dst src)
    (hmem : src.kind = .mem) :
    (values inst control (emitMemoryEffect inst {})).effects =
      extendEffects inst .load .signExtend := by
  rw [values_loadSigned hmnemonic hcontrol, hext.emitMemoryEffect hmem, hext.emitExtend]

end

end A64

end AsmKit
