import AsmKit.Analysis.Values

/-!
# The addresses an instruction materialises

The address effects of the value analysis, and where their source comes from.
-/

namespace AsmKit

/-! ## Effects kept and added -/

section

variable {inst : Inst} {va : ValueAnalysis} {effect : ValueEffect}

theorem mem_addEffect {e : ValueEffect} (h : e ∈ (va.addEffect effect).effects) :
    e ∈ va.effects ∨ e = effect := by
  unfold ValueAnalysis.addEffect at h
  split at h
  · exact .inl h
  · simpa using h

theorem subset_addEffect : va.effects ⊆ (va.addEffect effect).effects := by
  unfold ValueAnalysis.addEffect
  split
  · exact List.Subset.refl _
  · exact List.subset_append_left _ _

theorem mem_addEffect_self (h : va.effects.length < maxValueEffects) :
    effect ∈ (va.addEffect effect).effects := by
  unfold ValueAnalysis.addEffect
  rw [if_neg (Nat.not_le.2 h)]
  exact List.mem_append_right _ List.mem_cons_self

theorem addEffect_length_le : (va.addEffect effect).effects.length ≤ va.effects.length + 1 := by
  unfold ValueAnalysis.addEffect
  split <;> simp

theorem emitMemoryEffect_length_le :
    (emitMemoryEffect inst va).effects.length ≤ va.effects.length + 1 := by
  simp only [emitMemoryEffect]
  split
  · exact Nat.le_succ _
  split
  · exact addEffect_length_le
  split
  · exact addEffect_length_le
  · exact Nat.le_succ _

theorem subset_emitExtend {kind : ValueEffectKind} :
    va.effects ⊆ (emitExtend inst kind va).effects := by
  simp only [emitExtend]
  split <;> exact subset_addEffect

end

/-! ## The source of an address -/

/-- Every address that is materialised is `target`. -/
def ValueAnalysis.Addresses (va : ValueAnalysis) (target : BitVec 64) : Prop :=
  ∀ effect ∈ va.effects, effect.kind = .address →
    ∃ width, effect.sources = [valueImmediate target width]

def ValueAnalysis.HasAddress (va : ValueAnalysis) : Prop :=
  ∃ effect ∈ va.effects, effect.kind = .address

section

variable {inst : Inst} {va : ValueAnalysis} {target : BitVec 64}

theorem addresses_empty : ValueAnalysis.Addresses {} target := by
  intro effect hmem
  cases hmem

theorem ValueAnalysis.Addresses.addEffect {effect : ValueEffect} (h : va.Addresses target)
    (heffect : effect.kind ≠ .address) : (va.addEffect effect).Addresses target := by
  intro e hmem hkind
  rcases mem_addEffect hmem with hold | rfl
  · exact h e hold hkind
  · exact absurd hkind heffect

theorem ValueAnalysis.Addresses.memoryEffect (h : va.Addresses target) :
    (emitMemoryEffect inst va).Addresses target := by
  simp only [emitMemoryEffect]
  split
  · exact h
  split
  · exact h.addEffect (by simp)
  split
  · exact h.addEffect (by simp)
  · exact h

theorem ValueAnalysis.Addresses.binaryOf {kinds : List (Nat × ValueEffectKind)}
    (h : va.Addresses target) (hkinds : ∀ p ∈ kinds, p.2 ≠ .address) :
    (emitBinaryOf kinds inst va).Addresses target := by
  unfold emitBinaryOf
  split
  · rename_i kind hlookup
    obtain ⟨l, r, rfl, -⟩ := List.lookup_eq_some_iff.1 hlookup
    have hkind : kind ≠ .address := hkinds (inst.mnemonicId, kind) (by simp)
    simp only [emitBinaryEffect]
    split
    · exact h
    · exact h.addEffect hkind
  · exact h

theorem ValueAnalysis.Addresses.copy (h : va.Addresses target) :
    (emitCopy inst va).Addresses target := by
  simp only [emitCopy]
  split <;> exact h.addEffect (by simp)

theorem ValueAnalysis.Addresses.extend {kind : ValueEffectKind} (h : va.Addresses target)
    (hkind : kind ≠ .address) : (emitExtend inst kind va).Addresses target := by
  simp only [emitExtend]
  split <;> exact h.addEffect hkind

theorem ValueAnalysis.Addresses.address {width : Nat} (h : va.Addresses target) :
    (emitAddress inst (valueImmediate target width) va).Addresses target := by
  intro effect hmem hkind
  rcases mem_addEffect hmem with hold | rfl
  · exact h effect hold hkind
  · exact ⟨width, rfl⟩

theorem ValueAnalysis.Addresses.compare {state : ConditionState} (h : va.Addresses target) :
    (emitCompare inst state va).Addresses target := by
  unfold emitCompare
  split
  · exact h
  · exact h.addEffect (by simp)

theorem ValueAnalysis.Addresses.tableBranch (h : va.Addresses target) :
    (Arm.emitTableBranch inst va).Addresses target :=
  (((h.addEffect (by simp)).addEffect (by simp)).addEffect (by simp)).addEffect (by simp)

theorem ValueAnalysis.HasAddress.mono {va' : ValueAnalysis} (h : va.HasAddress)
    (hsub : va.effects ⊆ va'.effects) : va'.HasAddress := by
  obtain ⟨effect, hmem, hkind⟩ := h
  exact ⟨effect, hsub hmem, hkind⟩

theorem hasAddress_emitAddress {source : ValueRef} (h : va.effects.length < maxValueEffects) :
    (emitAddress inst source va).HasAddress :=
  ⟨_, mem_addEffect_self h, rfl⟩

end

theorem findDestinationOperand_ne_none {inst : Inst} (h : inst.operands ≠ []) :
    findDestinationOperand inst ≠ none := by
  simp [findDestinationOperand, h]

/-! ## The targets -/

section

variable {inst : Inst} {control : ControlAnalysis} {va : ValueAnalysis}

theorem X86.values_addresses (hrel : control.semantics.pcRel.isPcRelative = true)
    (h : va.Addresses control.semantics.pcRel.originalTarget) :
    (X86.values inst control va).Addresses control.semantics.pcRel.originalTarget := by
  have heffects : (X86.valueEffects inst control va).Addresses
      control.semantics.pcRel.originalTarget := by
    have hmoved : (if isMove inst.mnemonicId ∧ findMemoryOperand inst ≠ none ∧ va.effects = [] then
        emitMemoryEffect inst va else va).Addresses control.semantics.pcRel.originalTarget := by
      split
      · exact h.memoryEffect
      · exact h
    have hcopied : (emitCopy inst (if isMove inst.mnemonicId ∧ findMemoryOperand inst ≠ none ∧
        va.effects = [] then emitMemoryEffect inst va else va)).Addresses
          control.semantics.pcRel.originalTarget := hmoved.copy
    simp only [X86.valueEffects, hrel, if_true]
    generalize (if isMove inst.mnemonicId ∧ findMemoryOperand inst ≠ none ∧ va.effects = [] then
      emitMemoryEffect inst va else va) = moved at hmoved hcopied ⊢
    split
    · exact hmoved.address
    split
    · exact hcopied
    split
    · refine ValueAnalysis.Addresses.extend ?_ (by simp)
      split
      · exact hcopied
      · exact hmoved
    split
    · refine ValueAnalysis.Addresses.extend ?_ (by simp)
      split
      · exact hcopied
      · exact hmoved
    · exact hmoved.binaryOf (by decide)
  have hdefine : (X86.defineCondition inst (X86.valueEffects inst control va)).Addresses
      control.semantics.pcRel.originalTarget := by
    unfold X86.defineCondition
    split
    · exact heffects.compare
    split <;> exact heffects
  unfold X86.values X86.useCondition
  simp only
  split <;> exact hdefine

theorem Arm.values_addresses (h : va.Addresses control.semantics.pcRel.originalTarget) :
    (Arm.values inst control va).Addresses control.semantics.pcRel.originalTarget := by
  have heffects : (Arm.valueEffects inst control va).Addresses
      control.semantics.pcRel.originalTarget := by
    simp only [Arm.valueEffects]
    split
    · exact h.tableBranch
    split
    · exact h.address
    split
    · exact h.copy
    · exact h.binaryOf (by decide)
  have hcompared : (if inst.mnemonicId = Mnemonic.cmp then
      emitCompare inst .armFlags (Arm.valueEffects inst control va)
      else Arm.valueEffects inst control va).Addresses control.semantics.pcRel.originalTarget := by
    split
    · exact heffects.compare
    · exact heffects
  unfold Arm.values Arm.useCondition
  simp only
  split
  · exact hcompared
  split
  · exact hcompared
  split <;> exact hcompared

theorem A64.values_addresses (h : va.Addresses control.semantics.pcRel.originalTarget) :
    (A64.values inst control va).Addresses control.semantics.pcRel.originalTarget := by
  simp only [A64.values]
  have heffects : (if (inst.mnemonicId = Mnemonic.adr ∨ inst.mnemonicId = Mnemonic.adrp ∨
      control.semantics.pcRel.isAddressMaterialization) ∧ findDestinationOperand inst ≠ none then
      emitAddress inst (valueImmediate control.semantics.pcRel.originalTarget 64) va
    else if inst.mnemonicId = Mnemonic.mov ∨ inst.mnemonicId = Mnemonic.movz ∨
        inst.mnemonicId = Mnemonic.movn then emitCopy inst va
    else emitBinaryOf binaryKinds inst va).Addresses control.semantics.pcRel.originalTarget := by
    split
    · exact h.address
    split
    · exact h.copy
    · exact h.binaryOf (by decide)
  generalize (if (inst.mnemonicId = Mnemonic.adr ∨ inst.mnemonicId = Mnemonic.adrp ∨
      control.semantics.pcRel.isAddressMaterialization) ∧ findDestinationOperand inst ≠ none then
      emitAddress inst (valueImmediate control.semantics.pcRel.originalTarget 64) va
    else if inst.mnemonicId = Mnemonic.mov ∨ inst.mnemonicId = Mnemonic.movz ∨
        inst.mnemonicId = Mnemonic.movn then emitCopy inst va
    else emitBinaryOf binaryKinds inst va) = effects at heffects ⊢
  have hextended : (if inst.mnemonicId = Mnemonic.ldrsw ∨ inst.mnemonicId = Mnemonic.ldrsh ∨
      inst.mnemonicId = Mnemonic.ldrsb then emitExtend inst .signExtend effects
      else effects).Addresses control.semantics.pcRel.originalTarget := by
    split
    · exact heffects.extend (by simp)
    · exact heffects
  split
  · exact hextended
  split <;> exact hextended

end

/-! ## The instructions that materialise an address -/

/-- `lea`, `adr` and `adrp`. -/
def Inst.materializesAddress (arch : Arch) (inst : Inst) : Prop :=
  match arch with
  | .x86 => inst.mnemonicId = X86.Mnemonic.lea
  | .arm => inst.mnemonicId = Arm.Mnemonic.adr
  | .aarch64 => inst.mnemonicId = A64.Mnemonic.adr ∨ inst.mnemonicId = A64.Mnemonic.adrp
  | .bpf | .wasm => False

section

variable {inst : Inst} {control : ControlAnalysis} {va : ValueAnalysis}
  (hops : inst.operands ≠ []) (hlen : va.effects.length < maxValueEffects)

include hops hlen

theorem X86.values_hasAddress (h : inst.mnemonicId = Mnemonic.lea) :
    (X86.values inst control va).HasAddress := by
  have hmove : ¬ isMove inst.mnemonicId = true := by
    rw [h]
    decide
  have hva : (if isMove inst.mnemonicId ∧ findMemoryOperand inst ≠ none ∧ va.effects = [] then
      emitMemoryEffect inst va else va) = va := if_neg fun hmoved => hmove hmoved.1
  have heffects : (X86.valueEffects inst control va).HasAddress := by
    simp only [X86.valueEffects, hva]
    rw [if_pos ⟨h, findDestinationOperand_ne_none hops⟩]
    exact hasAddress_emitAddress hlen
  have hother : isCompare inst.mnemonicId = false ∧ setsFlags inst.mnemonicId = false := by
    rw [h]
    decide
  unfold X86.values X86.useCondition X86.defineCondition
  simp only [hother.1, hother.2, Bool.false_eq_true, if_false]
  split <;> exact heffects

theorem Arm.values_hasAddress (h : inst.mnemonicId = Mnemonic.adr) :
    (Arm.values inst control va).HasAddress := by
  have hother : ¬ (inst.mnemonicId = Mnemonic.tbb ∨ inst.mnemonicId = Mnemonic.tbh) ∧
      inst.mnemonicId ≠ Mnemonic.cmp ∧ inst.mnemonicId ≠ Mnemonic.cbz ∧
      inst.mnemonicId ≠ Mnemonic.cbnz := by
    rw [h]
    decide
  obtain ⟨htable, hcmp, hcbz, hcbnz⟩ := hother
  have heffects : (Arm.valueEffects inst control va).HasAddress := by
    simp only [Arm.valueEffects]
    rw [if_neg (fun hbranch => htable hbranch.1),
      if_pos ⟨.inl h, findDestinationOperand_ne_none hops⟩]
    exact hasAddress_emitAddress hlen
  unfold Arm.values Arm.useCondition
  simp only [hcmp, hcbz, hcbnz, if_false]
  split <;> exact heffects

theorem A64.values_hasAddress (h : inst.mnemonicId = Mnemonic.adr ∨ inst.mnemonicId = Mnemonic.adrp) :
    (A64.values inst control va).HasAddress := by
  have haddress : (inst.mnemonicId = Mnemonic.adr ∨ inst.mnemonicId = Mnemonic.adrp ∨
      control.semantics.pcRel.isAddressMaterialization = true) ∧ findDestinationOperand inst ≠ none := by
    refine ⟨?_, findDestinationOperand_ne_none hops⟩
    rcases h with h | h
    · exact .inl h
    · exact .inr (.inl h)
  have hother : ¬ (inst.mnemonicId = Mnemonic.cbz ∨ inst.mnemonicId = Mnemonic.tbz) ∧
      ¬ (inst.mnemonicId = Mnemonic.cbnz ∨ inst.mnemonicId = Mnemonic.tbnz) := by
    rcases h with h | h <;> rw [h] <;> decide
  simp only [A64.values]
  rw [if_neg hother.1, if_neg hother.2, if_pos haddress]
  have hemitted : (emitAddress inst
      (valueImmediate control.semantics.pcRel.originalTarget 64) va).HasAddress :=
    hasAddress_emitAddress hlen
  split
  · exact hemitted.mono subset_emitExtend
  · exact hemitted

end

end AsmKit
