import AsmKit.Relocate.Prologue

/-!
# What a plan is made of

The plan of a detour comes from a block whose instructions are all accepted, each with its bound,
and from a jump back. No analysis announces a register.
-/

namespace AsmKit

/-- What the analysis of the target says. -/
def semanticsOf (engine : Engine) (inst : Inst) : InstSemantics :=
  match engine.target.arch with
  | .x86 => X86.analyze inst
  | .arm => Arm.analyze inst
  | .aarch64 => A64.analyze inst
  | .bpf => Bpf.analyze inst
  | .wasm => Wasm.analyze inst

/-- The analysis rules a relocation out. -/
def Rejected (engine : Engine) (inst : Inst) : Prop := (semanticsOf engine inst).relocKind = .reject

instance (engine : Engine) (inst : Inst) : Decidable (Rejected engine inst) :=
  inferInstanceAs (Decidable (_ = _))

/-- The bytes a plan sets aside for an instruction. -/
def planBound (engine : Engine) (inst : Inst) : Nat := (semanticsOf engine inst).bound inst

variable {engine : Engine} {inst : Inst} {insts : List Inst} {plan plan' : DetourPlan}

theorem analyzeInst_eq : analyzeInst engine inst = .ok (semanticsOf engine inst) := by
  unfold analyzeInst semanticsOf
  cases engine.target.arch <;> rfl

theorem X86.analyze_clobbers :
    (X86.analyze inst).clobberMaskLo = 0 ∧ (X86.analyze inst).clobberMaskHi = 0 := by
  unfold X86.analyze
  simp only
  split
  · exact ⟨rfl, rfl⟩
  split <;> exact ⟨rfl, rfl⟩

theorem Arm.analyze_clobbers :
    (Arm.analyze inst).clobberMaskLo = 0 ∧ (Arm.analyze inst).clobberMaskHi = 0 := by
  unfold Arm.analyze
  simp only
  split <;> exact ⟨rfl, rfl⟩

theorem A64.analyze_clobbers :
    (A64.analyze inst).clobberMaskLo = 0 ∧ (A64.analyze inst).clobberMaskHi = 0 := by
  unfold A64.analyze
  simp only
  split
  · exact ⟨rfl, rfl⟩
  split <;> exact ⟨rfl, rfl⟩

theorem semanticsOf_clobbers :
    (semanticsOf engine inst).clobberMaskLo = 0 ∧ (semanticsOf engine inst).clobberMaskHi = 0 := by
  unfold semanticsOf
  split
  · exact X86.analyze_clobbers
  · exact Arm.analyze_clobbers
  · exact A64.analyze_clobbers
  · exact ⟨rfl, rfl⟩
  · exact ⟨rfl, rfl⟩

/-! ## The loop -/

/-- The plan with the instructions added. -/
def DetourPlan.addAll (engine : Engine) (plan : DetourPlan) (insts : List Inst) : DetourPlan :=
  insts.foldl (fun plan inst => plan.add inst (semanticsOf engine inst)) plan

theorem planInsts_eq : planInsts engine insts plan =
    if ∃ inst ∈ insts, Rejected engine inst then .error .unsupportedRelocation
    else .ok (plan.addAll engine insts) := by
  induction insts generalizing plan with
  | nil => simp [planInsts, DetourPlan.addAll]
  | cons inst insts ih =>
    rw [planInsts, analyzeInst_eq]
    by_cases hreject : Rejected engine inst
    · rw [if_pos ⟨inst, List.mem_cons_self, hreject⟩]
      exact if_pos hreject
    · refine (if_neg hreject).trans ?_
      rw [ih]
      simp only [List.mem_cons, exists_eq_or_imp, hreject, false_or]
      rfl

theorem DetourPlan.addAll_minOverwriteSize :
    (plan.addAll engine insts).minOverwriteSize = plan.minOverwriteSize := by
  unfold addAll
  induction insts generalizing plan with
  | nil => rfl
  | cons inst insts ih => exact ih

theorem DetourPlan.addAll_trampolineMinSize : (plan.addAll engine insts).trampolineMinSize =
    plan.trampolineMinSize + (insts.map (planBound engine)).sum := by
  unfold addAll
  induction insts generalizing plan with
  | nil => rfl
  | cons inst insts ih =>
    rw [List.foldl_cons, ih, List.map_cons, List.sum_cons, ← add_assoc]
    rfl

theorem DetourPlan.addAll_clobbers : (plan.addAll engine insts).clobberMaskLo = plan.clobberMaskLo ∧
    (plan.addAll engine insts).clobberMaskHi = plan.clobberMaskHi := by
  unfold addAll
  induction insts generalizing plan with
  | nil => exact ⟨rfl, rfl⟩
  | cons inst insts ih =>
    obtain ⟨hlo, hhi⟩ : (semanticsOf engine inst).clobberMaskLo = 0 ∧
        (semanticsOf engine inst).clobberMaskHi = 0 := semanticsOf_clobbers
    rw [List.foldl_cons, ih.1, ih.2, DetourPlan.add, hlo, hhi]
    exact ⟨BitVec.or_zero, BitVec.or_zero⟩

/-! ## The plan -/

section

variable (tables : Tables) (engine : Engine) (code : List Byte) (address replacementAddress : BitVec 64)
  (options : Option DetourPlanOptions) (priors : Nat → Inst)

/-- The block a plan looks at. -/
def planBlock : Except Status Block :=
  decodeBlockUntil tables engine code address
    (minOverwrite options (minPatchSize engine address replacementAddress (planBranchMode options)).1)
    maxBlockInstructions priors

/-- What a plan is made of. -/
structure Planned (plan : DetourPlan) (block : Block) (jumpBack : BranchPlanBound) : Prop where
  native : isNative engine = true
  patch : (minPatchSize engine address replacementAddress (planBranchMode options)).1 ≠ 0
  bound : planJumpBack engine (planBranchMode options) = .ok jumpBack
  decoded : planBlock tables engine code address replacementAddress options priors = .ok block
  accepted : ∀ inst ∈ block.insts, ¬ Rejected engine inst
  overwrite : plan.minOverwriteSize = block.totalSize
  size : plan.trampolineMinSize = (block.insts.map (planBound engine)).sum + jumpBack.size
  clobberLo : plan.clobberMaskLo =
    (minPatchSize engine address replacementAddress (planBranchMode options)).2 ||| jumpBack.clobberMaskLo
  clobberHi : plan.clobberMaskHi = jumpBack.clobberMaskHi

end

variable {tables : Tables} {code : List Byte} {address replacementAddress : BitVec 64}
  {options : Option DetourPlanOptions} {priors : Nat → Inst}

theorem planDetour_of_ok
    (h : planDetour tables engine code address replacementAddress options priors = .ok plan) :
    ∃ block jumpBack,
      Planned tables engine code address replacementAddress options priors plan block jumpBack := by
  unfold planDetour at h
  simp only at h
  split at h
  · cases h
  next hnative =>
  split at h
  · cases h
  next hpatch =>
  split at h
  · cases h
  next jumpBack hbound =>
  split at h
  · cases h
  next block hblock =>
  rw [planInsts_eq] at h
  split at h
  · cases h
  next hreject =>
  cases h
  refine ⟨block, jumpBack, not_not.1 hnative, hpatch, hbound, hblock,
    fun inst hinst hrejected => hreject ⟨inst, hinst, hrejected⟩, DetourPlan.addAll_minOverwriteSize, ?_,
    DetourPlan.addAll_clobbers.1, DetourPlan.addAll_clobbers.2⟩
  dsimp only
  rw [DetourPlan.addAll_trampolineMinSize, Nat.zero_add]

end AsmKit
