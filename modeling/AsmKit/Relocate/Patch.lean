import AsmKit.Decode.Layout
import AsmKit.Relocate.Bound
import AsmKit.Relocate.Plan

/-!
# The patch size

What `min_patch_size` of the targets promises, against `asmkit_emit_jump` with every clobber
permitted. The planner and the emitters test ranges and modes on their own.
-/

namespace AsmKit

/-- The options that permit every clobber. `preferClobberless` refuses them all the same. -/
def permitAll (mode : BranchMode) : EmitOptions :=
  { mode, allowedClobberMaskLo := BitVec.allOnes 64, allowedClobberMaskHi := BitVec.allOnes 64 }

@[simp] theorem permitAll_mode (mode : BranchMode) : (permitAll mode).mode = mode := rfl

variable {engine : Engine} {mode : BranchMode} {fromAddress toAddress : BitVec 64}
  {result : EmitResult} {status : Status}

/-! ## What a jump comes to -/

theorem scratchRefused_permitAll : ScratchRefused engine (permitAll mode) ↔
    engine.target.arch = .aarch64 ∧ mode = .preferClobberless := by
  have hmask : (permitAll mode).allowedClobberMaskLo &&& A64.x16Mask ≠ 0 := by
    simp only [permitAll]
    decide
  simp only [ScratchRefused, hmask, and_false, or_false]
  rfl

theorem clobbersAllowed_permitAll (hmode : mode ≠ .preferClobberless) :
    emitResultClobbersAllowed (some (permitAll mode)) result = true := by
  rw [emitResultClobbersAllowed_iff]
  simp [Forbids, permitAll, hmode]

theorem jumpForm_permitAll_iff :
    jumpForm engine fromAddress toAddress (permitAll mode) = .ok result ↔
      if relativeUsable engine false fromAddress toAddress mode then
        result = { size := relativeSize engine }
      else mode ≠ .directOnly ∧ absoluteForm engine false = some result ∧
        ¬ (engine.target.arch = .aarch64 ∧ mode = .preferClobberless) := by
  unfold jumpForm
  rw [permitAll_mode]
  split
  · rw [Except.ok.injEq, eq_comm]
  split
  · simp_all
  next hmode =>
  cases habs : absoluteForm engine false with
  | none => simp
  | some form =>
    simp only [scratchRefused_permitAll]
    split <;> simp_all

theorem absoluteForm_clobbers (harch : engine.target.arch ≠ .aarch64)
    (h : absoluteForm engine false = some result) :
    result.clobberMaskLo = 0 ∧ result.clobberMaskHi = 0 := by
  unfold absoluteForm at h
  split at h
  · split at h <;> cases h
    exact ⟨rfl, rfl⟩
  · split at h <;> cases h
    exact ⟨rfl, rfl⟩
  · next h' => exact absurd h' harch
  · cases h
  · cases h

theorem jumpForm_spec {options : EmitOptions}
    (h : jumpForm engine fromAddress toAddress options = .ok result) :
    0 < result.size ∧ result.clobberMaskHi = 0 := by
  rw [jumpForm_eq] at h
  rcases branchForm_cases h with rfl | habs
  · exact ⟨relativeSize_pos, rfl⟩
  · exact (absoluteForm_spec habs).imp_right And.right

theorem clobbersAllowed_of_jumpForm
    (h : jumpForm engine fromAddress toAddress (permitAll mode) = .ok result) :
    emitResultClobbersAllowed (some (permitAll mode)) result = true := by
  by_cases hmode : mode = .preferClobberless
  · have hnone : result.clobberMaskLo = 0 ∧ result.clobberMaskHi = 0 := by
      rw [jumpForm_permitAll_iff] at h
      split at h
      · subst h
        exact ⟨rfl, rfl⟩
      · exact absoluteForm_clobbers (fun harch => h.2.2 ⟨harch, hmode⟩) h.2.1
    exact if_pos hnone
  · exact clobbersAllowed_permitAll hmode

theorem Refuses.emitFinish {emit : Nat → EmitOut} (h : Refuses emit) (options : Option EmitOptions) :
    Refuses fun capacity => AsmKit.emitFinish (emit capacity) options := by
  refine ⟨fun capacity hok => h.status capacity (emitFinish_of_ok hok).2, fun capacity => ?_⟩
  rw [emitFinish_code]
  exact h.stored capacity

variable (engine mode fromAddress toAddress) in
theorem emitJump_permitAll :
    (∀ result, jumpForm engine fromAddress toAddress (permitAll mode) = .ok result →
      ∃ code, Emits (emitJump engine fromAddress toAddress (some (permitAll mode))) result code) ∧
    (∀ status, jumpForm engine fromAddress toAddress (permitAll mode) = .error status →
      Refuses (emitJump engine fromAddress toAddress (some (permitAll mode)))) := by
  by_cases hnative : engine.target.arch ≠ .bpf ∧ engine.target.arch ≠ .wasm
  · have htarget : ComesTo 0 (emitTarget engine false fromAddress toAddress (some (permitAll mode)))
        (jumpForm engine fromAddress toAddress (permitAll mode)) := by
      rw [jumpForm_eq]
      exact emitTarget_comesTo hnative.1 hnative.2
    constructor
    · intro result hform
      have hallowed := clobbersAllowed_of_jumpForm hform
      rw [hform] at htarget
      obtain ⟨code, hlength, hemit⟩ := htarget
      refine ⟨code, hlength, fun capacity => ?_⟩
      rw [emitJump_eq, emitFinish, hemit, emitBytes_result, if_neg (by simp [hallowed])]
    · intro status hform
      rw [hform] at htarget
      exact htarget.1.emitFinish _
  · unfold emitJump
    cases harch : engine.target.arch with
    | x86 | arm | aarch64 => exact absurd ⟨by simp [harch], by simp [harch]⟩ hnative
    | bpf | wasm =>
      refine ⟨fun result hform => ?_, fun _ _ => (refuses_status (by decide)).emitFinish _⟩
      simp [jumpForm_permitAll_iff, relativeUsable, relativeInRange, absoluteForm, harch] at hform

/-! ## The patch size -/

/-- The size and the low clobber mask of a form. -/
def patchOf : Except Status EmitResult → Nat × BitVec 64
  | .ok result => (result.size, result.clobberMaskLo)
  | .error _ => (0, 0)

theorem X86.minPatch_eq (harch : engine.target.arch = .x86) :
    (minPatch engine fromAddress toAddress mode, 0) =
      patchOf (jumpForm engine fromAddress toAddress (permitAll mode)) := by
  have hscratch : ¬ ScratchRefused engine (permitAll mode) := by simp [scratchRefused_permitAll, harch]
  unfold minPatch jumpForm relativeUsable relativeInRange relativeSize absoluteForm
  simp only [harch, Bool.and_eq_true, bne_iff_ne, if_neg hscratch, permitAll_mode]
  split
  · rfl
  split
  · rfl
  split <;> rfl

theorem Arm.minPatch_eq (harch : engine.target.arch = .arm) :
    (minPatch engine fromAddress toAddress mode, 0) =
      patchOf (jumpForm engine fromAddress toAddress (permitAll mode)) := by
  have hscratch : ¬ ScratchRefused engine (permitAll mode) := by simp [scratchRefused_permitAll, harch]
  unfold minPatch jumpForm relativeUsable relativeInRange relativeSize absoluteForm
  simp only [harch, Bool.and_eq_true, bne_iff_ne, if_neg hscratch, permitAll_mode]
  by_cases hmode : engine.config.mode = .armA32
  · simp only [if_pos hmode]
    split
    · rfl
    split <;> rfl
  · simp only [if_neg hmode, Bool.not_false, Bool.true_and]
    split
    · rfl
    split <;> rfl

theorem A64.minPatch_eq (harch : engine.target.arch = .aarch64) :
    minPatch fromAddress toAddress mode =
      patchOf (jumpForm engine fromAddress toAddress (permitAll mode)) := by
  unfold minPatch jumpForm relativeUsable relativeInRange relativeSize absoluteForm
  simp only [harch, Bool.and_eq_true, bne_iff_ne, scratchRefused_permitAll, true_and, permitAll_mode]
  split
  · rfl
  by_cases hdirect : mode = .directOnly
  · simp only [hdirect, true_or, if_true]
    rfl
  · simp only [hdirect, false_or, if_false]
    split <;> rfl

theorem minPatchSize_eq : minPatchSize engine fromAddress toAddress mode =
    patchOf (jumpForm engine fromAddress toAddress (permitAll mode)) := by
  unfold minPatchSize
  cases harch : engine.target.arch with
  | x86 => exact X86.minPatch_eq harch
  | arm => exact Arm.minPatch_eq harch
  | aarch64 => exact A64.minPatch_eq harch
  | bpf | wasm =>
    unfold jumpForm relativeUsable relativeInRange absoluteForm
    simp only [harch, Bool.and_false, Bool.false_eq_true, if_false, ite_self]
    rfl

/-- What the patch size says of the jump between two addresses. -/
structure PatchAgrees (engine : Engine) (mode : BranchMode) (fromAddress toAddress : BitVec 64) :
    Prop where
  emitted : (minPatchSize engine fromAddress toAddress mode).1 ≠ 0 → ∀ capacity,
    (minPatchSize engine fromAddress toAddress mode).1 ≤ capacity →
      let out := emitJump engine fromAddress toAddress (some (permitAll mode)) capacity
      out.status = .ok ∧ out.result.size = (minPatchSize engine fromAddress toAddress mode).1 ∧
        out.code.length = out.result.size ∧
        out.result.clobberMaskLo = (minPatchSize engine fromAddress toAddress mode).2 ∧
        out.result.clobberMaskHi = 0
  refused : (minPatchSize engine fromAddress toAddress mode).1 = 0 → ∀ capacity,
    (emitJump engine fromAddress toAddress (some (permitAll mode)) capacity).status ≠ .ok

theorem patchAgrees : PatchAgrees engine mode fromAddress toAddress := by
  obtain ⟨hok, herror⟩ :=
    emitJump_permitAll engine mode fromAddress toAddress
  cases hform : jumpForm engine fromAddress toAddress (permitAll mode) with
  | ok result =>
    have hpatch : minPatchSize engine fromAddress toAddress mode =
        (result.size, result.clobberMaskLo) := by rw [minPatchSize_eq, hform, patchOf]
    obtain ⟨code, hemits⟩ := hok result hform
    obtain ⟨hpos, hhi⟩ := jumpForm_spec hform
    constructor
    · intro _ capacity hroom
      rw [hpatch] at hroom ⊢
      simp only [hemits.eq, emitBytes_ok hroom]
      exact ⟨trivial, trivial, hemits.length, trivial, hhi⟩
    · rw [hpatch]
      intro hzero
      simp only at hzero
      omega
  | error status =>
    have hpatch : minPatchSize engine fromAddress toAddress mode = (0, 0) := by
      rw [minPatchSize_eq, hform, patchOf]
    constructor
    · rw [hpatch]
      exact fun h => absurd rfl h
    · exact fun _ => (herror status hform).status

/-! ## The plan of a detour -/

section

variable {tables : Tables} {code : List Byte} {address replacementAddress : BitVec 64}
  {options : Option DetourPlanOptions} {priors : Nat → Inst} {plan : DetourPlan}

/-- The entry jump takes the patch size, and the patch whole instructions of the code. -/
structure EntryFits (tables : Tables) (engine : Engine) (code : List Byte)
    (address replacementAddress : BitVec 64) (options : Option DetourPlanOptions)
    (priors : Nat → Inst) (plan : DetourPlan) : Prop where
  emitted : ∀ capacity, plan.patchSize ≤ capacity →
    let out := emitJump engine address replacementAddress
      (some (permitAll (planBranchMode options))) capacity
    out.status = .ok ∧ out.result.size = plan.patchSize ∧ out.code.length = plan.patchSize
  overwritten : plan.patchSize ≤ plan.minOverwriteSize
  inside : plan.minOverwriteSize ≤ code.length
  whole : ∃ block, Decoded tables engine code address priors block ∧
    block.totalSize = plan.minOverwriteSize

theorem DetourPlan.addAll_patchSize {insts : List Inst} :
    (plan.addAll engine insts).patchSize = plan.patchSize := by
  unfold addAll
  induction insts generalizing plan with
  | nil => rfl
  | cons inst insts ih => exact ih

theorem planDetour_patchSize
    (h : planDetour tables engine code address replacementAddress options priors = .ok plan) :
    plan.patchSize =
      (minPatchSize engine address replacementAddress (planBranchMode options)).1 := by
  unfold planDetour at h
  simp only at h
  split at h
  · cases h
  split at h
  · cases h
  split at h
  · cases h
  split at h
  · cases h
  rw [planInsts_eq] at h
  split at h
  · cases h
  cases h
  exact DetourPlan.addAll_patchSize

theorem entryFits_of_planDetour
    (h : planDetour tables engine code address replacementAddress options priors = .ok plan) :
    EntryFits tables engine code address replacementAddress options priors plan := by
  obtain ⟨block, jumpBack, hplanned⟩ := planDetour_of_ok h
  obtain ⟨hdecoded, -, hminimum⟩ := decodeBlockUntil_decoded hplanned.decoded
  have hpatch := planDetour_patchSize h
  have hoverwrite := hplanned.overwrite
  have hle : plan.patchSize ≤ minOverwrite options
      (minPatchSize engine address replacementAddress (planBranchMode options)).1 := by
    rw [hpatch]
    exact le_max_left _ _
  refine ⟨fun capacity hroom => ?_, ?_, ?_, block, hdecoded, hoverwrite.symm⟩
  · rw [hpatch] at hroom ⊢
    obtain ⟨hok, hsize, hlength, -, -⟩ := patchAgrees.emitted hplanned.patch capacity hroom
    exact ⟨hok, hsize, hlength.trans hsize⟩
  · rw [hoverwrite]
    exact hle.trans hminimum
  · rw [hoverwrite]
    exact hdecoded.totalSize_le

end

end AsmKit
