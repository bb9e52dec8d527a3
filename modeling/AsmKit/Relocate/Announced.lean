import AsmKit.Encode.Transfer
import AsmKit.Relocate.Permission
import AsmKit.Relocate.Placed

/-!
# Which clobbers a plan announces

A plan announces the scratch register of AArch64 for the entry patch and for the jump back. A
relocation uses a scratch register also where an instruction grows, which no plan announces.
-/

namespace AsmKit

open Labelled

/-! ## Scratch registers -/

/-- The instruction is relocated to a sequence that goes by way of a register. -/
def A64.usesScratch (engine : Engine) (inst : Inst) (address : BitVec 64) : Bool :=
  match findPcRelOperand inst with
  | none => false
  | some operand =>
    if isUnconditionalPcBranchOrCall inst then
      !relativeInRange engine (isCall inst) address (operandTarget inst operand)
    else
      match relocDisp inst (operandTarget inst operand) address with
      | none => false
      | some disp =>
        inst.has InstFlag.pcRelative && isConditionalPcBranch inst && decide (outOfReach inst disp)

def Arm.usesScratch (engine : Engine) (inst : Inst) (address : BitVec 64) : Bool :=
  inst.instClass == .directCall && engine.config.mode == .armA32 &&
    !relativeInRange engine true address inst.operand0.absTarget

/-- The instruction is out of reach of its target there, and is expanded. -/
def usesScratch (engine : Engine) (inst : Inst) (address : BitVec 64) : Bool :=
  match engine.target.arch with
  | .arm => Arm.usesScratch engine inst address
  | .aarch64 => A64.usesScratch engine inst address
  | .x86 | .bpf | .wasm => false

def scratchMask (engine : Engine) : BitVec 64 :=
  if engine.target.arch = .aarch64 then A64.x16Mask else Arm.ipMask

variable {engine : Engine} {inst : Inst} {address : BitVec 64} {result : EmitResult}

theorem directForm_result {isCall : Bool} {toAddress : BitVec 64}
    (h : directForm engine isCall address toAddress = .ok result) :
    (relativeInRange engine isCall address toAddress = true ∧ result = { size := relativeSize engine }) ∨
      (relativeInRange engine isCall address toAddress = false ∧
        absoluteForm engine isCall = some result) := by
  unfold directForm at h
  split at h
  · next hrange =>
    cases h
    exact .inl ⟨hrange, rfl⟩
  next hrange =>
  split at h
  · next habs =>
    cases h
    exact .inr ⟨eq_false_of_ne_true hrange, habs⟩
  · cases h

theorem X86.form_clobbers (harch : engine.target.arch = .x86)
    (h : X86.form engine inst address = .ok result) :
    result.clobberMaskLo = 0 ∧ result.clobberMaskHi = 0 := by
  unfold X86.form X86.condForm X86.ripForm at h
  split at h
  · split at h
    · cases h
    split at h
    · split at h
      · cases h
      split at h
      · split at h
        · cases h
          exact ⟨rfl, rfl⟩
        split at h
        · cases h
          exact ⟨rfl, rfl⟩
        · cases h
      · cases h
    · rcases directForm_result h with ⟨-, rfl⟩ | ⟨-, habs⟩
      · exact ⟨rfl, rfl⟩
      · rw [absoluteForm, harch] at habs
        simp only at habs
        split at habs
        · cases habs
          exact ⟨rfl, rfl⟩
        · cases habs
  split at h
  · split at h
    · split at h
      · cases h
        exact ⟨rfl, rfl⟩
      · cases h
    · cases h
  · cases h
    exact ⟨rfl, rfl⟩

theorem Arm.form_clobbers (harch : engine.target.arch = .arm)
    (h : Arm.form engine inst address = .ok result) :
    result.clobberMaskLo = (bif Arm.usesScratch engine inst address then ipMask else 0) ∧
      result.clobberMaskHi = 0 := by
  unfold Arm.form at h
  unfold Arm.usesScratch
  split at h
  · cases h
  split at h
  · next hdirect =>
    rcases directForm_result h with ⟨hrange, rfl⟩ | ⟨hrange, habs⟩
    · by_cases hcall : inst.instClass = .directCall
      · simp only [hcall, beq_self_eq_true] at hrange ⊢
        simp [hrange]
      · simp [beq_eq_false_iff_ne.2 hcall]
    · rw [absoluteForm, harch] at habs
      simp only at habs
      split at habs
      · next hmode =>
        cases habs
        rcases hdirect with hclass | hclass
        · have hcall : (inst.instClass == InstClass.directCall) = false := by rw [hclass]; rfl
          simp [absResultA32, hcall]
        · simp only [hclass, beq_self_eq_true] at hrange ⊢
          simp [absResultA32, hmode, hrange]
      · cases habs
  next hdirect =>
  split at h
  · cases h
  · cases h
    have hcall : ¬ inst.instClass = .directCall := fun hcall => hdirect (.inr hcall)
    simp [beq_eq_false_iff_ne.2 hcall]

theorem A64.form_clobbers (harch : engine.target.arch = .aarch64)
    (h : A64.form engine inst address = .ok result) :
    result.clobberMaskLo = (bif A64.usesScratch engine inst address then x16Mask else 0) ∧
      result.clobberMaskHi = 0 := by
  unfold A64.form A64.pcRelForm at h
  unfold A64.usesScratch
  cases hpc : findPcRelOperand inst with
  | none =>
    simp only [hpc] at h ⊢
    split at h
    · cases h
    · cases h
      exact ⟨rfl, rfl⟩
  | some operand =>
    simp only [hpc] at h ⊢
    split at h
    · next hdirect =>
      simp only [if_pos hdirect]
      rcases directForm_result h with ⟨hrange, rfl⟩ | ⟨hrange, habs⟩
      · rw [hrange]
        exact ⟨rfl, rfl⟩
      · rw [absoluteForm, harch] at habs
        cases habs
        rw [hrange]
        exact ⟨rfl, rfl⟩
    next hdirect =>
    simp only [if_neg hdirect]
    split at h
    · next hflag =>
      cases hdisp : relocDisp inst (operandTarget inst operand) address with
      | none =>
        rw [hdisp] at h
        cases h
      | some disp =>
        simp only [hdisp] at h ⊢
        split at h
        · next hreach =>
          split at h
          · next hcond =>
            cases h
            simp [hflag, hcond, hreach]
          · cases h
        next hreach =>
        split at h
        · cases h
          simp [hreach]
        · cases h
    · next hflag =>
      cases h
      cases relocDisp inst (operandTarget inst operand) address <;> simp [hflag]

theorem relocForm_clobbers (h : relocForm engine inst address = .ok result) :
    result.clobberMaskLo = (bif usesScratch engine inst address then scratchMask engine else 0) ∧
      result.clobberMaskHi = 0 := by
  unfold relocForm at h
  unfold usesScratch scratchMask
  cases harch : engine.target.arch with
  | x86 =>
    rw [harch] at h
    exact X86.form_clobbers harch h
  | arm =>
    rw [harch] at h
    exact Arm.form_clobbers harch h
  | aarch64 =>
    rw [harch] at h
    exact A64.form_clobbers harch h
  | bpf | wasm =>
    rw [harch] at h
    cases h

/-! ## What a plan announces -/

/-- The register a plan announces for its entry patch and its jump back. -/
def announcedMask (engine : Engine) (mode : BranchMode) : BitVec 64 :=
  if engine.target.arch = .aarch64 ∧ mode ≠ .directOnly ∧ mode ≠ .preferClobberless then A64.x16Mask
  else 0

theorem minPatchSize_clobbers {toAddress : BitVec 64} {mode : BranchMode} :
    (minPatchSize engine address toAddress mode).2 = 0 ∨
      (minPatchSize engine address toAddress mode).2 = announcedMask engine mode := by
  unfold minPatchSize announcedMask
  cases engine.target.arch with
  | aarch64 =>
    simp only [true_and, A64.minPatch]
    split
    · exact .inl rfl
    split
    · exact .inl rfl
    · next hmode => exact .inr (if_pos (not_or.1 hmode)).symm
  | x86 | arm | bpf | wasm => exact .inl rfl

/-- What a plan announces does not depend on its block. -/
theorem planDetour_clobbers {tables : Tables} {code : List Byte} {replacementAddress : BitVec 64}
    {options : Option DetourPlanOptions} {priors : Nat → Inst} {plan : DetourPlan}
    (h : planDetour tables engine code address replacementAddress options priors = .ok plan) :
    plan.clobberMaskLo = announcedMask engine (planBranchMode options) ∧ plan.clobberMaskHi = 0 := by
  obtain ⟨block, jumpBack, hplanned⟩ := planDetour_of_ok h
  have hbound := planJumpBack_boundOf hplanned.bound
  rw [hplanned.clobberLo, hplanned.clobberHi]
  refine ⟨?_, hbound.clobberHi⟩
  have hlo : jumpBack.clobberMaskLo = announcedMask engine (planBranchMode options) := hbound.clobberLo
  have hpatch : (minPatchSize engine address replacementAddress (planBranchMode options)).2 = 0 ∨ _ :=
    minPatchSize_clobbers
  rw [hlo]
  rcases hpatch with hpatch | hpatch
  · rw [hpatch]
    exact BitVec.zero_or
  · rw [hpatch, BitVec.or_self]

/-! ## The jump back -/

variable {fromAddress toAddress : BitVec 64} {options : EmitOptions} {capacity : Nat}

/-- The options permit just what a plan announces. -/
structure EmitOptions.Granted (engine : Engine) (options : EmitOptions) : Prop where
  lo : options.allowedClobberMaskLo = announcedMask engine options.mode
  hi : options.allowedClobberMaskHi = 0

theorem absoluteForm_jump (h : absoluteForm engine false = some result) :
    (result.clobberMaskLo = 0 ∨
      engine.target.arch = .aarch64 ∧ result.clobberMaskLo = A64.x16Mask) ∧
    result.clobberMaskHi = 0 := by
  unfold absoluteForm at h
  cases harch : engine.target.arch with
  | x86 | arm =>
    rw [harch] at h
    simp only at h
    split at h
    · cases h
      exact ⟨.inl rfl, rfl⟩
    · cases h
  | aarch64 =>
    rw [harch] at h
    cases h
    exact ⟨.inr ⟨rfl, rfl⟩, rfl⟩
  | bpf | wasm =>
    rw [harch] at h
    cases h

theorem emitJump_announced (hbpf : engine.target.arch ≠ .bpf) (hwasm : engine.target.arch ≠ .wasm)
    (hok : (emitJump engine fromAddress toAddress (some options) capacity).status = .ok) :
    ((emitJump engine fromAddress toAddress (some options) capacity).result.clobberMaskLo = 0 ∨
      (emitJump engine fromAddress toAddress (some options) capacity).result.clobberMaskLo =
        announcedMask engine options.mode) ∧
    (emitJump engine fromAddress toAddress (some options) capacity).result.clobberMaskHi = 0 := by
  have hsteady : Steady (emitJump engine fromAddress toAddress (some options)) := emitJump_steady
  have hroom := hsteady.eq_of_ok hok (le_max_left _ 16)
  have houtcome : Outcome engine false fromAddress toAddress (some options)
      (emitJump engine fromAddress toAddress (some options) capacity) :=
    hroom ▸ emitTransfer_outcome hbpf hwasm (le_max_right _ 16) .jump
  cases houtcome with
  | relative _ _ hresult =>
    rw [hresult]
    exact ⟨.inl rfl, rfl⟩
  | outOfRange _ _ hstatus =>
    rw [hok] at hstatus
    cases hstatus
  | forbidden _ _ _ _ _ _ _ hstatus =>
    rw [hok] at hstatus
    cases hstatus
  | absolute _ hdirect habs hallowed _ =>
    obtain ⟨hlo, hhi⟩ := absoluteForm_jump habs
    refine ⟨?_, hhi⟩
    rcases hlo with hlo | ⟨harch, hlo⟩
    · exact .inl hlo
    by_cases hmode : options.mode = .preferClobberless
    · exact .inl (not_not.1 fun hlo => hallowed options rfl (.inl ⟨hmode, .inl hlo⟩))
    · exact .inr (hlo.trans (if_pos ⟨harch, hdirect, hmode⟩).symm)

theorem A64.emitJump_directOnly (harch : engine.target.arch = .aarch64)
    (hmode : options.mode = .directOnly) :
    (AsmKit.emitJump engine fromAddress toAddress (some options) capacity).status ≠ .forbiddenClobber := by
  have hmode : emitMode (some options) = .directOnly := hmode
  unfold AsmKit.emitJump
  rw [harch]
  simp only [A64.emitJump, A64.emitAny_eq, hmode, if_true]
  by_cases hfits : i64FitsI26Words4 (relDisp fromAddress toAddress) = true
  · rw [if_pos ⟨by decide, hfits⟩]
    have hallowed : emitResultClobbersAllowed (some options) { size := 4 } = true := if_pos ⟨rfl, rfl⟩
    rw [emitFinish, emitBytes_result, if_neg fun h => h.2 hallowed]
    exact emitBytes_ne_forbidden
  · rw [if_neg fun h => hfits h.2, emitFinish, if_neg fun h => by cases h.1]
    intro h
    cases h

theorem A64.emitJump_refused (harch : engine.target.arch = .aarch64)
    (hmode : options.mode = .preferClobberless)
    (hrange : relativeInRange engine false fromAddress toAddress = false) :
    (AsmKit.emitJump engine fromAddress toAddress (some options) capacity).status = .forbiddenClobber := by
  rw [relativeInRange, harch] at hrange
  have hmode : emitMode (some options) = .preferClobberless := hmode
  unfold AsmKit.emitJump
  rw [harch]
  simp only [A64.emitJump, A64.emitAny_eq]
  rw [if_neg (fun h => by simp [hrange] at h), if_neg (by simp [hmode]), if_pos (.inl hmode)]
  exact congrArg EmitOut.status (if_neg fun h => by cases h.1)

theorem emitJump_granted (hgranted : options.Granted engine) :
    (emitJump engine fromAddress toAddress (some options) capacity).status = .forbiddenClobber ↔
      engine.target.arch = .aarch64 ∧ options.mode = .preferClobberless ∧
        relativeInRange engine false fromAddress toAddress = false := by
  constructor
  · intro hstatus
    have hpermitted : Permitted engine false fromAddress toAddress options
      (emitJump engine fromAddress toAddress (some options) capacity) := emitJump_permitted
    obtain ⟨hrel, result, habs, hforbids⟩ := hpermitted.complete hstatus
    obtain ⟨hlo | ⟨harch, hlo⟩, hhi⟩ := absoluteForm_jump habs
    · exact absurd hforbids (not_forbids hlo hhi)
    have hdirect : options.mode ≠ .directOnly :=
      fun hmode => A64.emitJump_directOnly harch hmode hstatus
    have hprefer : options.mode = .preferClobberless := by
      by_contra hprefer
      have hmask : options.allowedClobberMaskLo = A64.x16Mask :=
        hgranted.lo.trans (if_pos ⟨harch, hdirect, hprefer⟩)
      rcases hforbids with ⟨hmode, -⟩ | hforbids | hforbids
      · exact hprefer hmode
      · rw [hlo, hmask] at hforbids
        exact hforbids (by decide)
      · rw [hhi] at hforbids
        exact hforbids BitVec.zero_and
    refine ⟨harch, hprefer, ?_⟩
    rw [relativeUsable, hprefer] at hrel
    exact hrel
  · rintro ⟨harch, hmode, hrange⟩
    exact A64.emitJump_refused harch hmode hrange

/-! ## A relocation with the clobbers of its plan -/

section

variable (engine : Engine) (options : RelocateOptions) (insts : List Inst) (address : BitVec 64)
  (room : Nat)

/-- Every register that the relocated instructions use is announced. -/
def Announced : Prop :=
  (engine.target.arch = .aarch64 ∧ options.jumpBackMode ≠ .directOnly ∧
      options.jumpBackMode ≠ .preferClobberless) ∨
    ∀ p ∈ placed engine insts address room, usesScratch engine p.1 p.2 = false

/-- The jump back is out of range, and is to use no register whatever is permitted. -/
def JumpBackRefused : Prop :=
  engine.target.arch = .aarch64 ∧ options.jumpBackMode = .preferClobberless ∧
    ∃ size, placedSize engine insts address room = some size ∧
      relativeInRange engine false (address + BitVec.ofNat 64 size) options.continuationAddress = false

end

/-- The options with just the clobbers of the plan permitted. -/
def RelocateOptions.grant (options : RelocateOptions) (plan : DetourPlan) : RelocateOptions :=
  { options with
    allowedClobberMaskLo := plan.clobberMaskLo, allowedClobberMaskHi := plan.clobberMaskHi }

variable {relocateOptions granted : RelocateOptions} {insts : List Inst} {room : Nat}

/-- The options of a relocation permit just what a plan announces. -/
structure RelocateOptions.Granted (engine : Engine) (options : RelocateOptions) : Prop where
  lo : options.allowedClobberMaskLo = announcedMask engine options.jumpBackMode
  hi : options.allowedClobberMaskHi = 0

theorem RelocateOptions.Granted.jumpOptions (h : granted.Granted engine) :
    granted.jumpOptions.Granted engine := ⟨h.lo, h.hi⟩

theorem formForbidden_granted (h : granted.Granted engine) {p : Inst × BitVec 64}
    (hform : relocForm engine p.1 p.2 = .ok result) :
    FormForbidden engine granted p ↔ usesScratch engine p.1 p.2 = true ∧
      ¬ (engine.target.arch = .aarch64 ∧ granted.jumpBackMode ≠ .directOnly ∧
        granted.jumpBackMode ≠ .preferClobberless) := by
  obtain ⟨hlo, hhi⟩ := relocForm_clobbers hform
  have hforbidden : FormForbidden engine granted p ↔ clobbersForbidden granted result = true := by
    refine ⟨?_, fun hforbidden => ⟨result, hform, hforbidden⟩⟩
    rintro ⟨result', hform', hforbidden⟩
    cases hform.symm.trans hform'
    exact hforbidden
  rw [hforbidden, clobbersForbidden, hlo, hhi, h.lo, h.hi, announcedMask, scratchMask]
  cases usesScratch engine p.1 p.2 with
  | false => simp
  | true =>
    by_cases hannounces : engine.target.arch = .aarch64 ∧ granted.jumpBackMode ≠ .directOnly ∧
        granted.jumpBackMode ≠ .preferClobberless
    · rw [if_pos hannounces, if_pos hannounces.1]
      exact iff_of_false (by decide) fun hand => hand.2 hannounces
    · rw [if_neg hannounces]
      exact iff_of_true (by split <;> decide) ⟨rfl, hannounces⟩

theorem announced_iff (h : granted.Granted engine) : Announced engine granted insts address room ↔
    ∀ p ∈ placed engine insts address room, ¬ FormForbidden engine granted p := by
  constructor
  · rintro (hannounces | hnone) p hp hforbidden
    all_goals
      obtain ⟨result, hform⟩ := placed_form hp
      obtain ⟨huses, hnot⟩ := (formForbidden_granted h hform).1 hforbidden
    · exact hnot hannounces
    · rw [hnone p hp] at huses
      cases huses
  · intro hallowed
    by_cases hannounces : engine.target.arch = .aarch64 ∧ granted.jumpBackMode ≠ .directOnly ∧
        granted.jumpBackMode ≠ .preferClobberless
    · exact .inl hannounces
    · refine .inr fun p hp => eq_false_of_ne_true fun huses => hallowed p hp ?_
      obtain ⟨result, hform⟩ := placed_form hp
      exact (formForbidden_granted h hform).2 ⟨huses, hannounces⟩

section

variable {tables : Tables} {code : List Byte} {originalAddress relocatedAddress : BitVec 64}
  {priors : Nat → Inst} {block : Block}

theorem relocatePrologue_of_decoded (hnative : isNative engine = true)
    (hblock : decodeBlockUntil tables engine code originalAddress
      (max relocateOptions.minOverwriteSize 1) maxBlockInstructions priors = .ok block) :
    relocatePrologue tables engine code originalAddress relocatedAddress relocateOptions capacity priors =
      match relocateInsts engine relocateOptions relocatedAddress capacity block.insts {} with
      | .error out => out
      | .ok t =>
        appendJumpBack engine relocateOptions originalAddress relocatedAddress capacity block t := by
  rw [relocatePrologue, if_neg (not_not_intro hnative)]
  generalize decodeBlockUntil tables engine code originalAddress
    (max relocateOptions.minOverwriteSize 1) maxBlockInstructions priors = decoded at hblock ⊢
  subst hblock
  rfl

theorem appendJumpBack_forbidden_iff {t : Trampoline} :
    (appendJumpBack engine relocateOptions originalAddress relocatedAddress capacity block t).status =
        .forbiddenClobber ↔
      (emitJump engine (relocatedAddress + BitVec.ofNat 64 t.offset) relocateOptions.continuationAddress
        (some relocateOptions.jumpOptions) (capacity - t.offset)).status = .forbiddenClobber := by
  unfold appendJumpBack
  simp only
  split
  · rfl
  · next hok =>
    exact iff_of_false nofun (by rw [not_not.1 hok]; nofun)

/-- A relocation with what a plan announces is refused for a register that is not announced, or
for a jump back that is to use none. -/
theorem granted_forbidden_iff (hnative : isNative engine = true) (h : granted.Granted engine)
    (hblock : decodeBlockUntil tables engine code originalAddress (max granted.minOverwriteSize 1)
      maxBlockInstructions priors = .ok block)
    (hinsts : ∀ inst ∈ block.insts, inst.bytes.length = inst.size) :
    (relocatePrologue tables engine code originalAddress relocatedAddress granted capacity
        priors).status ≠ .forbiddenClobber ↔
      Announced engine granted block.insts relocatedAddress capacity ∧
        ¬ JumpBackRefused engine granted block.insts relocatedAddress capacity := by
  obtain ⟨hbpf, hwasm⟩ := isNative_arch hnative
  have houtcome : LoopOutcome engine granted block.insts relocatedAddress capacity 0
      (relocateInsts engine granted relocatedAddress capacity block.insts {}) :=
    relocateInsts_outcome_start hbpf hwasm hinsts
  rw [relocatePrologue_of_decoded hnative hblock, announced_iff h]
  generalize relocateInsts engine granted relocatedAddress capacity block.insts {} = last at houtcome ⊢
  cases houtcome with
  | relocated hallowed hsize hoffset =>
    rw [Nat.zero_add] at hoffset
    simp only
    rw [ne_eq, appendJumpBack_forbidden_iff, emitJump_granted h.jumpOptions, JumpBackRefused, hsize,
      hoffset]
    simp only [Option.some.injEq, exists_eq_left', RelocateOptions.jumpOptions]
    exact ⟨fun hnot => ⟨hallowed, hnot⟩, fun hand => hand.2⟩
  | forbidden hforbidden hstatus =>
    obtain ⟨p, hp, hforbidden⟩ := hforbidden
    exact iff_of_false (not_not_intro hstatus) fun hand => hand.1 p hp hforbidden
  | stopped hallowed hsize hstatus =>
    refine iff_of_true ?_ ⟨hallowed, ?_⟩
    · rcases hstatus with hstatus | ⟨inst, -, start, hform⟩
      · simp only [hstatus]
        nofun
      · exact (refused_status hbpf hwasm (.inr hform)).2
    · rintro ⟨-, -, size, hsome, -⟩
      rw [hsize] at hsome
      cases hsome

/-- Where a relocation succeeds, what it clobbers is announced just where all the registers that the
instructions use are, and then permitting what is announced is enough. -/
theorem announced_of_ok {plan : DetourPlan} (h : (relocateOptions.grant plan).Granted engine)
    (hblock : decodeBlockUntil tables engine code originalAddress
      (max relocateOptions.minOverwriteSize 1) maxBlockInstructions priors = .ok block)
    (hinsts : ∀ inst ∈ block.insts, inst.bytes.length = inst.size)
    (hok : (relocatePrologue tables engine code originalAddress relocatedAddress relocateOptions capacity
      priors).status = .ok)
    (hannounced : Announced engine (relocateOptions.grant plan) block.insts relocatedAddress capacity) :
    (relocatePrologue tables engine code originalAddress relocatedAddress relocateOptions capacity
        priors).result.Permitted (relocateOptions.grant plan) ∧
      ¬ JumpBackRefused engine (relocateOptions.grant plan) block.insts relocatedAddress capacity := by
  obtain ⟨hnative, block', t, hblock', hrun, heq⟩ := relocatePrologue_of_ok hok
  cases hblock.symm.trans hblock'
  obtain ⟨hbpf, hwasm⟩ := isNative_arch hnative
  rw [heq] at hok ⊢
  obtain ⟨hemit, hjump⟩ := appendJumpBack_of_ok hok
  have hallowed := (announced_iff h).1 hannounced
  have hstart : relocatedAddress + BitVec.ofNat 64 (0 : Nat) = relocatedAddress := BitVec.add_zero _
  -- The same run, under the options with the clobbers of the plan.
  have hrun' : Run (Trampoline.Step engine (relocateOptions.grant plan) relocatedAddress capacity) {}
      block.insts t := by
    refine run_of_permitted hbpf hwasm hinsts hrun ?_
    dsimp only
    rwa [hstart, Nat.sub_zero]
  constructor
  · have ht : t.result.Permitted (relocateOptions.grant plan) :=
      permitted_run hrun' ⟨BitVec.zero_and, BitVec.zero_and⟩
    obtain ⟨hlo, hhi⟩ := emitJump_announced hbpf hwasm hemit
    rw [hjump]
    refine ht.addClobbers ?_ ?_
    · rw [h.lo]
      rcases hlo with hlo | hlo
      · rw [hlo]
        exact BitVec.zero_and
      · rw [hlo]
        exact BitVec.and_not_self _
    · rw [hhi]
      exact BitVec.zero_and
  · rintro ⟨harch, hprefer, size, hsize, hrange⟩
    have houtcome : LoopOutcome engine (relocateOptions.grant plan) block.insts relocatedAddress
        capacity 0
        (relocateInsts engine (relocateOptions.grant plan) relocatedAddress capacity block.insts {}) :=
      relocateInsts_outcome_start hbpf hwasm hinsts
    rw [relocateInsts_ok_iff.2 hrun'] at houtcome
    cases houtcome with
    | relocated _ hsize' hoffset =>
      cases hsize.symm.trans hsize'
      rw [hoffset, Nat.zero_add] at hemit
      have hprefer : relocateOptions.jumpOptions.mode = .preferClobberless := hprefer
      cases hemit.symm.trans (A64.emitJump_refused harch hprefer hrange)

/-- The clobbers of a relocation are in its plan, and the plan's clobbers are enough for it, just where
no instruction is expanded by way of a register, or the plan announces the register of AArch64. -/
theorem relocatePrologue_announced_iff {replacementAddress : BitVec 64}
    {planOptions : Option DetourPlanOptions} {planPriors : Nat → Inst} {plan : DetourPlan}
    (hplan : planDetour tables engine code originalAddress replacementAddress planOptions planPriors =
      .ok plan)
    (hmode : relocateOptions.jumpBackMode = planBranchMode planOptions)
    (hblock : decodeBlockUntil tables engine code originalAddress
      (max relocateOptions.minOverwriteSize 1) maxBlockInstructions priors = .ok block)
    (hpriors : ∀ k, (priors k).bytes.length = (priors k).size) :
    ((relocatePrologue tables engine code originalAddress relocatedAddress
        (relocateOptions.grant plan) capacity priors).status ≠ .forbiddenClobber ↔
      Announced engine relocateOptions block.insts relocatedAddress capacity ∧
        ¬ JumpBackRefused engine relocateOptions block.insts relocatedAddress capacity) ∧
    ((relocatePrologue tables engine code originalAddress relocatedAddress relocateOptions capacity
        priors).status = .ok →
      ((relocatePrologue tables engine code originalAddress relocatedAddress relocateOptions capacity
            priors).result.Permitted (relocateOptions.grant plan) ∧
          (relocatePrologue tables engine code originalAddress relocatedAddress
            (relocateOptions.grant plan) capacity priors).status ≠ .forbiddenClobber ↔
        Announced engine relocateOptions block.insts relocatedAddress capacity)) := by
  obtain ⟨plannedBlock, jumpBack, hplanned⟩ := planDetour_of_ok hplan
  have hnative := hplanned.native
  obtain ⟨hbpf, hwasm⟩ := isNative_arch hnative
  obtain ⟨hlo, hhi⟩ := planDetour_clobbers hplan
  have hgranted : (relocateOptions.grant plan).Granted engine := 
    ⟨hlo.trans (by rw [← hmode]; rfl), hhi⟩
  have hinsts := (decodeBlockUntil_decoded hblock).1.bytes_length hbpf hwasm hpriors
  have hforbidden : (relocatePrologue tables engine code originalAddress relocatedAddress
        (relocateOptions.grant plan) capacity priors).status ≠ .forbiddenClobber ↔
      Announced engine relocateOptions block.insts relocatedAddress capacity ∧
        ¬ JumpBackRefused engine relocateOptions block.insts relocatedAddress capacity :=
    granted_forbidden_iff hnative hgranted hblock hinsts
  refine ⟨hforbidden, fun hok => ?_⟩
  rw [hforbidden]
  constructor
  · exact fun hand => hand.2.1
  · intro hannounced
    obtain ⟨hpermitted, hrefused⟩ := announced_of_ok hgranted hblock hinsts hok hannounced
    exact ⟨hpermitted, hannounced, hrefused⟩

end

/-- All of a `bl` of A32 at `0x10000`, with `ip` permitted. -/
def blOptions : RelocateOptions :=
  { minOverwriteSize := 4, continuationAddress := 0x10004, allowedClobberMaskLo := Arm.ipMask }

/-- A `bl` that stays in range. -/
theorem relocatePrologue_announced_bl : ∃ plan,
    planDetour noTables armEngineA32 [0, 0, 0, 0xeb] 0x10000 0x20000 none
      (fun _ => armEngineA32.emptyInst) = .ok plan ∧
    (relocatePrologue noTables armEngineA32 [0, 0, 0, 0xeb] 0x10000 0x20000 blOptions 64
      fun _ => armEngineA32.emptyInst).result.Permitted (blOptions.grant plan) ∧
    (relocatePrologue noTables armEngineA32 [0, 0, 0, 0xeb] 0x10000 0x20000 (blOptions.grant plan) 64
      fun _ => armEngineA32.emptyInst).status ≠ .forbiddenClobber := by
  have hplan : planDetour noTables armEngineA32 [0, 0, 0, 0xeb] 0x10000 0x20000 none
      (fun _ => armEngineA32.emptyInst) = .ok _ := rfl
  have hmode : blOptions.jumpBackMode = planBranchMode none := rfl
  exact ⟨_, hplan, ((relocatePrologue_announced_iff hplan hmode rfl fun _ => rfl).2 (by decide)).2
    (.inr (by decide))⟩

/-- The same `bl` out of range: the plan announces nothing, and the relocation needs `ip`. -/
theorem relocatePrologue_not_announced :
    ∃ (tables : Tables) (engine : Engine) (code : List Byte)
      (originalAddress replacementAddress relocatedAddress : BitVec 64)
      (planOptions : Option DetourPlanOptions) (options : RelocateOptions) (capacity : Nat)
      (priors : Nat → Inst) (plan : DetourPlan) (block : Block),
      (∀ k, (priors k).bytes.length = (priors k).size) ∧
      planDetour tables engine code originalAddress replacementAddress planOptions priors = .ok plan ∧
      planBlock tables engine code originalAddress replacementAddress planOptions priors = .ok block ∧
      decodeBlockUntil tables engine code originalAddress (max options.minOverwriteSize 1)
        maxBlockInstructions priors = .ok block ∧
      options.jumpBackMode = planBranchMode planOptions ∧
      (relocatePrologue tables engine code originalAddress relocatedAddress options capacity
        priors).status = .ok ∧
      ¬ (relocatePrologue tables engine code originalAddress relocatedAddress options capacity
        priors).result.Permitted (options.grant plan) ∧
      (relocatePrologue tables engine code originalAddress relocatedAddress (options.grant plan) capacity
        priors).status = .forbiddenClobber := by
  refine ⟨noTables, armEngineA32, [0, 0, 0, 0xeb], 0x10000, 0x20000, 0x4000000, none, blOptions, 64,
    fun _ => armEngineA32.emptyInst, _, _, fun _ => rfl, rfl, rfl, rfl, rfl, by decide, ?_, by decide⟩
  rintro ⟨hlo, -⟩
  exact absurd hlo (by decide)

end AsmKit
