import AsmKit.Relocate.Announced
import AsmKit.Relocate.Supported

/-!
# Planning and relocating agree

A plan is refused for what the analysis rules out, a relocation for what has no form. The two agree
on a block just where one instruction is ruled out exactly when the block cannot be relocated.
-/

namespace AsmKit

/-! ## Blocks -/

/-- All the instructions have a form, and from some address on they all reach their targets. -/
def Relocatable (engine : Engine) (insts : List Inst) : Prop :=
  (∀ inst ∈ insts, Supported engine inst) ∧
    ∃ address, ∀ p ∈ layout engine insts address, InReach engine p.1 p.2

def RelocateOptions.AllPermitted (options : RelocateOptions) : Prop :=
  options.allowedClobberMaskLo = BitVec.allOnes 64 ∧ options.allowedClobberMaskHi = BitVec.allOnes 64

variable {engine : Engine} {inst : Inst} {insts : List Inst} {address : BitVec 64} {room : Nat}

theorem relocatable_iff : Relocatable engine insts ↔
    ∃ address, ∀ p ∈ layout engine insts address, ∃ result, relocForm engine p.1 p.2 = .ok result := by
  have hmem (address : BitVec 64) (inst : Inst) :
      inst ∈ insts ↔ ∃ p ∈ layout engine insts address, p.1 = inst := by
    rw [← List.mem_map, layout_fst]
  constructor
  · rintro ⟨hsupported, address, hreach⟩
    refine ⟨address, fun p hp => formOf_relocForm.ok_iff.2 ⟨?_, hreach p hp⟩⟩
    exact hsupported p.1 ((hmem address p.1).2 ⟨p, hp, rfl⟩)
  · rintro ⟨address, hforms⟩
    refine ⟨fun inst hinst => ?_, address, fun p hp => (formOf_relocForm.ok_iff.1 (hforms p hp)).2⟩
    obtain ⟨p, hp, rfl⟩ := (hmem address inst).1 hinst
    exact (formOf_relocForm.ok_iff.1 (hforms p hp)).1

/-! ## The jump back -/

variable {fromAddress toAddress : BitVec 64} {capacity : Nat}

theorem emitJump_status_ne {options : Option EmitOptions} :
    (emitJump engine fromAddress toAddress options capacity).status ≠ .unsupportedRelocation := by
  intro hstatus
  have htarget : (emitTarget engine false fromAddress toAddress options capacity).status =
      .unsupportedRelocation := by
    rw [emitJump_eq, emitFinish] at hstatus
    split at hstatus
    · cases hstatus
    · exact hstatus
  by_cases hnative : engine.target.arch ≠ .bpf ∧ engine.target.arch ≠ .wasm
  · have hform : ComesTo 0 (emitTarget engine false fromAddress toAddress options)
        (branchForm engine false fromAddress toAddress options) :=
      emitTarget_comesTo hnative.1 hnative.2
    rcases hform.status_cases capacity with h | h | h <;> rw [htarget] at h
    · cases h
    · cases h
    · rcases branchForm_error h with h | h <;> cases h
  · unfold emitTarget at htarget
    cases harch : engine.target.arch with
    | x86 | arm | aarch64 => exact hnative ⟨by simp [harch], by simp [harch]⟩
    | bpf | wasm =>
      rw [harch] at htarget
      cases htarget

variable {options : RelocateOptions}

theorem emitJump_branchBase (hbpf : engine.target.arch ≠ .bpf) (hwasm : engine.target.arch ≠ .wasm)
    {bound : BranchPlanBound} (hbound : planJumpBack engine options.jumpBackMode = .ok bound)
    (hpermitted : options.AllPermitted) (hroom : 16 ≤ capacity) :
    (emitJump engine fromAddress (branchBase engine fromAddress) (some options.jumpOptions)
      capacity).status = .ok := by
  have hjump : engine.config.mode = .armThumb → TransferKind.jump = .jump := fun _ => rfl
  have hrange : relativeInRange engine false fromAddress (branchBase engine fromAddress) = true :=
    relativeInRange_branchBase hbpf hwasm hjump
  have hunusable (h : relativeUsable engine false fromAddress (branchBase engine fromAddress)
      options.jumpBackMode = false) : options.jumpBackMode = .absoluteOnly := by
    rw [relativeUsable, hrange, Bool.and_true] at h
    simpa using h
  have houtcome : Outcome engine false fromAddress (branchBase engine fromAddress)
      (some options.jumpOptions) (emitJump engine fromAddress (branchBase engine fromAddress)
        (some options.jumpOptions) capacity) := emitTransfer_outcome hbpf hwasm hroom .jump
  cases houtcome with
  | relative _ hstatus => exact hstatus
  | absolute _ _ _ _ hstatus => exact hstatus
  | outOfRange husable hmode _ =>
    have habs := hunusable husable
    rcases hmode with hmode | hmode
    · cases habs.symm.trans hmode
    · exact absurd hmode ((planJumpBack_boundOf hbound).absolute habs false)
  | forbidden o result husable _ _ ho hforbids _ =>
    cases ho
    have habs := hunusable husable
    rcases hforbids with ⟨hmode, -⟩ | hlo | hhi
    · cases habs.symm.trans hmode
    · refine absurd ?_ hlo
      rw [RelocateOptions.jumpOptions, hpermitted.1]
      simp
    · refine absurd ?_ hhi
      rw [RelocateOptions.jumpOptions, hpermitted.2]
      simp

/-! ## The relocation of a block -/

section

variable {tables : Tables} {code : List Byte} {originalAddress relocatedAddress : BitVec 64}
  {priors : Nat → Inst} {block : Block}

theorem relocatePrologue_status_ne (hnative : isNative engine = true)
    (hblock : decodeBlockUntil tables engine code originalAddress (max options.minOverwriteSize 1)
      maxBlockInstructions priors = .ok block)
    (hinsts : ∀ inst ∈ block.insts, inst.bytes.length = inst.size)
    (hsupported : ∀ inst ∈ block.insts, Supported engine inst) :
    (relocatePrologue tables engine code originalAddress relocatedAddress options capacity
      priors).status ≠ .unsupportedRelocation := by
  obtain ⟨hbpf, hwasm⟩ := isNative_arch hnative
  have houtcome : LoopOutcome engine options block.insts relocatedAddress capacity 0
      (relocateInsts engine options relocatedAddress capacity block.insts {}) :=
    relocateInsts_outcome_start hbpf hwasm hinsts
  rw [relocatePrologue_of_decoded hnative hblock]
  generalize relocateInsts engine options relocatedAddress capacity block.insts {} = last at houtcome ⊢
  cases houtcome with
  | @relocated t size _ _ _ =>
    simp only
    unfold appendJumpBack
    simp only
    split
    · exact emitJump_status_ne
    · nofun
  | forbidden _ hstatus =>
    simp only [hstatus]
    nofun
  | stopped _ _ hstatus =>
    simp only
    rcases hstatus with hstatus | ⟨inst, hinst, start, hform⟩
    · rw [hstatus]
      nofun
    · intro hunsupported
      rw [hunsupported] at hform
      exact formOf_relocForm.unsupported hform (hsupported inst hinst)

theorem relocatable_of_ok
    (hblock : decodeBlockUntil tables engine code originalAddress (max options.minOverwriteSize 1)
      maxBlockInstructions priors = .ok block)
    (hinsts : ∀ inst ∈ block.insts, inst.bytes.length = inst.size)
    (hok : (relocatePrologue tables engine code originalAddress relocatedAddress options capacity
      priors).status = .ok) : Relocatable engine block.insts := by
  obtain ⟨hnative, block', t, hblock', hrun, -⟩ := relocatePrologue_of_ok hok
  cases hblock.symm.trans hblock'
  obtain ⟨hbpf, hwasm⟩ := isNative_arch hnative
  have houtcome : LoopOutcome engine options block.insts relocatedAddress capacity 0
      (relocateInsts engine options relocatedAddress capacity block.insts {}) :=
    relocateInsts_outcome_start hbpf hwasm hinsts
  rw [relocateInsts_ok_iff.2 hrun] at houtcome
  cases houtcome with
  | relocated _ hsize _ => exact relocatable_iff.2 ⟨relocatedAddress, layout_of_placedSize hsize⟩

theorem relocatePrologue_of_relocatable (hnative : isNative engine = true)
    (hblock : decodeBlockUntil tables engine code originalAddress (max options.minOverwriteSize 1)
      maxBlockInstructions priors = .ok block)
    (hinsts : ∀ inst ∈ block.insts, inst.bytes.length = inst.size)
    (hforms : ∀ p ∈ layout engine block.insts relocatedAddress,
      ∃ result, relocForm engine p.1 p.2 = .ok result)
    {bound : BranchPlanBound} (hbound : planJumpBack engine options.jumpBackMode = .ok bound)
    (hpermitted : options.AllPermitted)
    (hcontinuation : options.continuationAddress = branchBase engine
      (relocatedAddress + BitVec.ofNat 64 (layoutSize engine block.insts relocatedAddress)))
    (hroom : layoutSize engine block.insts relocatedAddress + 16 ≤ capacity) :
    (relocatePrologue tables engine code originalAddress relocatedAddress options capacity
      priors).status = .ok := by
  obtain ⟨hbpf, hwasm⟩ := isNative_arch hnative
  have hplaced : placedSize engine block.insts relocatedAddress capacity =
      some (layoutSize engine block.insts relocatedAddress) :=
    placedSize_of_layout hforms (by omega)
  have houtcome : LoopOutcome engine options block.insts relocatedAddress capacity 0
      (relocateInsts engine options relocatedAddress capacity block.insts {}) :=
    relocateInsts_outcome_start hbpf hwasm hinsts
  rw [relocatePrologue_of_decoded hnative hblock]
  generalize relocateInsts engine options relocatedAddress capacity block.insts {} = last at houtcome ⊢
  cases houtcome with
  | @relocated t size _ hsize hoffset =>
    cases hplaced.symm.trans hsize
    rw [Nat.zero_add] at hoffset
    simp only
    unfold appendJumpBack
    simp only
    have hjump : (emitJump engine (relocatedAddress + BitVec.ofNat 64 t.offset)
        options.continuationAddress (some options.jumpOptions) (capacity - t.offset)).status = .ok := by
      rw [hcontinuation, hoffset]
      exact emitJump_branchBase hbpf hwasm hbound hpermitted (by omega)
    rw [if_neg (not_not_intro hjump)]
  | forbidden hforbidden _ =>
    obtain ⟨p, -, result, -, hforbidden⟩ := hforbidden
    rw [clobbersForbidden, hpermitted.1, hpermitted.2] at hforbidden
    simp at hforbidden
  | stopped _ hsize _ =>
    rw [hplaced] at hsize
    cases hsize

end

/-! ## Plans -/

section

variable (tables : Tables) (engine : Engine) (code : List Byte) (address replacementAddress : BitVec 64)
  (planOptions : Option DetourPlanOptions) (planPriors : Nat → Inst)

/-- A plan gets as far as the instructions: the target is native, and there are an entry patch and a
jump back of the mode. -/
def Plannable : Prop :=
  isNative engine = true ∧
    (minPatchSize engine address replacementAddress (planBranchMode planOptions)).1 ≠ 0 ∧
    ∃ bound, planJumpBack engine (planBranchMode planOptions) = .ok bound

/-- What a plan says about a block is what a relocation of it comes to. The relocations are those with
the overwrite length of the plan. -/
structure Agrees (block : Block) (priors : Nat → Inst) : Prop where
  accepted : ∀ plan,
    planDetour tables engine code address replacementAddress planOptions planPriors = .ok plan →
    (∀ relocatedAddress options capacity, options.minOverwriteSize = plan.minOverwriteSize →
      options.AllPermitted →
      (relocatePrologue tables engine code address relocatedAddress options capacity priors).status ≠
        .unsupportedRelocation) ∧
    ∃ relocatedAddress options enough, options.minOverwriteSize = plan.minOverwriteSize ∧
      options.AllPermitted ∧ options.jumpBackMode = planBranchMode planOptions ∧
      ∀ capacity, enough ≤ capacity →
        (relocatePrologue tables engine code address relocatedAddress options capacity
          priors).status = .ok
  rejected : planDetour tables engine code address replacementAddress planOptions planPriors =
      .error .unsupportedRelocation →
    ∀ relocatedAddress options capacity, options.minOverwriteSize = block.totalSize →
      (relocatePrologue tables engine code address relocatedAddress options capacity priors).status ≠ .ok

end

variable {tables : Tables} {code : List Byte} {replacementAddress : BitVec 64}
  {planOptions : Option DetourPlanOptions} {planPriors priors : Nat → Inst} {block : Block}

theorem planJumpBack_ne {mode : BranchMode} :
    planJumpBack engine mode ≠ .error .unsupportedRelocation := by
  unfold planJumpBack
  cases engine.target.arch with
  | x86 =>
    simp only
    unfold X86.planJumpBack
    split
    · split
      · nofun
      split <;> nofun
    · nofun
  | arm =>
    simp only
    unfold Arm.planJumpBack
    split
    · split <;> nofun
    split <;> nofun
  | aarch64 =>
    simp only
    unfold A64.planJumpBack
    split <;> nofun
  | bpf | wasm => nofun

theorem planDetour_of_not_plannable (h : ¬ Plannable engine address replacementAddress planOptions) :
    (∀ plan, planDetour tables engine code address replacementAddress planOptions planPriors ≠ .ok plan) ∧
      planDetour tables engine code address replacementAddress planOptions planPriors ≠
        .error .unsupportedRelocation := by
  constructor
  · intro plan hplan
    obtain ⟨block, bound, hplanned⟩ := planDetour_of_ok hplan
    exact h ⟨hplanned.native, hplanned.patch, bound, hplanned.bound⟩
  · unfold planDetour
    simp only
    split
    · nofun
    next hnative =>
    split
    · nofun
    next hpatch =>
    split
    · next status hbound =>
      rintro ⟨⟩
      exact planJumpBack_ne hbound
    · next bound hbound => exact absurd ⟨not_not.1 hnative, hpatch, bound, hbound⟩ h

theorem planDetour_of_plannable (h : Plannable engine address replacementAddress planOptions)
    (hblock : planBlock tables engine code address replacementAddress planOptions planPriors = .ok block) :
    ((∃ inst ∈ block.insts, RuledOut engine inst) →
      planDetour tables engine code address replacementAddress planOptions planPriors =
        .error .unsupportedRelocation) ∧
    ((¬ ∃ inst ∈ block.insts, RuledOut engine inst) → ∃ plan, plan.minOverwriteSize = block.totalSize ∧
      planDetour tables engine code address replacementAddress planOptions planPriors = .ok plan) := by
  obtain ⟨hnative, hpatch, bound, hbound⟩ := h
  obtain ⟨hbpf, hwasm⟩ := isNative_arch hnative
  have hruled : (∃ inst ∈ block.insts, RuledOut engine inst) ↔
      ∃ inst ∈ block.insts, Rejected engine inst := by
    simp only [rejected_iff hbpf hwasm]
  unfold planBlock at hblock
  unfold planDetour
  simp only [hnative, not_true, if_false, if_neg hpatch, hbound, hblock, planInsts_eq, hruled]
  constructor
  · intro hreject
    rw [if_pos hreject]
    rfl
  · intro haccept
    rw [if_neg haccept]
    exact ⟨_, DetourPlan.addAll_minOverwriteSize, rfl⟩

/-- Planning and relocating agree on a block just where one of its instructions is ruled out exactly
when the block cannot be relocated. -/
theorem planDetour_agrees_iff
    (hblock : planBlock tables engine code address replacementAddress planOptions planPriors = .ok block)
    (hsame : decodeBlockUntil tables engine code address (max block.totalSize 1) maxBlockInstructions
      priors = .ok block)
    (hpriors : ∀ k, (priors k).bytes.length = (priors k).size) :
    Agrees tables engine code address replacementAddress planOptions planPriors block priors ↔
      (Plannable engine address replacementAddress planOptions →
        ((∃ inst ∈ block.insts, RuledOut engine inst) ↔ ¬ Relocatable engine block.insts)) := by
  by_cases hplannable : Plannable engine address replacementAddress planOptions
  swap
  · obtain ⟨hok, hunsupported⟩ := planDetour_of_not_plannable hplannable
    refine iff_of_true ⟨fun plan hplan => absurd hplan (hok plan), fun h => absurd h hunsupported⟩ ?_
    exact fun h => absurd h hplannable
  obtain ⟨hrejects, haccepts⟩ := planDetour_of_plannable hplannable hblock
  obtain ⟨hnative, hpatch, bound, hbound⟩ := id hplannable
  obtain ⟨hbpf, hwasm⟩ := isNative_arch hnative
  have hinsts := (decodeBlockUntil_decoded hsame).1.bytes_length hbpf hwasm hpriors
  -- A block that can be relocated is, from some address on.
  have hrelocate (h : Relocatable engine block.insts) : ∃ relocatedAddress options enough,
      options.minOverwriteSize = block.totalSize ∧ options.AllPermitted ∧
      options.jumpBackMode = planBranchMode planOptions ∧ ∀ capacity, enough ≤ capacity →
        (relocatePrologue tables engine code address relocatedAddress options capacity
          priors).status = .ok := by
    obtain ⟨start, hforms⟩ := relocatable_iff.1 h
    refine ⟨start,
      { minOverwriteSize := block.totalSize
        continuationAddress :=
          branchBase engine (start + BitVec.ofNat 64 (layoutSize engine block.insts start))
        jumpBackMode := planBranchMode planOptions, allowedClobberMaskLo := BitVec.allOnes 64
        allowedClobberMaskHi := BitVec.allOnes 64 },
      layoutSize engine block.insts start + 16, rfl, ⟨rfl, rfl⟩, rfl, fun capacity hroom => ?_⟩
    exact relocatePrologue_of_relocatable hnative hsame hinsts hforms hbound ⟨rfl, rfl⟩ rfl hroom
  rw [forall_prop_of_true hplannable]
  constructor
  · intro hagrees
    constructor
    · intro hruled hrelocatable
      obtain ⟨start, options, enough, hmin, -, -, hok⟩ := hrelocate hrelocatable
      exact hagrees.rejected (hrejects hruled) start options enough hmin (hok enough le_rfl)
    · intro hnot
      by_contra hruled
      obtain ⟨plan, hmin, hplan⟩ := haccepts hruled
      obtain ⟨start, options, enough, hsize, -, -, hok⟩ := (hagrees.accepted plan hplan).2
      rw [← hmin, ← hsize] at hsame
      exact hnot (relocatable_of_ok hsame hinsts (hok enough le_rfl))
  · intro hiff
    constructor
    · intro plan hplan
      have hrelocatable : Relocatable engine block.insts := by
        by_contra hnot
        rw [hrejects (hiff.2 hnot)] at hplan
        cases hplan
      obtain ⟨plan', hmin, hplan'⟩ := haccepts fun hruled => hiff.1 hruled hrelocatable
      cases hplan.symm.trans hplan'
      rw [hmin]
      refine ⟨fun start options capacity hsize _ => ?_, hrelocate hrelocatable⟩
      rw [← hsize] at hsame
      exact relocatePrologue_status_ne hnative hsame hinsts hrelocatable.1
    · intro hunsupported start options capacity hsize hok
      rw [← hsize] at hsame
      refine hiff.1 ?_ (relocatable_of_ok hsame hinsts hok)
      by_contra hruled
      obtain ⟨plan, -, hplan⟩ := haccepts hruled
      rw [hplan] at hunsupported
      cases hunsupported

/-- A `bl` of A32: accepted, and relocated wherever it is put. -/
theorem planDetour_agrees_bl : ∃ block,
    planBlock noTables armEngineA32 [0, 0, 0, 0xeb] 0x10000 0x20000 none
      (fun _ => armEngineA32.emptyInst) = .ok block ∧
    Agrees noTables armEngineA32 [0, 0, 0, 0xeb] 0x10000 0x20000 none
      (fun _ => armEngineA32.emptyInst) block fun _ => armEngineA32.emptyInst := by
  obtain ⟨block, hblock, hsame, hcall⟩ : ∃ block,
      planBlock noTables armEngineA32 [0, 0, 0, 0xeb] 0x10000 0x20000 none
        (fun _ => armEngineA32.emptyInst) = .ok block ∧
      decodeBlockUntil noTables armEngineA32 [0, 0, 0, 0xeb] 0x10000 (max block.totalSize 1)
        maxBlockInstructions (fun _ => armEngineA32.emptyInst) = .ok block ∧
      ∀ inst ∈ block.insts, inst.instClass = .directCall := ⟨_, rfl, rfl, by decide⟩
  refine ⟨block, hblock, (planDetour_agrees_iff hblock hsame fun _ => rfl).2 fun _ =>
    iff_of_false ?_ ?_⟩
  · rintro ⟨inst, hinst, hit, -⟩
    rw [hcall inst hinst] at hit
    cases hit
  · refine not_not_intro ⟨fun inst hinst => ⟨?_, fun _ => .inr (hcall inst hinst)⟩, 0,
      fun p hp _ => .inr rfl⟩
    rw [hcall inst hinst]
    nofun

/-- `loop`: the plan counts on a form as for any other conditional branch, and there is none. -/
theorem planDetour_not_agrees :
    ∃ (tables : Tables) (engine : Engine) (code : List Byte) (address replacementAddress : BitVec 64)
      (planOptions : Option DetourPlanOptions) (planPriors priors : Nat → Inst) (block : Block),
      planBlock tables engine code address replacementAddress planOptions planPriors = .ok block ∧
      decodeBlockUntil tables engine code address (max block.totalSize 1) maxBlockInstructions priors =
        .ok block ∧
      (∀ k, (priors k).bytes.length = (priors k).size) ∧
      ¬ Agrees tables engine code address replacementAddress planOptions planPriors block priors := by
  refine ⟨noTables, x86Engine64, [0xe2, 0xfe, 0x90, 0x90, 0x90], 0x1000, 0x2000, none,
    fun _ => x86Engine64.emptyInst, fun _ => x86Engine64.emptyInst, _, rfl, rfl, fun _ => rfl, ?_⟩
  intro hagrees
  exact (hagrees.accepted _ rfl).1 0x3000
    { minOverwriteSize := 5, continuationAddress := 0x1005, allowedClobberMaskLo := BitVec.allOnes 64
      allowedClobberMaskHi := BitVec.allOnes 64 } 64 rfl ⟨rfl, rfl⟩ (by decide)

end AsmKit
