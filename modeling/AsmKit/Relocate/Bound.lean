import AsmKit.Relocate.Announced
import AsmKit.Relocate.Supported

/-!
# What a plan sets aside

The bound of an instruction against the form it is relocated to, and the bound of the jump back
against the form of the jump. What may come out longer than its bound: a RIP-relative x86 instruction
of fifteen bytes, which is copied; a direct transfer whose target the analysis did not find, such as
A32 `svc` and `hvc` or the x86 `fsubr` rows, which is expanded like any other.
-/

namespace AsmKit

/-! ## Instructions -/

/-- The bytes an instruction asks for: those of its form, or those checked ahead of a refusal. -/
def need (engine : Engine) (inst : Inst) (address : BitVec 64) : Nat :=
  formRoom (refusalRoom engine inst address) (relocForm engine inst address)

/-- A RIP-relative instruction is copied, however long it is. A direct transfer takes its longest form
also where the analysis found no relative operand. -/
def X86.Underestimated (inst : Inst) : Prop :=
  if inst.has InstFlag.pcRelative = true ∧ (pcRelOperand inst).isSome = true then
    X86.isTransfer inst = false ∧ 14 < inst.size
  else X86.isTransfer inst = true ∧ inst.operands ≠ []

/-- A branch or a call by its class that is not marked as relative, such as `svc`. -/
def Arm.Underestimated (inst : Inst) : Prop :=
  (inst.instClass = .directBranch ∨ inst.instClass = .directCall) ∧
    ¬ (inst.has InstFlag.pcRelative = true ∧ inst.operands ≠ [])

/-- Only for a record whose class or size does not fit its word. -/
def A64.Underestimated (inst : Inst) : Prop :=
  inst.has InstFlag.pcRelative = true ∧ (findPcRelOperand inst).isSome = true ∧
    inst.instClass ≠ .condBranch ∧ inst.instClass ≠ .directBranch ∧ inst.instClass ≠ .directCall ∧
    (isUnconditionalPcBranchOrCall inst = true ∨ inst.size < 4)

/-- The plan may set aside less than the instruction is relocated to. -/
def Underestimated (engine : Engine) (inst : Inst) : Prop :=
  match engine.target.arch with
  | .x86 => X86.Underestimated inst
  | .arm => Arm.Underestimated inst
  | .aarch64 => A64.Underestimated inst
  | .bpf | .wasm => False

instance (inst : Inst) : Decidable (X86.Underestimated inst) := by
  unfold X86.Underestimated
  infer_instance

instance (inst : Inst) : Decidable (Arm.Underestimated inst) := inferInstanceAs (Decidable (_ ∧ _))

instance (inst : Inst) : Decidable (A64.Underestimated inst) := inferInstanceAs (Decidable (_ ∧ _))

instance (engine : Engine) (inst : Inst) : Decidable (Underestimated engine inst) := by
  unfold Underestimated
  split <;> infer_instance

variable {engine : Engine} {inst : Inst} {address : BitVec 64} {result : EmitResult}

theorem bound_eq {sem : InstSemantics} {size : Nat} (h : sem.maxEmitSize = size)
    (hzero : size = 0 → inst.size = 0) : sem.bound inst = size := by
  unfold InstSemantics.bound
  rw [h]
  split
  · rfl
  · next hnot =>
    rw [not_not] at hnot
    rw [hnot, hzero hnot]

theorem X86.planBound_eq : (X86.analyze inst).bound inst =
    if inst.has InstFlag.pcRelative = true ∧ (pcRelOperand inst).isSome = true then
      if inst.instClass = .condBranch then 16 else 14
    else inst.size := by
  refine bound_eq ?_ ?_
  · cases hflag : inst.has InstFlag.pcRelative <;> cases hpc : pcRelOperand inst <;>
      simp [X86.analyze, hflag, hpc]
  · split
    · split <;> nofun
    · exact id

theorem Arm.planBound_eq : (Arm.analyze inst).bound inst =
    if inst.has InstFlag.pcRelative = true ∧ inst.operands ≠ [] then 12 else inst.size := by
  refine bound_eq ?_ ?_
  · unfold Arm.analyze
    by_cases hrel : inst.has InstFlag.pcRelative = true ∧ inst.operands ≠ []
    · simp only [if_pos hrel]
    · simp only [if_neg hrel]
  · split
    · nofun
    · exact id

theorem A64.planBound_eq : (A64.analyze inst).bound inst =
    if inst.has InstFlag.pcRelative = true ∧ (findPcRelOperand inst).isSome = true then
      if inst.instClass = .condBranch then 20
      else if inst.instClass = .directBranch ∨ inst.instClass = .directCall then 16
      else inst.size
    else inst.size := by
  refine bound_eq ?_ ?_
  · cases hflag : inst.has InstFlag.pcRelative <;> cases hpc : findPcRelOperand inst <;>
      simp [A64.analyze, hflag, hpc]
  · split
    · split
      · nofun
      split
      · nofun
      · exact id
    · exact id

theorem directForm_size {isCall : Bool} {toAddress : BitVec 64}
    (h : directForm engine isCall address toAddress = .ok result) :
    result.size ≤ match engine.target.arch with
      | .x86 => 14
      | .arm => 12
      | _ => 16 := by
  have hdirect : X86.directSize engine ≤ 5 := by
    unfold X86.directSize
    split <;> omega
  rcases directForm_result h with ⟨-, rfl⟩ | ⟨-, habs⟩
  · dsimp only
    unfold relativeSize
    cases engine.target.arch with
    | x86 => exact hdirect.trans (by decide)
    | arm =>
      simp only
      split <;> decide
    | aarch64 | bpf | wasm =>
      simp only
      decide
  · unfold absoluteForm at habs
    cases harch : engine.target.arch with
    | x86 =>
      rw [harch] at habs
      simp only at habs
      split at habs
      · cases habs
        exact le_rfl
      · cases habs
    | arm =>
      rw [harch] at habs
      simp only at habs
      split at habs
      · cases habs
        unfold Arm.absResultA32
        split <;> simp
      · cases habs
    | aarch64 =>
      rw [harch] at habs
      cases habs
      exact le_rfl
    | bpf | wasm =>
      rw [harch] at habs
      cases habs

theorem X86.form_size_le (harch : engine.target.arch = .x86) (h : ¬ X86.Underestimated inst)
    (hform : X86.form engine inst address = .ok result) :
    result.size ≤ (X86.analyze inst).bound inst := by
  rw [X86.planBound_eq]
  unfold X86.Underestimated at h
  unfold X86.form at hform
  split at hform
  · next htransfer =>
    rw [← X86.isTransfer_iff] at htransfer
    split at hform
    · cases hform
    next hops =>
    split
    swap
    · next hrel =>
      rw [if_neg hrel] at h
      exact absurd ⟨htransfer, hops⟩ h
    split
    · next hcond =>
      rw [if_pos hcond] at hform
      unfold condForm at hform
      split at hform
      · cases hform
      split at hform
      · split at hform
        · cases hform
          simp
        split at hform
        · cases hform
          exact le_rfl
        · cases hform
      · cases hform
    · next hcond =>
      rw [if_neg hcond] at hform
      have hsize := directForm_size hform
      rwa [harch] at hsize
  next htransfer =>
  rw [← X86.isTransfer_iff] at htransfer
  have hcopied : result.size = inst.size := by
    unfold ripForm at hform
    split at hform
    · split at hform
      · split at hform
        · cases hform
          rfl
        · cases hform
      · cases hform
    · cases hform
      rfl
  split
  · next hrel =>
    rw [if_pos hrel] at h
    have hlong : ¬ 14 < inst.size := fun hlong => h ⟨eq_false_of_ne_true htransfer, hlong⟩
    split <;> omega
  · exact hcopied.le

theorem Arm.form_size_le (harch : engine.target.arch = .arm) (h : ¬ Arm.Underestimated inst)
    (hform : Arm.form engine inst address = .ok result) :
    result.size ≤ (Arm.analyze inst).bound inst := by
  rw [Arm.planBound_eq]
  unfold Arm.form at hform
  split at hform
  · cases hform
  split at hform
  · next hdirect =>
    have hsize := directForm_size hform
    rw [harch] at hsize
    rw [if_pos (not_not.1 fun hrel => h ⟨hdirect, hrel⟩)]
    exact hsize
  split at hform
  · cases hform
  · next hrel =>
    cases hform
    rw [if_neg fun h => hrel h.1]

theorem A64.isUnconditional_pcRelative (h : isUnconditionalPcBranchOrCall inst = true) :
    inst.has InstFlag.pcRelative = true := by
  unfold isUnconditionalPcBranchOrCall at h
  exact (Bool.and_eq_true_iff.1 h).1

theorem A64.need_le (harch : engine.target.arch = .aarch64) (h : ¬ A64.Underestimated inst) :
    need engine inst address ≤ (A64.analyze inst).bound inst := by
  rw [A64.planBound_eq, need, relocForm, AsmKit.refusalRoom, harch]
  simp only
  unfold A64.form A64.refusalRoom
  unfold A64.Underestimated at h
  cases hpc : findPcRelOperand inst with
  | none =>
    simp only
    split
    · exact Nat.zero_le _
    · simp [formRoom]
  | some operand =>
    rw [hpc] at h
    simp only [Option.isSome_some, true_and, and_true] at h ⊢
    by_cases hdirect : isUnconditionalPcBranchOrCall inst = true
    · have hflag := isUnconditional_pcRelative hdirect
      simp only [if_pos hdirect, if_pos hflag]
      have hbound : 16 ≤ if inst.instClass = .condBranch then 20
          else if inst.instClass = .directBranch ∨ inst.instClass = .directCall then 16
          else inst.size := by
        split
        · decide
        next hcond =>
        split
        · exact le_rfl
        · next hclass =>
          rw [not_or] at hclass
          exact absurd ⟨hflag, hcond, hclass.1, hclass.2, .inl hdirect⟩ h
      cases hform : directForm engine (isCall inst) address (operandTarget inst operand) with
      | ok result =>
        have hsize := directForm_size hform
        rw [harch] at hsize
        exact hsize.trans hbound
      | error status => exact Nat.zero_le _
    simp only [if_neg hdirect]
    by_cases hflag : inst.has InstFlag.pcRelative = true
    swap
    · simp only [if_neg hflag]
      exact le_rfl
    simp only [if_pos hflag]
    have hbound : 4 ≤ if inst.instClass = .condBranch then 20
        else if inst.instClass = .directBranch ∨ inst.instClass = .directCall then 16
        else inst.size := by
      split
      · decide
      next hcond =>
      split
      · decide
      · next hclass =>
        rw [not_or] at hclass
        by_contra hsize
        exact h ⟨hflag, hcond, hclass.1, hclass.2, .inr (not_le.1 hsize)⟩
    unfold pcRelForm pcRelRoom
    rw [relocDisp_eq]
    simp only
    by_cases hreach : outOfReach inst (encodedDisp inst (operandTarget inst operand) address)
    · simp only [if_pos hreach]
      by_cases hcond : isConditionalPcBranch inst = true
      · rw [if_pos hcond]
        have hclass : inst.instClass = .condBranch := by
          unfold isConditionalPcBranch at hcond
          simp only [Bool.and_eq_true, beq_iff_eq] at hcond
          exact hcond.1.1
        rw [if_pos hclass]
        exact le_rfl
      · rw [if_neg hcond]
        exact Nat.zero_le _
    · simp only [if_neg hreach]
      split
      · exact hbound
      · exact hbound

/-- Whatever is not underestimated gets by with its bound. -/
theorem need_le_planBound (h : ¬ Underestimated engine inst) :
    need engine inst address ≤ planBound engine inst := by
  unfold planBound semanticsOf
  unfold Underestimated at h
  cases harch : engine.target.arch with
  | x86 =>
    rw [harch] at h
    rw [need, relocForm, refusalRoom, harch]
    simp only
    cases hform : X86.form engine inst address with
    | ok result => exact X86.form_size_le harch h hform
    | error status => exact Nat.zero_le _
  | arm =>
    rw [harch] at h
    rw [need, relocForm, refusalRoom, harch]
    simp only
    cases hform : Arm.form engine inst address with
    | ok result => exact Arm.form_size_le harch h hform
    | error status => exact Nat.zero_le _
  | aarch64 =>
    rw [harch] at h
    exact A64.need_le harch h
  | bpf | wasm =>
    rw [need, relocForm, refusalRoom, harch]
    exact Nat.zero_le _

/-! ## The jump back -/

/-- What a jump comes to, before its clobbers are checked. -/
def jumpForm (engine : Engine) (fromAddress toAddress : BitVec 64) (options : EmitOptions) :
    Except Status EmitResult :=
  if relativeUsable engine false fromAddress toAddress options.mode then
    .ok { size := relativeSize engine }
  else if options.mode = .directOnly then .error .branchOutOfRange
  else
    match absoluteForm engine false with
    | none => .error .branchOutOfRange
    | some result =>
      if ScratchRefused engine options then .error .forbiddenClobber else .ok result

/-- The bytes a jump asks for. -/
def jumpNeed (engine : Engine) (fromAddress toAddress : BitVec 64) (options : EmitOptions) : Nat :=
  formRoom 0 (jumpForm engine fromAddress toAddress options)

section

variable {fromAddress toAddress : BitVec 64} {options : EmitOptions} {capacity : Nat}

theorem jumpForm_eq : jumpForm engine fromAddress toAddress options =
    branchForm engine false fromAddress toAddress (some options) := by
  unfold jumpForm branchForm emitMode
  cases absoluteForm engine false <;> simp

theorem emitFinish_tooSmall_iff {out : EmitOut} {options : Option EmitOptions} :
    (emitFinish out options).status = .outputTooSmall ↔ out.status = .outputTooSmall := by
  unfold emitFinish
  split
  · next h =>
    refine iff_of_false nofun ?_
    rw [h.1]
    nofun
  · rfl

theorem emitJump_need (hbpf : engine.target.arch ≠ .bpf) (hwasm : engine.target.arch ≠ .wasm) :
    ((emitJump engine fromAddress toAddress (some options) capacity).status = .outputTooSmall ↔
      capacity < jumpNeed engine fromAddress toAddress options) ∧
    ((emitJump engine fromAddress toAddress (some options) capacity).status = .ok →
      (emitJump engine fromAddress toAddress (some options) capacity).result.size =
        jumpNeed engine fromAddress toAddress options) := by
  have htarget : ComesTo 0 (emitTarget engine false fromAddress toAddress (some options))
      (jumpForm engine fromAddress toAddress options) := by
    rw [jumpForm_eq]
    exact emitTarget_comesTo hbpf hwasm
  have hrefused : jumpForm engine fromAddress toAddress options ≠ .error .outputTooSmall := by
    rw [jumpForm_eq]
    intro hform
    rcases branchForm_error hform with h | h <;> cases h
  rw [emitJump_eq]
  refine ⟨emitFinish_tooSmall_iff.trans (htarget.tooSmall_iff hrefused), fun hok => ?_⟩
  obtain ⟨hsame, hemit⟩ := emitFinish_of_ok hok
  obtain ⟨result, hform, -⟩ := htarget.ok_iff.1 hemit
  rw [hform] at htarget
  rw [hsame, htarget.result_eq, jumpNeed, hform, formRoom]

theorem absoluteForm_size_le {bound : BranchPlanBound} {mode : BranchMode}
    (h : planJumpBack engine mode = .ok bound) (hmode : mode ≠ .directOnly)
    (hscratch : ¬ (engine.target.arch = .aarch64 ∧ mode = .preferClobberless)) {result : EmitResult}
    (habs : absoluteForm engine false = some result) : result.size ≤ bound.size := by
  unfold planJumpBack at h
  unfold absoluteForm at habs
  cases harch : engine.target.arch with
  | x86 =>
    rw [harch] at h habs
    simp only at h habs
    split at habs
    · next hwide =>
      cases habs
      rw [X86.planJumpBack, if_neg (not_or.2 ⟨hmode, not_not_intro hwide⟩)] at h
      cases h
      exact le_rfl
    · cases habs
  | arm =>
    rw [harch] at h habs
    simp only at h habs
    split at habs
    · next ha32 =>
      cases habs
      rw [Arm.planJumpBack, if_pos ha32, if_neg hmode] at h
      cases h
      exact le_rfl
    · cases habs
  | aarch64 =>
    rw [harch] at h habs
    simp only at h habs
    cases habs
    rw [A64.planJumpBack, if_neg (not_or.2 ⟨hmode, fun hprefer => hscratch ⟨harch, hprefer⟩⟩)] at h
    cases h
    exact le_rfl
  | bpf | wasm =>
    rw [harch] at h
    cases h

theorem jumpNeed_le {bound : BranchPlanBound} (h : planJumpBack engine options.mode = .ok bound) :
    jumpNeed engine fromAddress toAddress options ≤ bound.size := by
  unfold jumpNeed formRoom
  split
  swap
  · exact Nat.zero_le _
  next result hform =>
  unfold jumpForm at hform
  split at hform
  · cases hform
    exact (planJumpBack_boundOf h).size
  split at hform
  · cases hform
  next hmode =>
  split at hform
  · cases hform
  next habs =>
  split at hform
  · cases hform
  next hscratch =>
  cases hform
  exact absoluteForm_size_le h hmode (fun hprefer => hscratch ⟨hprefer.1, .inl hprefer.2⟩) habs

end

end AsmKit
