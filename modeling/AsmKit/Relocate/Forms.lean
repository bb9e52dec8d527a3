import AsmKit.Encode.BranchForm
import AsmKit.Relocate.Prologue

/-!
# The form of a relocated instruction

The relocator of a target picks the form, or refuses, before it looks at the capacity.
-/

namespace AsmKit

/-- The form of a branch without options: relative in range, absolute elsewhere. -/
def directForm (engine : Engine) (isCall : Bool) (fromAddress toAddress : BitVec 64) :
    Except Status EmitResult :=
  if relativeInRange engine isCall fromAddress toAddress then .ok { size := relativeSize engine }
  else
    match absoluteForm engine isCall with
    | some result => .ok result
    | none => .error .branchOutOfRange

theorem directForm_eq {engine : Engine} {isCall : Bool} {fromAddress toAddress : BitVec 64} :
    directForm engine isCall fromAddress toAddress =
      branchForm engine isCall fromAddress toAddress none := by
  have husable : relativeUsable engine isCall fromAddress toAddress (emitMode none) =
      relativeInRange engine isCall fromAddress toAddress := rfl
  unfold directForm branchForm
  rw [husable, if_neg (show ¬ emitMode none = .directOnly by decide)]
  cases absoluteForm engine isCall <;> simp

/-! ## x86 -/

namespace X86

variable {engine : Engine} {inst : Inst} {relocatedAddress : BitVec 64} {capacity : Nat}

theorem relocateDirect_eq {isCall : Bool} (hops : inst.operands ≠ []) :
    relocateDirect engine isCall inst relocatedAddress capacity =
      emitAny engine isCall relocatedAddress (pcRelativeOperandTarget inst inst.operand0) none
        capacity := by
  unfold relocateDirect
  rw [if_neg hops, emitAny_eq]
  unfold emitRel emitAbs
  by_cases hfits : fitsDirect engine
      (relDisp engine relocatedAddress (pcRelativeOperandTarget inst inst.operand0)) = true
  · simp only [hfits, if_true]
    rw [if_pos (emitBytes_settled _ _ _ _), if_pos ⟨by decide, trivial⟩]
  · by_cases hmode : engine.config.mode = .x86_64 <;> simp [hfits, hmode, emitMode]

/-- The near form in range, else the inverted condition over an absolute jump. -/
def condForm (engine : Engine) (inst : Inst) (relocatedAddress : BitVec 64) : Except Status EmitResult :=
  match findOpcode inst with
  | none => .error .unsupportedRelocation
  | some i =>
    if isShortJcc (condOpcode inst i) ∨ isNearJcc (condOpcode inst i) then
      if i64FitsI32 (pcRelativeOperandTarget inst inst.operand0 - (relocatedAddress + 6)) then
        .ok { size := 6 }
      else if engine.config.mode = .x86_64 then .ok { size := 16 }
      else .error .branchOutOfRange
    else .error .unsupportedRelocation

def ripForm (inst : Inst) (relocatedAddress : BitVec 64) : Except Status EmitResult :=
  match findRipDisp inst, pcRelOperand inst with
  | some _, some operand =>
    if i64FitsI32 (pcRelativeOperandTarget inst operand -
        (relocatedAddress + BitVec.ofNat 64 inst.size)) then
      .ok { size := inst.size }
    else .error .branchOutOfRange
  | _, _ => .error .unsupportedRelocation

/-- What `x86_relocate` comes to. -/
def form (engine : Engine) (inst : Inst) (relocatedAddress : BitVec 64) : Except Status EmitResult :=
  if inst.instClass = .directCall ∨ inst.instClass = .directBranch ∨ inst.instClass = .condBranch then
    if inst.operands = [] then .error .unsupportedRelocation
    else if inst.instClass = .condBranch then condForm engine inst relocatedAddress
    else
      directForm engine (inst.instClass == .directCall) relocatedAddress
        (pcRelativeOperandTarget inst inst.operand0)
  else if inst.has InstFlag.pcRelative ∧ inst.operands ≠ [] then ripForm inst relocatedAddress
  else .ok { size := inst.size }

theorem patchBytes_length {code patch : List Byte} {offset : Nat}
    (h : offset + patch.length ≤ code.length) : (patchBytes code patch offset).length = code.length := by
  simp [patchBytes]
  omega

theorem findRipDisp_le {i : Nat} (h : findRipDisp inst = some i) : i + 4 ≤ inst.size := by
  unfold findRipDisp at h
  obtain ⟨j, -, hj⟩ := Option.bind_eq_some_iff.1 h
  split at hj
  · next hcond =>
    cases hj
    omega
  · cases hj

theorem relocateCond_comesTo (hops : inst.operands ≠ []) :
    ComesTo 0 (relocateCond engine inst relocatedAddress) (condForm engine inst relocatedAddress) := by
  unfold relocateCond condForm
  simp only [if_neg hops]
  cases findOpcode inst with
  | none => exact comesTo_status (by decide)
  | some i =>
    simp only
    refine .ite ?_ (comesTo_status (by decide))
    unfold emitJcc
    by_cases hfits : i64FitsI32
        (pcRelativeOperandTarget inst inst.operand0 - (relocatedAddress + 6)) = true
    · simp only [hfits, if_true]
      refine ⟨_, ?_, fun capacity => if_pos (emitBytes_settled _ _ _ _)⟩
      rfl
    · simp only [hfits, Bool.false_eq_true, if_false]
      by_cases hmode : engine.config.mode = .x86_64
      · rw [if_pos hmode]
        refine ⟨_, ?_, fun capacity => if_neg (by simp [hmode])⟩
        rfl
      · rw [if_neg hmode]
        exact comesTo_refused { size := 6 } (by decide) fun capacity => if_pos (.inr (.inr hmode))

theorem relocateRip_comesTo (hsize : inst.bytes.length = inst.size) :
    ComesTo 0 (relocateRip inst relocatedAddress) (ripForm inst relocatedAddress) := by
  unfold relocateRip ripForm
  cases hdisp : findRipDisp inst with
  | none => exact comesTo_status (by decide)
  | some dispOff =>
    cases pcRelOperand inst with
    | none => exact comesTo_status (by decide)
    | some operand =>
      simp only
      refine .ite (comesTo_emitBytes ?_) (comesTo_status (by decide))
      rw [patchBytes_length, hsize]
      rw [hsize, store32le_length]
      exact findRipDisp_le hdisp

theorem relocate_comesTo (harch : engine.target.arch = .x86) (hsize : inst.bytes.length = inst.size) :
    ComesTo 0 (relocate engine inst relocatedAddress) (form engine inst relocatedAddress) := by
  have hdirect : ∀ isCall, ComesTo 0 (relocateDirect engine isCall inst relocatedAddress)
      (if inst.operands = [] then .error .unsupportedRelocation
        else directForm engine isCall relocatedAddress (pcRelativeOperandTarget inst inst.operand0)) := by
    intro isCall
    by_cases hops : inst.operands = []
    · rw [if_pos hops]
      exact comesTo_refused {} (by decide) fun capacity => if_pos hops
    · rw [if_neg hops]
      rw [directForm_eq]
      exact (emitAny_comesTo harch).congr fun _ => relocateDirect_eq hops
  unfold relocate form
  split
  · next hclass =>
    simp only [hclass]
    exact hdirect true
  · next hclass =>
    simp only [hclass]
    exact hdirect false
  · next hclass =>
    simp only [hclass]
    by_cases hops : inst.operands = []
    · simp only [if_pos hops]
      exact comesTo_refused {} (by decide) fun capacity => if_pos hops
    · simp only [if_neg hops]
      exact relocateCond_comesTo hops
  · next hcall hjump hcond =>
    rw [if_neg (not_or.2 ⟨hcall, not_or.2 ⟨hjump, hcond⟩⟩)]
    exact (relocateRip_comesTo hsize).ite (comesTo_emitBytes hsize)

end X86

/-! ## ARM -/

namespace Arm

variable {engine : Engine} {inst : Inst} {relocatedAddress : BitVec 64} {capacity : Nat}

theorem relocateDirect_eq :
    relocateDirect engine inst relocatedAddress capacity =
      emitAny engine (inst.instClass == .directCall) relocatedAddress inst.operand0.absTarget none
        capacity := by
  unfold relocateDirect
  simp only
  by_cases hmode : engine.config.mode = .armA32
  · rw [emitAny_eq_a32 hmode]
    unfold emitRel
    simp only [if_pos hmode]
    by_cases hfits : i64FitsI24Words4 (relDispA32 relocatedAddress inst.operand0.absTarget) = true
    · simp only [hfits, if_true]
      rw [if_pos (emitBytes_settled _ _ _ _), if_pos ⟨by decide, trivial⟩]
    · simp [hfits, hmode, emitMode]
  · rw [emitAny_eq_thumb hmode, if_pos (.inr (.inr hmode))]
    unfold emitRel
    simp only [if_neg hmode]
    by_cases hthumb : engine.config.mode = .armThumb ∧ ¬ (inst.instClass == .directCall)
    · by_cases hfits : fitsThumb (relDispThumb relocatedAddress inst.operand0.absTarget) = true
      · simp [hthumb, hfits, emitMode]
      · simp [hthumb, hfits, emitMode]
    · have hnot : ¬ (emitMode none ≠ .absoluteOnly ∧
          (engine.config.mode = .armThumb ∧ ¬ (inst.instClass == .directCall)) ∧
          fitsThumb (relDispThumb relocatedAddress inst.operand0.absTarget) = true) :=
        fun h => hthumb h.2.1
      have hsize : ¬ (emitMode none ≠ .absoluteOnly ∧ engine.config.mode = .armThumb ∧
          ¬ (inst.instClass == .directCall)) := fun h => hthumb h.2
      simp only [if_neg hthumb, if_neg hnot, if_neg hsize]

/-- What `arm_relocate` comes to. -/
def form (engine : Engine) (inst : Inst) (relocatedAddress : BitVec 64) : Except Status EmitResult :=
  if inst.instClass = .armIt then .error .unsupportedRelocation
  else if inst.instClass = .directBranch ∨ inst.instClass = .directCall then
    directForm engine (inst.instClass == .directCall) relocatedAddress inst.operand0.absTarget
  else if inst.has InstFlag.pcRelative then .error .unsupportedRelocation
  else .ok { size := inst.size }

theorem relocate_comesTo (harch : engine.target.arch = .arm) (hsize : inst.bytes.length = inst.size) :
    ComesTo 0 (relocate engine inst relocatedAddress) (form engine inst relocatedAddress) := by
  have hdirect : ComesTo 0 (relocateDirect engine inst relocatedAddress)
      (directForm engine (inst.instClass == .directCall) relocatedAddress inst.operand0.absTarget) := by
    rw [directForm_eq]
    exact (emitAny_comesTo harch).congr fun _ => relocateDirect_eq
  unfold relocate form
  exact .ite (comesTo_status (by decide)) (.ite hdirect (.ite (comesTo_status (by decide))
    (comesTo_emitBytes hsize)))

end Arm

/-! ## AArch64 -/

namespace A64

variable {engine : Engine} {inst : Inst} {relocatedAddress : BitVec 64} {capacity : Nat}

theorem relocate_direct_eq {operand : Operand} (hpc : findPcRelOperand inst = some operand)
    (hdirect : isUnconditionalPcBranchOrCall inst = true) :
    relocate inst relocatedAddress capacity =
      emitAny (isCall inst) relocatedAddress (operandTarget inst operand) none capacity := by
  unfold relocate
  simp only [hpc, hdirect, if_true]
  rw [emitAny_eq]
  unfold emitRel emitAbs
  by_cases hfits : i64FitsI26Words4 (relDisp relocatedAddress (operandTarget inst operand)) = true
  · have hsettled := emitBytes_settled { size := 4 } (store32le (relWord (isCall inst)
      (relDisp relocatedAddress (operandTarget inst operand)))) capacity False
    rw [or_false] at hsettled
    simp only [hfits, if_true]
    rw [if_pos hsettled, if_pos ⟨by decide, trivial⟩]
  · simp [hfits, emitMode]

theorem expandConditionalAbs_eq (target : BitVec 64) :
    expandConditionalAbs inst target capacity =
      emitBytes { size := 20, clobberMaskLo := x16Mask }
        (store32le (invertConditionalToSkip inst) ++ absCode false target) capacity := by
  unfold expandConditionalAbs emitBytes
  simp only
  split
  · rfl
  · have hroom : absResult.size ≤ capacity - 4 := by
      show 16 ≤ capacity - 4
      omega
    rw [emitAbs, emitBytes_ok hroom, if_neg (not_not_intro rfl)]
    have hmask : x16Mask ||| x16Mask = x16Mask := by decide
    simp only [absResult, hmask, BitVec.or_self]

/-- The distance is out of the range of the word. -/
def outOfReach (inst : Inst) (disp : BitVec 64) : Prop :=
  disp.toInt < rangeMin inst ∨ rangeMax inst < disp.toInt

instance (inst : Inst) (disp : BitVec 64) : Decidable (outOfReach inst disp) :=
  inferInstanceAs (Decidable (_ ∨ _))

/-- The offset is set anew, or a conditional branch is expanded. -/
def pcRelForm (inst : Inst) (target relocatedAddress : BitVec 64) : Except Status EmitResult :=
  match relocDisp inst target relocatedAddress with
  | none => .error .unsupportedRelocation
  | some disp =>
    if outOfReach inst disp then
      if isConditionalPcBranch inst then .ok { size := 20, clobberMaskLo := x16Mask }
      else .error .branchOutOfRange
    else if (patchWord (load32le inst.bytes) disp).isSome then .ok { size := 4 }
    else .error .unsupportedRelocation

/-- What a refusal of `pcRelForm` asks for: the room is checked before the word. -/
def pcRelRoom (inst : Inst) (target relocatedAddress : BitVec 64) : Nat :=
  match relocDisp inst target relocatedAddress with
  | none => 0
  | some disp => if outOfReach inst disp then 0 else 4

/-- What `a64_relocate` comes to. -/
def form (engine : Engine) (inst : Inst) (relocatedAddress : BitVec 64) : Except Status EmitResult :=
  match findPcRelOperand inst with
  | none =>
    if isUnconditionalPcBranchOrCall inst then .error .unsupportedRelocation
    else .ok { size := inst.size }
  | some operand =>
    if isUnconditionalPcBranchOrCall inst then
      directForm engine (isCall inst) relocatedAddress (operandTarget inst operand)
    else if inst.has InstFlag.pcRelative then
      pcRelForm inst (operandTarget inst operand) relocatedAddress
    else .ok { size := inst.size }

def refusalRoom (inst : Inst) (relocatedAddress : BitVec 64) : Nat :=
  match findPcRelOperand inst with
  | none => 0
  | some operand =>
    if isUnconditionalPcBranchOrCall inst then 0
    else pcRelRoom inst (operandTarget inst operand) relocatedAddress

theorem patchWord_comesTo (word : Option (BitVec 32)) : ComesTo 4 (fun capacity =>
    if capacity < 4 then { status := .outputTooSmall, result := { size := 4 } }
    else match word with
      | none => { status := .unsupportedRelocation, result := { size := 4 } }
      | some w => { status := .ok, result := { size := 4 }, code := store32le w })
    (if word.isSome then .ok { size := 4 } else .error .unsupportedRelocation) := by
  cases word with
  | none =>
    refine ⟨⟨fun capacity => ?_, fun capacity => ?_⟩, fun capacity => ?_⟩
    · dsimp only
      split <;> decide
    · dsimp only
      split <;> exact Nat.zero_le capacity
    · dsimp only
      split <;> rfl
  | some w => exact ⟨store32le w, store32le_length w, fun capacity => rfl⟩

theorem relocate_comesTo (harch : engine.target.arch = .aarch64)
    (hsize : inst.bytes.length = inst.size) :
    ComesTo (refusalRoom inst relocatedAddress) (relocate inst relocatedAddress)
      (form engine inst relocatedAddress) := by
  unfold form refusalRoom
  cases hpc : findPcRelOperand inst with
  | none =>
    unfold relocate
    simp only [hpc]
    exact (comesTo_status (by decide)).ite (comesTo_emitBytes hsize)
  | some operand =>
    by_cases hdirect : isUnconditionalPcBranchOrCall inst = true
    · simp only [if_pos hdirect]
      rw [directForm_eq]
      exact (emitAny_comesTo harch).congr fun _ => relocate_direct_eq hpc hdirect
    unfold relocate
    simp only [hpc, if_neg hdirect]
    refine .ite ?_ (comesTo_emitBytes hsize)
    unfold pcRelForm pcRelRoom
    cases relocDisp inst (operandTarget inst operand) relocatedAddress with
    | none => exact comesTo_status (by decide)
    | some disp =>
      by_cases hreach : outOfReach inst disp
      · simp only [if_pos hreach]
        have hexpand : ComesTo 0 (expandConditionalAbs inst (operandTarget inst operand))
            (.ok { size := 20, clobberMaskLo := x16Mask }) :=
          ⟨_, by simp, fun _ => expandConditionalAbs_eq _⟩
        have hrefused : ComesTo 0 (fun _ => ({ status := .branchOutOfRange } : EmitOut))
            (.error .branchOutOfRange) := comesTo_status (by decide)
        exact (hexpand.ite hrefused).congr fun _ => if_pos hreach
      · simp only [if_neg hreach]
        exact (patchWord_comesTo _).congr fun _ => if_neg hreach

end A64

/-! ## Any target -/

/-- What the relocator of the target comes to. -/
def relocForm (engine : Engine) (inst : Inst) (relocatedAddress : BitVec 64) : Except Status EmitResult :=
  match engine.target.arch with
  | .x86 => X86.form engine inst relocatedAddress
  | .arm => Arm.form engine inst relocatedAddress
  | .aarch64 => A64.form engine inst relocatedAddress
  | .bpf | .wasm => .error .unsupportedTargetOperation

/-- The room the relocator of the target asks for before it refuses. -/
def refusalRoom (engine : Engine) (inst : Inst) (relocatedAddress : BitVec 64) : Nat :=
  match engine.target.arch with
  | .aarch64 => A64.refusalRoom inst relocatedAddress
  | .x86 | .arm | .bpf | .wasm => 0

variable {engine : Engine} {inst : Inst} {relocatedAddress : BitVec 64}

theorem relocateInst_comesTo (hsize : inst.bytes.length = inst.size) :
    ComesTo (refusalRoom engine inst relocatedAddress) (relocateInst engine inst relocatedAddress)
      (relocForm engine inst relocatedAddress) := by
  unfold relocateInst relocForm refusalRoom
  cases harch : engine.target.arch with
  | x86 => exact X86.relocate_comesTo harch hsize
  | arm => exact Arm.relocate_comesTo harch hsize
  | aarch64 => exact A64.relocate_comesTo harch hsize
  | bpf | wasm => exact comesTo_status (by decide)

theorem relocateInst_steady (hsize : inst.bytes.length = inst.size) :
    Steady (relocateInst engine inst relocatedAddress) :=
  (relocateInst_comesTo hsize).steady

end AsmKit
