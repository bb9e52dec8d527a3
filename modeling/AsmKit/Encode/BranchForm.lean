import AsmKit.Encode.Capacity
import AsmKit.Encode.Permission

/-!
# The form of a branch

What the emitter of a target comes to, ahead of the check of the clobbers.
-/

namespace AsmKit

/-- The emitter of the target, which `asmkit_emit_jump` and `asmkit_emit_call` finish. -/
def emitTarget (engine : Engine) (isCall : Bool) (fromAddress toAddress : BitVec 64)
    (options : Option EmitOptions) (capacity : Nat) : EmitOut :=
  match engine.target.arch with
  | .x86 => X86.emitAny engine isCall fromAddress toAddress options capacity
  | .arm => Arm.emitAny engine isCall fromAddress toAddress options capacity
  | .aarch64 => A64.emitAny isCall fromAddress toAddress options capacity
  | .bpf | .wasm => { status := .unsupportedTargetOperation }

/-- What `a64_emit_any` refuses ahead of the check of the clobbers. -/
def ScratchRefused (engine : Engine) (options : EmitOptions) : Prop :=
  engine.target.arch = .aarch64 ∧ (options.mode = .preferClobberless ∨
    (options.mode = .allowScratchClobber ∧ options.allowedClobberMaskLo &&& A64.x16Mask = 0))

instance (engine : Engine) (options : EmitOptions) : Decidable (ScratchRefused engine options) :=
  inferInstanceAs (Decidable (_ ∧ _))

/-- The relative form where it can be used, else the absolute one. -/
def branchForm (engine : Engine) (isCall : Bool) (fromAddress toAddress : BitVec 64)
    (options : Option EmitOptions) : Except Status EmitResult :=
  if relativeUsable engine isCall fromAddress toAddress (emitMode options) then
    .ok { size := relativeSize engine }
  else if emitMode options = .directOnly then .error .branchOutOfRange
  else
    match absoluteForm engine isCall with
    | none => .error .branchOutOfRange
    | some result =>
      if ∃ o ∈ options, ScratchRefused engine o then .error .forbiddenClobber else .ok result

variable {engine : Engine} {isCall : Bool} {fromAddress toAddress : BitVec 64}
  {options : Option EmitOptions} {capacity : Nat}

theorem emitJump_eq : emitJump engine fromAddress toAddress options capacity =
    emitFinish (emitTarget engine false fromAddress toAddress options capacity) options := rfl

/-! ## The targets -/

theorem X86.emitAny_comesTo (harch : engine.target.arch = .x86) :
    ComesTo 0 (X86.emitAny engine isCall fromAddress toAddress options)
      (branchForm engine isCall fromAddress toAddress options) := by
  unfold branchForm relativeUsable relativeInRange relativeSize absoluteForm ScratchRefused
  simp only [harch, reduceCtorEq, false_and, and_false, exists_false, if_false]
  refine .congr ?_ fun _ => emitAny_eq
  simp only [Bool.and_eq_true, bne_iff_ne]
  refine .ite (comesTo_emitBytes (relCode_length _)) ?_
  have hrefused : ComesTo 0 (fun _ => ({ status := .branchOutOfRange } : EmitOut))
      (.error .branchOutOfRange) := comesTo_status (by decide)
  by_cases hmode : engine.config.mode = .x86_64
  · simp only [hmode, ne_eq, not_true, or_false, if_true]
    exact .ite hrefused (comesTo_emitBytes absCode_length)
  · simp only [hmode, ne_eq, not_false_iff, or_true, if_false, if_true, ite_self]
    exact hrefused

theorem Arm.emitAny_comesTo (harch : engine.target.arch = .arm) :
    ComesTo 0 (Arm.emitAny engine isCall fromAddress toAddress options)
      (branchForm engine isCall fromAddress toAddress options) := by
  unfold branchForm relativeUsable relativeInRange relativeSize absoluteForm ScratchRefused
  simp only [harch, reduceCtorEq, false_and, and_false, exists_false, if_false]
  by_cases hmode : engine.config.mode = .armA32
  · refine .congr ?_ fun _ => emitAny_eq_a32 hmode
    simp only [Bool.and_eq_true, bne_iff_ne, if_pos hmode]
    exact .ite (comesTo_emitBytes (store32le_length _)) (.ite (comesTo_status (by decide))
      (comesTo_emitBytes absCodeA32_length))
  · have hthumb : engine.config.mode = .armThumb := (engine.mode_of_arm harch).resolve_left hmode
    refine .congr ?_ fun _ => emitAny_eq_thumb hmode
    simp only [hthumb, Bool.and_eq_true, bne_iff_ne, reduceCtorEq, if_false, ite_self, true_and,
      Bool.not_eq_true', Bool.not_eq_true]
    exact .ite (comesTo_emitBytes (store16le_length _)) (comesTo_status nofun)

theorem scratchRefused_iff (harch : engine.target.arch = .aarch64) :
    (∃ o ∈ options, ScratchRefused engine o) ↔ emitMode options = .preferClobberless ∨
      (emitMode options = .allowScratchClobber ∧
        ∃ o ∈ options, o.allowedClobberMaskLo &&& A64.x16Mask = 0) := by
  cases options <;> simp [ScratchRefused, emitMode, harch]

theorem A64.emitAny_comesTo (harch : engine.target.arch = .aarch64) :
    ComesTo 0 (A64.emitAny isCall fromAddress toAddress options)
      (branchForm engine isCall fromAddress toAddress options) := by
  unfold branchForm
  simp only [scratchRefused_iff harch]
  unfold relativeUsable relativeInRange relativeSize absoluteForm
  simp only [harch, Bool.and_eq_true, bne_iff_ne]
  refine .congr ?_ fun _ => emitAny_eq
  exact .ite (comesTo_emitBytes (store32le_length _)) (.ite (comesTo_status (by decide))
    (.ite (comesTo_status (by decide)) (comesTo_emitBytes absCode_length)))

/-- The emitter of a native target comes to the form. -/
theorem emitTarget_comesTo (hbpf : engine.target.arch ≠ .bpf) (hwasm : engine.target.arch ≠ .wasm) :
    ComesTo 0 (emitTarget engine isCall fromAddress toAddress options)
      (branchForm engine isCall fromAddress toAddress options) := by
  unfold emitTarget
  cases harch : engine.target.arch with
  | x86 => exact X86.emitAny_comesTo harch
  | arm => exact Arm.emitAny_comesTo harch
  | aarch64 => exact A64.emitAny_comesTo harch
  | bpf => exact absurd harch hbpf
  | wasm => exact absurd harch hwasm

theorem emitTarget_steady : Steady (emitTarget engine isCall fromAddress toAddress options) := by
  by_cases hnative : engine.target.arch ≠ .bpf ∧ engine.target.arch ≠ .wasm
  · exact (emitTarget_comesTo hnative.1 hnative.2).steady
  · unfold emitTarget
    cases harch : engine.target.arch with
    | x86 | arm | aarch64 => exact absurd ⟨by simp [harch], by simp [harch]⟩ hnative
    | bpf | wasm => exact steady_status (by decide)

theorem emitJump_steady : Steady (emitJump engine fromAddress toAddress options) :=
  emitTarget_steady.emitFinish options

theorem emitCall_steady : Steady (emitCall engine fromAddress toAddress options) :=
  emitTarget_steady.emitFinish options

/-! ## The form -/

theorem relativeSize_pos : 0 < relativeSize engine := by
  unfold relativeSize X86.directSize
  split
  · split <;> decide
  · split <;> decide
  all_goals decide

theorem relativeSize_le : relativeSize engine ≤ 5 := by
  unfold relativeSize X86.directSize
  split
  · split <;> decide
  · split <;> decide
  all_goals decide

theorem absoluteForm_spec {result : EmitResult} (h : absoluteForm engine isCall = some result) :
    0 < result.size ∧ result.size ≤ 16 ∧ result.clobberMaskHi = 0 := by
  unfold absoluteForm at h
  split at h
  · split at h <;> cases h
    decide
  · split at h <;> cases h
    unfold Arm.absResultA32
    split <;> decide
  · cases h
    decide
  · cases h
  · cases h

theorem branchForm_cases {result : EmitResult}
    (h : branchForm engine isCall fromAddress toAddress options = .ok result) :
    result = { size := relativeSize engine } ∨ absoluteForm engine isCall = some result := by
  unfold branchForm at h
  split at h
  · cases h
    exact .inl rfl
  split at h
  · cases h
  split at h
  · cases h
  next form habs =>
  split at h
  · cases h
  · cases h
    exact .inr habs

theorem branchForm_size_pos {result : EmitResult}
    (h : branchForm engine isCall fromAddress toAddress options = .ok result) : 0 < result.size := by
  rcases branchForm_cases h with rfl | habs
  · exact relativeSize_pos
  · exact (absoluteForm_spec habs).1

theorem branchForm_error {status : Status}
    (h : branchForm engine isCall fromAddress toAddress options = .error status) :
    status = .branchOutOfRange ∨ status = .forbiddenClobber := by
  unfold branchForm at h
  split at h
  · cases h
  split at h
  · cases h
    exact .inl rfl
  split at h
  · cases h
    exact .inl rfl
  split at h
  · cases h
    exact .inr rfl
  · cases h

end AsmKit
