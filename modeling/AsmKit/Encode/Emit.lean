import AsmKit.A64.Emit
import AsmKit.Arm.Emit
import AsmKit.X86.Emit

/-!
# `asmkit_emit_jump` and `asmkit_emit_call`

The target's emitter, then the check of the clobbered registers against the caller's permission.
-/

namespace AsmKit

def emitResultClobbersAllowed (options : Option EmitOptions) (result : EmitResult) : Bool :=
  if result.clobberMaskLo = 0 ∧ result.clobberMaskHi = 0 then true
  else
    match options with
    | none => true
    | some o =>
      o.mode ≠ .preferClobberless ∧
        result.clobberMaskLo &&& ~~~o.allowedClobberMaskLo = 0 ∧
        result.clobberMaskHi &&& ~~~o.allowedClobberMaskHi = 0

/-- `asmkit_emit_finish`. The bytes stay in the buffer even when they are forbidden. -/
def emitFinish (out : EmitOut) (options : Option EmitOptions) : EmitOut :=
  if out.status = .ok ∧ ¬ emitResultClobbersAllowed options out.result then
    { out with status := .forbiddenClobber }
  else out

def emitJump (engine : Engine) (fromAddress toAddress : BitVec 64) (options : Option EmitOptions)
    (capacity : Nat) : EmitOut :=
  let out : EmitOut := match engine.target.arch with
    | .x86 => X86.emitJump engine fromAddress toAddress options capacity
    | .arm => Arm.emitJump engine fromAddress toAddress options capacity
    | .aarch64 => A64.emitJump fromAddress toAddress options capacity
    | .bpf | .wasm => { status := .unsupportedTargetOperation }
  emitFinish out options

def emitCall (engine : Engine) (fromAddress toAddress : BitVec 64) (options : Option EmitOptions)
    (capacity : Nat) : EmitOut :=
  let out : EmitOut := match engine.target.arch with
    | .x86 => X86.emitCall engine fromAddress toAddress options capacity
    | .arm => Arm.emitCall engine fromAddress toAddress options capacity
    | .aarch64 => A64.emitCall fromAddress toAddress options capacity
    | .bpf | .wasm => { status := .unsupportedTargetOperation }
  emitFinish out options

theorem emitFinish_of_ok {out : EmitOut} {options : Option EmitOptions}
    (h : (emitFinish out options).status = .ok) : emitFinish out options = out ∧ out.status = .ok := by
  unfold emitFinish at h ⊢
  split at h
  · cases h
  · next hnot =>
    rw [if_neg hnot]
    exact ⟨rfl, h⟩

end AsmKit
