import AsmKit.Encode.Emit

/-!
# Which clobbers are permitted

The check behind the emitters, and what the emitters refuse ahead of it. A target refuses a register
only where its relative form cannot be used and its absolute form needs the register.
-/

namespace AsmKit

/-! ## Permission -/

/-- The options forbid a register that the sequence clobbers. -/
def Forbids (options : EmitOptions) (result : EmitResult) : Prop :=
  (options.mode = .preferClobberless ∧ (result.clobberMaskLo ≠ 0 ∨ result.clobberMaskHi ≠ 0)) ∨
    result.clobberMaskLo &&& ~~~options.allowedClobberMaskLo ≠ 0 ∨
    result.clobberMaskHi &&& ~~~options.allowedClobberMaskHi ≠ 0

theorem emitResultClobbersAllowed_iff {options : EmitOptions} {result : EmitResult} :
    emitResultClobbersAllowed (some options) result = true ↔ ¬ Forbids options result := by
  unfold emitResultClobbersAllowed Forbids
  by_cases hnone : result.clobberMaskLo = 0 ∧ result.clobberMaskHi = 0
  · simp [hnone]
  · rw [if_neg hnone]
    simp only [decide_eq_true_iff, not_or, not_and, ne_eq, not_not]
    constructor
    · rintro ⟨hmode, hlo, hhi⟩
      exact ⟨fun h => absurd h hmode, hlo, hhi⟩
    · rintro ⟨hmode, hlo, hhi⟩
      exact ⟨fun h => hnone (hmode h), hlo, hhi⟩

theorem not_forbids {options : EmitOptions} {result : EmitResult} (hlo : result.clobberMaskLo = 0)
    (hhi : result.clobberMaskHi = 0) : ¬ Forbids options result := by
  simp [Forbids, hlo, hhi]

/-! ## The forms of a mode -/

/-- The distance is in the range of the relative form, where the mode has one. -/
def relativeInRange (engine : Engine) (isCall : Bool) (fromAddress toAddress : BitVec 64) : Bool :=
  match engine.target.arch with
  | .x86 => X86.fitsDirect engine (X86.relDisp engine fromAddress toAddress)
  | .arm =>
    if engine.config.mode = .armA32 then
      i64FitsI24Words4 (Arm.relDispA32 fromAddress toAddress)
    else !isCall && Arm.fitsThumb (Arm.relDispThumb fromAddress toAddress)
  | .aarch64 => i64FitsI26Words4 (A64.relDisp fromAddress toAddress)
  | .bpf | .wasm => false

def relativeUsable (engine : Engine) (isCall : Bool) (fromAddress toAddress : BitVec 64)
    (mode : BranchMode) : Bool :=
  mode != .absoluteOnly && relativeInRange engine isCall fromAddress toAddress

section

variable {engine : Engine} {isCall : Bool} {fromAddress toAddress : BitVec 64}
  {options : Option EmitOptions}

theorem relativeUsable_iff : relativeUsable engine isCall fromAddress toAddress (emitMode options) = true ↔
    emitMode options ≠ .absoluteOnly ∧ relativeInRange engine isCall fromAddress toAddress = true := by
  rw [relativeUsable, Bool.and_eq_true, bne_iff_ne]

theorem not_relativeUsable {b : Bool} (hrange : relativeInRange engine isCall fromAddress toAddress = b)
    (h : ¬ (emitMode options ≠ .absoluteOnly ∧ b = true)) :
    relativeUsable engine isCall fromAddress toAddress (emitMode options) = false := by
  rw [← Bool.not_eq_true, relativeUsable_iff, hrange]
  exact h

end

/-- The size of the relative form. -/
def relativeSize (engine : Engine) : Nat :=
  match engine.target.arch with
  | .x86 => X86.directSize engine
  | .arm => if engine.config.mode = .armA32 then 4 else 2
  | .aarch64 | .bpf | .wasm => 4

/-- What the absolute form reports, where the mode has one. -/
def absoluteForm (engine : Engine) (isCall : Bool) : Option EmitResult :=
  match engine.target.arch with
  | .x86 => if engine.config.mode = .x86_64 then some { size := 14 } else none
  | .arm => if engine.config.mode = .armA32 then some (Arm.absResultA32 isCall) else none
  | .aarch64 => some A64.absResult
  | .bpf | .wasm => none

/-- Nothing forbidden is emitted, and only what needs a forbidden register is refused for it. -/
structure Permitted (engine : Engine) (isCall : Bool) (fromAddress toAddress : BitVec 64)
    (options : EmitOptions) (out : EmitOut) : Prop where
  sound : out.status = .ok → ¬ Forbids options out.result
  complete : out.status = .forbiddenClobber →
    relativeUsable engine isCall fromAddress toAddress options.mode = false ∧
      ∃ result, absoluteForm engine isCall = some result ∧ Forbids options result

variable {engine : Engine} {isCall : Bool} {fromAddress toAddress : BitVec 64} {options : EmitOptions}
  {capacity : Nat} {out : EmitOut}

theorem permitted_emitFinish
    (hcomplete : out.status = .forbiddenClobber ∨ (out.status = .ok ∧ Forbids options out.result) →
      relativeUsable engine isCall fromAddress toAddress options.mode = false ∧
        ∃ result, absoluteForm engine isCall = some result ∧ Forbids options result) :
    Permitted engine isCall fromAddress toAddress options (emitFinish out (some options)) := by
  constructor
  · intro hok hforbids
    obtain ⟨hsame, hout⟩ := emitFinish_of_ok hok
    rw [hsame] at hforbids
    unfold emitFinish at hok
    rw [if_pos ⟨hout, fun h => emitResultClobbersAllowed_iff.1 h hforbids⟩] at hok
    cases hok
  · intro hstatus
    apply hcomplete
    unfold emitFinish at hstatus
    split at hstatus
    · next h =>
      refine .inr ⟨h.1, ?_⟩
      by_contra hnot
      exact h.2 (emitResultClobbersAllowed_iff.2 hnot)
    · exact .inl hstatus

/-! ## The targets -/

theorem emitBytes_ne_forbidden {result : EmitResult} {code : List Byte} :
    (emitBytes result code capacity).status ≠ .forbiddenClobber := by
  unfold emitBytes
  split <;> nofun

theorem complete_of_emitBytes {p : Prop} {result : EmitResult} {code : List Byte}
    (hlo : result.clobberMaskLo = 0) (hhi : result.clobberMaskHi = 0)
    (h : (emitBytes result code capacity).status = .forbiddenClobber ∨
      ((emitBytes result code capacity).status = .ok ∧
        Forbids options (emitBytes result code capacity).result)) : p := by
  rcases h with h | ⟨-, h⟩
  · exact absurd h emitBytes_ne_forbidden
  · rw [emitBytes_result] at h
    exact absurd h (not_forbids hlo hhi)

theorem x86_permitted :
    Permitted engine isCall fromAddress toAddress options
      (emitFinish (X86.emitAny engine isCall fromAddress toAddress (some options) capacity)
        (some options)) := by
  refine permitted_emitFinish fun h => ?_
  rw [X86.emitAny_eq] at h
  split at h
  · exact complete_of_emitBytes rfl rfl h
  split at h
  · rcases h with h | ⟨h, -⟩ <;> cases h
  · exact complete_of_emitBytes rfl rfl h

theorem A64.forbids_absResult (h : options.mode = .preferClobberless ∨
    options.allowedClobberMaskLo &&& A64.x16Mask = 0) : Forbids options A64.absResult := by
  rcases h with hmode | hlo
  · have hmask : A64.x16Mask ≠ 0 := by decide
    exact .inl ⟨hmode, .inl hmask⟩
  · -- The register is not among the permitted ones, so it is among the others.
    refine .inr (.inl fun h => ?_)
    have hset : A64.x16Mask.getLsbD 16 = true := by decide
    have hnot : options.allowedClobberMaskLo.getLsbD 16 = false := by
      have hbit : (options.allowedClobberMaskLo &&& A64.x16Mask).getLsbD 16 = false := by
        rw [hlo]
        rfl
      rwa [BitVec.getLsbD_and, hset, Bool.and_true] at hbit
    have hbit : (A64.x16Mask &&& ~~~options.allowedClobberMaskLo).getLsbD 16 = true := by
      rw [BitVec.getLsbD_and, BitVec.getLsbD_not, hset, hnot]
      rfl
    rw [show A64.x16Mask &&& ~~~options.allowedClobberMaskLo = 0 from h] at hbit
    cases hbit

theorem a64_permitted (harch : engine.target.arch = .aarch64) :
    Permitted engine isCall fromAddress toAddress options
      (emitFinish (A64.emitAny isCall fromAddress toAddress (some options) capacity)
        (some options)) := by
  have habs : absoluteForm engine isCall = some A64.absResult := by
    rw [absoluteForm, harch]
  have hrange : relativeInRange engine isCall fromAddress toAddress =
      i64FitsI26Words4 (A64.relDisp fromAddress toAddress) := by
    rw [relativeInRange, harch]
  refine permitted_emitFinish fun h => ?_
  rw [A64.emitAny_eq] at h
  split at h
  · exact complete_of_emitBytes rfl rfl h
  next hrel =>
  refine ⟨not_relativeUsable hrange hrel, A64.absResult, habs, ?_⟩
  split at h
  · rcases h with h | ⟨h, -⟩ <;> cases h
  split at h
  · next hclobber =>
    exact A64.forbids_absResult (hclobber.imp_right fun ⟨_, _, ho, hlo⟩ => by cases ho; exact hlo)
  · rcases h with h | ⟨-, h⟩
    · exact absurd h emitBytes_ne_forbidden
    · rwa [emitBytes_result] at h

theorem arm_permitted (harch : engine.target.arch = .arm) :
    Permitted engine isCall fromAddress toAddress options
      (emitFinish (Arm.emitAny engine isCall fromAddress toAddress (some options) capacity)
        (some options)) := by
  refine permitted_emitFinish fun h => ?_
  by_cases hmode : engine.config.mode = .armA32
  · have habs : absoluteForm engine isCall = some (Arm.absResultA32 isCall) := by
      rw [absoluteForm, harch]
      exact if_pos hmode
    have hrange : relativeInRange engine isCall fromAddress toAddress =
        i64FitsI24Words4 (Arm.relDispA32 fromAddress toAddress) := by
      rw [relativeInRange, harch]
      exact if_pos hmode
    rw [Arm.emitAny_eq_a32 hmode] at h
    split at h
    · exact complete_of_emitBytes rfl rfl h
    next hrel =>
    refine ⟨not_relativeUsable hrange hrel, _, habs, ?_⟩
    split at h
    · rcases h with h | ⟨h, -⟩ <;> cases h
    · rcases h with h | ⟨-, h⟩
      · exact absurd h emitBytes_ne_forbidden
      · rwa [Arm.emitAbsA32, emitBytes_result] at h
  · rw [Arm.emitAny_eq_thumb hmode] at h
    split at h
    · exact complete_of_emitBytes rfl rfl h
    · rcases h with h | ⟨h, -⟩ <;> cases h

/-! ## `asmkit_emit_jump` and `asmkit_emit_call` -/

theorem permitted_unsupported : Permitted engine isCall fromAddress toAddress options
    (emitFinish { status := .unsupportedTargetOperation } (some options)) :=
  permitted_emitFinish (by rintro (h | ⟨h, -⟩) <;> cases h)

theorem emitJump_permitted : Permitted engine false fromAddress toAddress options
    (emitJump engine fromAddress toAddress (some options) capacity) := by
  unfold emitJump
  cases harch : engine.target.arch with
  | x86 => exact x86_permitted
  | arm => exact arm_permitted harch
  | aarch64 => exact a64_permitted harch
  | bpf | wasm => exact permitted_unsupported

theorem emitCall_permitted : Permitted engine true fromAddress toAddress options
    (emitCall engine fromAddress toAddress (some options) capacity) := by
  unfold emitCall
  cases harch : engine.target.arch with
  | x86 => exact x86_permitted
  | arm => exact arm_permitted harch
  | aarch64 => exact a64_permitted harch
  | bpf | wasm => exact permitted_unsupported

end AsmKit
