import AsmKit.Encode.Room
import AsmKit.Encode.Transfer
import AsmKit.Relocate.Forms

/-!
# Retrying and failing

What a caller who retries with the reported size can rely on, and what a call that fails has left in
the buffer.
-/

namespace AsmKit

/-! ## The relocators wait -/

section

variable {engine : Engine} {inst : Inst} {relocatedAddress : BitVec 64} {capacity : Nat}

theorem X86.emitJccOrAbs_eq {op : Byte} {target : BitVec 64} :
    (let jcc := emitJcc (op &&& 0x0f) relocatedAddress target capacity
      if jcc.status = .ok ∨ jcc.status = .outputTooSmall ∨ engine.config.mode ≠ .x86_64 then jcc
      else emitJccAbs op target capacity) =
    if i64FitsI32 (target - (relocatedAddress + 6)) then
      emitJcc (op &&& 0x0f) relocatedAddress target capacity
    else if engine.config.mode = .x86_64 then emitJccAbs op target capacity
    else { status := .branchOutOfRange, result := { size := 6 } } := by
  unfold emitJcc
  by_cases hfits : i64FitsI32 (target - (relocatedAddress + 6)) = true
  · simp only [hfits, if_true]
    exact if_pos (emitBytes_settled _ _ _ _)
  · simp only [if_neg hfits]
    by_cases hmode : engine.config.mode = .x86_64 <;> simp [hmode]

theorem X86.relocateCond_waits : WaitsClean (relocateCond engine inst relocatedAddress) := by
  unfold relocateCond
  refine .ite (waitsClean_status nofun nofun) ?_
  cases findOpcode inst with
  | none => exact waitsClean_status nofun nofun
  | some i =>
    refine .ite (.congr ?_ fun _ => emitJccOrAbs_eq) (waitsClean_status nofun nofun)
    unfold emitJcc emitJccAbs
    by_cases hfits : i64FitsI32
        (pcRelativeOperandTarget inst inst.operand0 - (relocatedAddress + 6)) = true
    · simp only [hfits, if_true]
      exact waitsClean_emitBytes
    · simp only [hfits, Bool.false_eq_true, if_false]
      exact .ite waitsClean_emitBytes (waitsClean_status nofun nofun)

theorem X86.relocateRip_waits : WaitsClean (relocateRip inst relocatedAddress) := by
  unfold relocateRip
  cases findRipDisp inst with
  | none => exact waitsClean_status nofun nofun
  | some dispOff =>
    cases pcRelOperand inst with
    | none => exact waitsClean_status nofun nofun
    | some operand => exact .ite waitsClean_emitBytes (waitsClean_status nofun nofun)

theorem X86.relocateDirect_waits {isCall : Bool} :
    WaitsClean (relocateDirect engine isCall inst relocatedAddress) := by
  by_cases hops : inst.operands = []
  · have hrefused : WaitsClean fun _ => ({ status := .unsupportedRelocation } : EmitOut) :=
      waitsClean_status nofun nofun
    exact hrefused.congr fun _ => if_pos hops
  · exact .congr emitAny_waits fun _ => relocateDirect_eq hops

theorem X86.relocate_waits : WaitsClean (relocate engine inst relocatedAddress) := by
  unfold relocate
  split
  · exact relocateDirect_waits
  · exact relocateDirect_waits
  · exact relocateCond_waits
  · exact .ite relocateRip_waits waitsClean_emitBytes

theorem Arm.relocate_waits : WaitsClean (relocate engine inst relocatedAddress) := by
  have hdirect : WaitsClean (relocateDirect engine inst relocatedAddress) :=
    .congr emitAny_waits fun _ => relocateDirect_eq
  unfold relocate
  exact .ite (waitsClean_status nofun nofun) (.ite hdirect
    (.ite (waitsClean_status nofun nofun) waitsClean_emitBytes))

theorem A64.patchWord_waits (word : Option (BitVec 32)) : WaitsClean fun capacity =>
    if capacity < 4 then { status := .outputTooSmall, result := { size := 4 } }
    else match word with
      | none => { status := .unsupportedRelocation, result := { size := 4 } }
      | some w => { status := .ok, result := { size := 4 }, code := store32le w } := by
  refine ⟨{ size := 4 }, match word with
    | none => { status := .unsupportedRelocation, result := { size := 4 } }
    | some w => { status := .ok, result := { size := 4 }, code := store32le w }, ?_⟩
  cases word with
  | none => exact ⟨⟨nofun, fun _ => rfl, fun _ => rfl⟩, fun _ => rfl⟩
  | some w => exact ⟨⟨nofun, fun _ => rfl, fun _ => rfl⟩, fun h => absurd rfl h⟩

theorem A64.relocate_waits : WaitsClean (relocate inst relocatedAddress) := by
  cases hpc : findPcRelOperand inst with
  | none =>
    unfold relocate
    simp only [hpc]
    exact .ite (waitsClean_status nofun nofun) waitsClean_emitBytes
  | some operand =>
    by_cases hdirect : isUnconditionalPcBranchOrCall inst = true
    · exact .congr emitAny_waits fun _ => relocate_direct_eq hpc hdirect
    unfold relocate
    simp only [hpc, if_neg hdirect]
    refine .ite ?_ waitsClean_emitBytes
    cases relocDisp inst (operandTarget inst operand) relocatedAddress with
    | none => exact waitsClean_status nofun nofun
    | some disp =>
      have hexpand : WaitsClean (expandConditionalAbs inst (operandTarget inst operand)) :=
        .congr waitsClean_emitBytes fun _ => expandConditionalAbs_eq _
      exact .ite (.ite hexpand (waitsClean_status nofun nofun)) (patchWord_waits _)

theorem relocateInst_waits : WaitsClean (relocateInst engine inst relocatedAddress) := by
  unfold relocateInst
  cases engine.target.arch with
  | x86 => exact X86.relocate_waits
  | arm => exact Arm.relocate_waits
  | aarch64 => exact A64.relocate_waits
  | bpf | wasm => exact waitsClean_status nofun nofun

end

/-- The capacity decides whether there is room, and nothing else. -/
theorem emit_retryLaw (engine : Engine) :
    (∀ fromAddress toAddress options,
      RetryLaw (emitJump engine fromAddress toAddress options) ∧
        RetryLaw (emitCall engine fromAddress toAddress options)) ∧
    ∀ inst relocatedAddress, RetryLaw (relocateInst engine inst relocatedAddress) :=
  ⟨fun _ _ _ => ⟨emitJump_waits.retryLaw, emitCall_waits.retryLaw⟩,
    fun _ _ => relocateInst_waits.waits.retryLaw⟩

/-! ## What a failure leaves behind -/

/-- The caller's buffer after the call. -/
def EmitOut.store (out : EmitOut) (buffer : List Byte) : List Byte :=
  out.code ++ buffer.drop out.code.length

/-- The call leaves the buffer as it was, whatever was in it. -/
def EmitOut.Untouched (out : EmitOut) (capacity : Nat) : Prop :=
  ∀ buffer, buffer.length = capacity → out.store buffer = buffer

/-- The absolute form has room, clobbers what the options forbid, and nothing has refused it before. -/
def StoredForbidden (engine : Engine) (isCall : Bool) (fromAddress toAddress : BitVec 64)
    (options : Option EmitOptions) (capacity : Nat) : Prop :=
  ∃ o result, options = some o ∧
    relativeUsable engine isCall fromAddress toAddress o.mode = false ∧ o.mode ≠ .directOnly ∧
    absoluteForm engine isCall = some result ∧ ¬ ScratchRefused engine o ∧ Forbids o result ∧
    result.size ≤ capacity

section

variable {engine : Engine} {isCall : Bool} {fromAddress toAddress : BitVec 64}
  {options : Option EmitOptions} {capacity : Nat} {out : EmitOut} {result : EmitResult}

theorem untouched_iff (hroom : out.code.length ≤ capacity) : out.Untouched capacity ↔ out.code = [] := by
  constructor
  · intro h
    rcases hcode : out.code with _ | ⟨b, rest⟩
    · rfl
    have hflip : ∀ b : Byte, b ≠ ~~~b := by decide
    have hsame := h (List.replicate capacity (~~~b)) List.length_replicate
    rw [hcode, List.length_cons] at hroom
    obtain ⟨n, rfl⟩ : ∃ n, capacity = n + 1 := ⟨capacity - 1, by omega⟩
    rw [EmitOut.store, hcode, List.replicate_succ, List.cons_append, List.cons.injEq] at hsame
    exact absurd hsame.1 (hflip b)
  · intro hcode buffer _
    simp [EmitOut.store, hcode]

theorem clobbersAllowed_none : emitResultClobbersAllowed none result = true := by
  unfold emitResultClobbersAllowed
  split <;> rfl

theorem not_forbids_relative {o : EmitOptions} {size : Nat} : ¬ Forbids o { size } := by
  simp [Forbids]

theorem branchForm_forbidden_iff {o : EmitOptions} :
    (branchForm engine isCall fromAddress toAddress (some o) = .ok result ∧ Forbids o result) ↔
      relativeUsable engine isCall fromAddress toAddress o.mode = false ∧ o.mode ≠ .directOnly ∧
        absoluteForm engine isCall = some result ∧ ¬ ScratchRefused engine o ∧ Forbids o result := by
  have hmode : emitMode (some o) = o.mode := rfl
  unfold branchForm
  simp only [hmode, Option.mem_some_iff, exists_eq_left']
  by_cases husable : relativeUsable engine isCall fromAddress toAddress o.mode = true
  · rw [if_pos husable]
    refine iff_of_false (fun h => ?_) (fun h => ?_)
    · cases h.1
      exact not_forbids_relative h.2
    · rw [husable] at h
      cases h.1
  rw [if_neg husable]
  rw [Bool.not_eq_true] at husable
  by_cases hmode : o.mode = .directOnly
  · rw [if_pos hmode]
    exact iff_of_false (fun h => nomatch h.1) fun h => h.2.1 hmode
  rw [if_neg hmode]
  cases absoluteForm engine isCall with
  | none => exact iff_of_false (fun h => nomatch h.1) fun h => nomatch h.2.2.1
  | some form =>
    by_cases hrefused : ScratchRefused engine o
    · simp [hrefused]
    · simp [husable, hmode, hrefused]

theorem storedForbidden_iff :
    StoredForbidden engine isCall fromAddress toAddress options capacity ↔
      ∃ o result, options = some o ∧
        branchForm engine isCall fromAddress toAddress (some o) = .ok result ∧ Forbids o result ∧
        result.size ≤ capacity := by
  constructor
  · rintro ⟨o, result, ho, husable, hmode, habs, hrefused, hforbids, hroom⟩
    obtain ⟨hform, hforbids⟩ := branchForm_forbidden_iff.2 ⟨husable, hmode, habs, hrefused, hforbids⟩
    exact ⟨o, result, ho, hform, hforbids, hroom⟩
  · rintro ⟨o, result, ho, hform, hforbids, hroom⟩
    obtain ⟨husable, hmode, habs, hrefused, hforbids⟩ := branchForm_forbidden_iff.1 ⟨hform, hforbids⟩
    exact ⟨o, result, ho, husable, hmode, habs, hrefused, hforbids, hroom⟩

theorem emitTarget_forbidden_iff :
    ((emitTarget engine isCall fromAddress toAddress options capacity).status = .ok ∧
      ¬ emitResultClobbersAllowed options
        (emitTarget engine isCall fromAddress toAddress options capacity).result = true) ↔
    StoredForbidden engine isCall fromAddress toAddress options capacity := by
  by_cases hnative : engine.target.arch ≠ .bpf ∧ engine.target.arch ≠ .wasm
  · have htarget : ComesTo 0 (emitTarget engine isCall fromAddress toAddress options)
        (branchForm engine isCall fromAddress toAddress options) :=
      emitTarget_comesTo hnative.1 hnative.2
    rw [storedForbidden_iff, htarget.ok_iff]
    constructor
    · rintro ⟨⟨result, hform, hroom⟩, hallowed⟩
      rw [hform] at htarget
      rw [htarget.result_eq] at hallowed
      cases options with
      | none => exact absurd clobbersAllowed_none hallowed
      | some o =>
        rw [emitResultClobbersAllowed_iff, not_not] at hallowed
        exact ⟨o, result, rfl, hform, hallowed, hroom⟩
    · rintro ⟨o, result, rfl, hform, hforbids, hroom⟩
      refine ⟨⟨result, hform, hroom⟩, ?_⟩
      rw [hform] at htarget
      rw [htarget.result_eq, emitResultClobbersAllowed_iff]
      exact not_not_intro hforbids
  · unfold emitTarget StoredForbidden absoluteForm
    cases harch : engine.target.arch with
    | x86 | arm | aarch64 => exact absurd ⟨by simp [harch], by simp [harch]⟩ hnative
    | bpf | wasm => simp

theorem emitTarget_code_ne
    (hok : (emitTarget engine isCall fromAddress toAddress options capacity).status = .ok) :
    (emitTarget engine isCall fromAddress toAddress options capacity).code ≠ [] := by
  have hlength := (emitTarget_steady.stored capacity).2 hok
  by_cases hnative : engine.target.arch ≠ .bpf ∧ engine.target.arch ≠ .wasm
  · have htarget : ComesTo 0 (emitTarget engine isCall fromAddress toAddress options)
        (branchForm engine isCall fromAddress toAddress options) :=
      emitTarget_comesTo hnative.1 hnative.2
    obtain ⟨result, hform, -⟩ := htarget.ok_iff.1 hok
    have hpos := branchForm_size_pos hform
    rw [hform] at htarget
    rw [htarget.result_eq] at hlength
    exact List.ne_nil_of_length_pos (hlength ▸ hpos)
  · unfold emitTarget at hok
    cases harch : engine.target.arch with
    | x86 | arm | aarch64 => exact absurd ⟨by simp [harch], by simp [harch]⟩ hnative
    | bpf | wasm =>
      rw [harch] at hok
      cases hok

/-- A branch that fails has left the buffer alone, or its bytes are there for the check to throw out. -/
theorem emitFinish_untouched_iff :
    let out := emitFinish (emitTarget engine isCall fromAddress toAddress options capacity) options
    (out.status ≠ .ok → out.Untouched capacity) ↔
      ¬ StoredForbidden engine isCall fromAddress toAddress options capacity := by
  have hstored : (emitTarget engine isCall fromAddress toAddress options capacity).code.length ≤ capacity :=
    (emitTarget_steady.stored capacity).1
  have hcode := emitFinish_code (emitTarget engine isCall fromAddress toAddress options capacity) options
  simp only
  rw [untouched_iff (by rwa [hcode]), hcode, ← emitTarget_forbidden_iff]
  constructor
  · rintro h ⟨hok, hallowed⟩
    refine emitTarget_code_ne hok (h ?_)
    rw [emitFinish, if_pos ⟨hok, hallowed⟩]
    intro h
    cases h
  · intro h hfail
    rw [emitFinish, if_neg h] at hfail
    exact emitTarget_waits.code_eq hfail

end

/-- Of the calls that fail, those have stored bytes whose absolute form the check throws out. -/
theorem untouched_iff_not_storedForbidden (engine : Engine) :
    (∀ kind fromAddress toAddress options capacity,
      let out := emitTransfer engine kind fromAddress toAddress options capacity
      (out.status ≠ .ok → out.Untouched capacity) ↔
        ¬ StoredForbidden engine kind.isCall fromAddress toAddress options capacity) ∧
    ∀ inst relocatedAddress capacity,
      (relocateInst engine inst relocatedAddress capacity).status ≠ .ok →
        (relocateInst engine inst relocatedAddress capacity).Untouched capacity := by
  constructor
  · intro kind fromAddress toAddress options capacity
    cases kind with
    | jump => exact emitFinish_untouched_iff
    | call => exact emitFinish_untouched_iff
  · intro inst relocatedAddress capacity hfail buffer _
    rw [EmitOut.store, relocateInst_waits.code_eq hfail]
    rfl

/-- A far jump of AArch64 with no register permitted fails, and its sixteen bytes are in the buffer. -/
theorem failed_jump_not_untouched :
    ¬ ∀ (engine : Engine) (kind : TransferKind) (fromAddress toAddress : BitVec 64)
      (options : Option EmitOptions) (capacity : Nat),
      let out := emitTransfer engine kind fromAddress toAddress options capacity
      out.status ≠ .ok → out.Untouched capacity := by
  intro h
  have hbuffer := h aarch64Engine .jump 0x1000 0x7fff00001000 (some {}) 16 (by decide)
    (List.replicate 16 0) rfl
  revert hbuffer
  decide

end AsmKit
