import AsmKit.A64.Branches
import AsmKit.Arm.Branches
import AsmKit.Encode.Emit
import AsmKit.X86.Branches

/-!
# `asmkit_emit_jump` and `asmkit_emit_call` against their contracts

Every emitted jump meets its contract. An emitted call meets it in the relative form only: behind
the absolute form the processor returns into the inlined address.
-/

namespace AsmKit

variable {engine : Engine} {fromAddress toAddress : BitVec 64} {options : Option EmitOptions}
  {capacity : Nat}

/-! ## Jumps -/

theorem x86_emitJump_jumpsTo (harch : engine.target.arch = .x86)
    (h : (X86.emitJump engine fromAddress toAddress options capacity).status = .ok) :
    JumpsTo engine.config.mode fromAddress toAddress
      (X86.emitJump engine fromAddress toAddress options capacity) := by
  rcases X86.emitAny_of_ok h with ⟨-, hfits, hout⟩ | ⟨-, hmode, hout⟩
  · rw [X86.emitJump, hout]
    rcases engine.mode_of_x86 harch with hmode | hmode | hmode <;> rw [hmode]
    · exact X86.jumpsTo_relCode (.w16 hmode) hfits _ _
    · exact X86.jumpsTo_relCode (.w32 hmode) hfits _ _
    · exact X86.jumpsTo_relCode (.w64 hmode) hfits _ _
  · rw [X86.emitJump, hout, hmode]
    exact X86.jumpsTo_absCode _ _

theorem a64_emitJump_jumpsTo
    (h : (A64.emitJump fromAddress toAddress options capacity).status = .ok) :
    A64.JumpsTo fromAddress toAddress (A64.emitJump fromAddress toAddress options capacity) := by
  rcases A64.emitAny_of_ok h with ⟨-, hfits, hout⟩ | ⟨-, hout⟩
  · rw [A64.emitJump, hout]
    exact A64.jumpsTo_relWord hfits _ _
  · rw [A64.emitJump, hout]
    exact A64.jumpsTo_absCode _

/-- In A32 the inlined address is loaded from an aligned pc and must be aligned itself. -/
theorem arm_emitJump_jumpsTo (hfrom : engine.config.mode = .armA32 → 4 ∣ fromAddress.toNat)
    (hto : engine.config.mode = .armA32 → 4 ∣ toAddress.toNat)
    (h : (Arm.emitJump engine fromAddress toAddress options capacity).status = .ok) :
    JumpsTo engine.config.mode fromAddress toAddress
      (Arm.emitJump engine fromAddress toAddress options capacity) := by
  rcases Arm.emitAny_of_ok h with ⟨-, hrel, hout⟩ | ⟨-, hmode, hout⟩
  · rw [Arm.emitJump, hout]
    rcases Arm.emitRel_of_ok hrel with ⟨hmode, hfits, hout'⟩ | ⟨hmode, -, hfits, hout'⟩
    · rw [hout', hmode]
      exact Arm.jumpsTo_relWordA32 hfits _ _
    · rw [hout', hmode]
      exact Arm.jumpsTo_relWordThumb hfits _ _
  · rw [Arm.emitJump, hout, hmode]
    exact Arm.jumpsTo_absCodeA32 (hfrom hmode) (hto hmode) _ _

/-- Whatever `asmkit_emit_jump` accepts jumps to the target, at any distance and in any mode. -/
theorem emitJump_jumpsTo (hfrom : Aligned engine fromAddress) (hto : Aligned engine toAddress)
    (h : (emitJump engine fromAddress toAddress options capacity).status = .ok) :
    JumpsTo engine.config.mode fromAddress toAddress
      (emitJump engine fromAddress toAddress options capacity) := by
  unfold emitJump at h ⊢
  simp only at h ⊢
  obtain ⟨hsame, hok⟩ := emitFinish_of_ok h
  rw [hsame]
  cases harch : engine.target.arch with
  | x86 =>
    rw [harch] at hok
    exact x86_emitJump_jumpsTo harch hok
  | arm =>
    rw [harch] at hok
    refine arm_emitJump_jumpsTo (fun hmode => ?_) (fun hmode => ?_) hok
    · exact (aligned_iff (by rw [hmode]; rfl)).1 hfrom
    · exact (aligned_iff (by rw [hmode]; rfl)).1 hto
  | aarch64 =>
    rw [harch] at hok
    rw [engine.mode_of_aarch64 harch]
    exact a64_emitJump_jumpsTo hok
  | bpf | wasm => rw [harch] at hok; cases hok

/-- A relative jump across the end of the address space. -/
theorem emitJump_jumpsTo_wrap :
    JumpsTo .x86_64 0x1000 0xfffffffffffff000
      (emitJump x86Engine64 0x1000 0xfffffffffffff000 none 14) := by
  have hone : ∀ address, Aligned x86Engine64 address := fun _ => (aligned_iff rfl).2 (Nat.one_dvd _)
  exact emitJump_jumpsTo (hone _) (hone _) (by decide)

/-! ## Calls -/

/-- The distance is in the range of the mode's relative branch. -/
def directInRange (engine : Engine) (fromAddress toAddress : BitVec 64) : Bool :=
  match engine.target.arch with
  | .x86 => X86.fitsDirect engine (X86.relDisp engine fromAddress toAddress)
  | .arm => i64FitsI24Words4 (Arm.relDispA32 fromAddress toAddress)
  | .aarch64 => i64FitsI26Words4 (A64.relDisp fromAddress toAddress)
  | .bpf | .wasm => false

/-- The absolute form is chosen by the mode or forced by the distance. -/
theorem not_relative {mode : BranchMode} {b : Bool} (h : mode = .absoluteOnly ∨ b = false) :
    ¬ (mode ≠ .absoluteOnly ∧ b = true) := by
  rintro ⟨hmode, hb⟩
  rcases h with h | h
  · exact hmode h
  · rw [h] at hb
    cases hb

theorem x86_emitCall_callsTo_iff (harch : engine.target.arch = .x86)
    (h : (X86.emitCall engine fromAddress toAddress options capacity).status = .ok) :
    CallsTo engine.config.mode fromAddress toAddress
        (X86.emitCall engine fromAddress toAddress options capacity) ↔
      emitMode options ≠ .absoluteOnly ∧ 
        X86.fitsDirect engine (X86.relDisp engine fromAddress toAddress) = true := by
  rcases X86.emitAny_of_ok h with ⟨hrel, hfits, hout⟩ | ⟨habs, hmode, hout⟩
  · refine iff_of_true ?_ ⟨hrel, hfits⟩
    rw [X86.emitCall, hout]
    rcases engine.mode_of_x86 harch with hmode | hmode | hmode <;> rw [hmode]
    · exact X86.callsTo_relCode (.w16 hmode) hfits _ _
    · exact X86.callsTo_relCode (.w32 hmode) hfits _ _
    · exact X86.callsTo_relCode (.w64 hmode) hfits _ _
  · refine iff_of_false ?_ (not_relative habs)
    rw [X86.emitCall, hout, hmode]
    exact X86.not_callsTo_absCode _ _

theorem a64_emitCall_callsTo_iff
    (h : (A64.emitCall fromAddress toAddress options capacity).status = .ok) :
    A64.CallsTo fromAddress toAddress (A64.emitCall fromAddress toAddress options capacity) ↔
      emitMode options ≠ .absoluteOnly ∧
        i64FitsI26Words4 (A64.relDisp fromAddress toAddress) = true := by
  rcases A64.emitAny_of_ok h with ⟨hrel, hfits, hout⟩ | ⟨habs, hout⟩
  · refine iff_of_true ?_ ⟨hrel, hfits⟩
    rw [A64.emitCall, hout]
    exact A64.callsTo_relWord hfits _ _
  · refine iff_of_false ?_ (not_relative habs)
    rw [A64.emitCall, hout]
    exact A64.not_callsTo_absCode _ _

theorem arm_emitCall_callsTo_iff
    (h : (Arm.emitCall engine fromAddress toAddress options capacity).status = .ok) :
    CallsTo engine.config.mode fromAddress toAddress
        (Arm.emitCall engine fromAddress toAddress options capacity) ↔
      emitMode options ≠ .absoluteOnly ∧
        i64FitsI24Words4 (Arm.relDispA32 fromAddress toAddress) = true := by
  rcases Arm.emitAny_of_ok h with ⟨hrel, hok, hout⟩ | ⟨habs, hmode, hout⟩
  · rw [Arm.emitCall, hout]
    rcases Arm.emitRel_of_ok hok with ⟨hmode, hfits, hout'⟩ | ⟨-, hjump, -⟩
    · refine iff_of_true ?_ ⟨hrel, hfits⟩
      rw [hout', hmode]
      exact Arm.callsTo_relWordA32 hfits _ _
    · cases hjump
  · refine iff_of_false ?_ (not_relative habs)
    rw [Arm.emitCall, hout, hmode]
    exact Arm.not_callsTo_absCodeA32 _ _

/-- An emitted call returns behind its own bytes exactly when it is the relative one. -/
theorem emitCall_callsTo_iff
    (h : (emitCall engine fromAddress toAddress options capacity).status = .ok) :
    CallsTo engine.config.mode fromAddress toAddress
        (emitCall engine fromAddress toAddress options capacity) ↔
      emitMode options ≠ .absoluteOnly ∧ directInRange engine fromAddress toAddress = true := by
  unfold emitCall at h ⊢
  simp only at h ⊢
  obtain ⟨hsame, hok⟩ := emitFinish_of_ok h
  rw [hsame, directInRange]
  cases harch : engine.target.arch with
  | x86 =>
    rw [harch] at hok
    exact x86_emitCall_callsTo_iff harch hok
  | arm =>
    rw [harch] at hok
    exact arm_emitCall_callsTo_iff hok
  | aarch64 =>
    rw [harch] at hok
    rw [engine.mode_of_aarch64 harch]
    exact a64_emitCall_callsTo_iff hok
  | bpf | wasm => rw [harch] at hok; cases hok

theorem emitCall_callsTo_iff_near :
    CallsTo .x86_64 0x1000 0x2000 (emitCall x86Engine64 0x1000 0x2000 none 14) ↔
      emitMode none ≠ .absoluteOnly ∧ directInRange x86Engine64 0x1000 0x2000 = true := by
  have hok : (emitCall x86Engine64 0x1000 0x2000 none 14).status = .ok := by decide
  exact emitCall_callsTo_iff hok

/-- `call [rip]` with the address behind it: the processor returns into the address. -/
theorem emitCall_not_callsTo :
    ∃ (engine : Engine) (fromAddress toAddress : BitVec 64),
      Aligned engine fromAddress ∧ Aligned engine toAddress ∧
      (emitCall engine fromAddress toAddress none 14).status = .ok ∧
      ¬ CallsTo engine.config.mode fromAddress toAddress
        (emitCall engine fromAddress toAddress none 14) := by
  refine ⟨x86Engine64, 0x1000, 0x7fff00001000, (aligned_iff rfl).2 (Nat.one_dvd _),
    (aligned_iff rfl).2 (Nat.one_dvd _), by decide, ?_⟩
  exact X86.not_callsTo_absCode _ _

end AsmKit
