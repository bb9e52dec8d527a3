import AsmKit.Arm.Branches
import AsmKit.Core.Target
import AsmKit.Encode.Transfer
import AsmKit.Relocate.Patch

/-!
# The bound of a jump back

What `plan_jump_back` of the targets promises of every later jump, before the trampoline has an
address.
-/

namespace AsmKit

open SignedField

variable {engine : Engine} {mode : BranchMode} {fromAddress toAddress : BitVec 64} {status : Status}

/-! ## What a bound says -/

/-- The signed distance of a branch from the address its mode measures from. -/
def branchDistance (engine : Engine) (fromAddress toAddress : BitVec 64) : Int :=
  (toAddress - branchBase engine fromAddress).toInt

/-- What a bound says of every jump, wherever the trampoline lands. -/
structure BoundExact (engine : Engine) (mode : BranchMode) (bound : BranchPlanBound) : Prop where
  anywhere : bound.requiresNearIsland = false → ∀ fromAddress toAddress,
    Aligned engine fromAddress → Aligned engine toAddress → ∀ capacity, bound.size ≤ capacity →
      let out := emitJump engine fromAddress toAddress (some (permitAll mode)) capacity
      out.status = .ok ∧ out.result.size ≤ bound.size ∧ out.code.length = out.result.size ∧
        out.result.clobberMaskLo &&& ~~~bound.clobberMaskLo = 0 ∧
        out.result.clobberMaskHi &&& ~~~bound.clobberMaskHi = 0
  nearby : bound.requiresNearIsland = true → ∀ fromAddress toAddress,
    Aligned engine fromAddress → Aligned engine toAddress → ∀ capacity, bound.size ≤ capacity →
      let out := emitJump engine fromAddress toAddress (some (permitAll mode)) capacity
      (out.status = .ok ↔
        bound.islandMinDistance ≤ branchDistance engine fromAddress toAddress ∧
          branchDistance engine fromAddress toAddress ≤ bound.islandMaxDistance) ∧
      (out.status = .ok → out.result.size = bound.size ∧ out.code.length = bound.size)

/-- What the planner finds of the forms: the relative one alone, or an absolute one behind it. -/
inductive BoundForm (engine : Engine) (mode : BranchMode) (bound : BranchPlanBound) : Prop
  | anywhere (form : EmitResult) : bound.requiresNearIsland = false → mode ≠ .directOnly →
      absoluteForm engine false = some form →
      ¬ (engine.target.arch = .aarch64 ∧ mode = .preferClobberless) →
      relativeSize engine ≤ bound.size → form.size ≤ bound.size →
      form.clobberMaskLo &&& ~~~bound.clobberMaskLo = 0 → BoundForm ..
  | nearby : bound.requiresNearIsland = true → mode ≠ .absoluteOnly →
      bound.size = relativeSize engine →
      (mode = .directOnly ∨ absoluteForm engine false = none ∨
        engine.target.arch = .aarch64 ∧ mode = .preferClobberless) →
      (∀ fromAddress toAddress, Aligned engine fromAddress → Aligned engine toAddress →
        (relativeInRange engine false fromAddress toAddress = true ↔
          bound.islandMinDistance ≤ branchDistance engine fromAddress toAddress ∧
            branchDistance engine fromAddress toAddress ≤ bound.islandMaxDistance)) → BoundForm ..

/-! ## The targets -/

theorem dvd_toInt_sub {base : BitVec 64} (s : Nat) (hs : s ≤ 64) (hbase : 2 ^ s ∣ base.toNat)
    (hto : 2 ^ s ∣ toAddress.toNat) : (2 ^ s : Int) ∣ (toAddress - base).toInt :=
  (dvd_toInt_iff_toNat _ s hs).2 (dvd_sub _ _ s hs hto hbase)

theorem i64FitsI24Words4_of_dvd {v : BitVec 64} (h : (2 ^ 2 : Int) ∣ v.toInt) :
    i64FitsI24Words4 v = true ↔ -33554432 ≤ v.toInt ∧ v.toInt ≤ 33554428 := by
  rw [i64FitsI24Words4_iff, Fits]
  omega

theorem i64FitsI26Words4_of_dvd {v : BitVec 64} (h : (2 ^ 2 : Int) ∣ v.toInt) :
    i64FitsI26Words4 v = true ↔ -134217728 ≤ v.toInt ∧ v.toInt ≤ 134217724 := by
  rw [i64FitsI26Words4_iff, Fits]
  omega

theorem fitsThumb_of_dvd {v : BitVec 64} (h : (2 ^ 1 : Int) ∣ v.toInt) :
    Arm.fitsThumb v = true ↔ -2048 ≤ v.toInt ∧ v.toInt ≤ 2046 := by
  rw [Arm.fitsThumb_iff, Fits]
  omega

/-! ### x86 -/

theorem X86.planJumpBack_form {bound : BranchPlanBound} (harch : engine.target.arch = .x86)
    (h : planJumpBack engine mode = .ok bound) : BoundForm engine mode bound := by
  have hsize : relativeSize engine = directSize engine := by rw [relativeSize, harch]
  have hrange : ∀ fromAddress toAddress, relativeInRange engine false fromAddress toAddress =
      fitsDirect engine (toAddress - branchBase engine fromAddress) := by
    intro fromAddress toAddress
    rw [relativeInRange, branchBase, harch]
    rfl
  unfold planJumpBack at h
  split at h
  · next hnear =>
    have hform : mode = .directOnly ∨ absoluteForm engine false = none ∨
        engine.target.arch = .aarch64 ∧ mode = .preferClobberless := by
      refine hnear.imp_right fun hmode => .inl ?_
      rw [absoluteForm, harch]
      exact if_neg hmode
    split at h
    · cases h
    next habsolute =>
    split at h
    · next hmode =>
      cases h
      refine .nearby rfl habsolute hsize.symm hform fun fromAddress toAddress _ _ => ?_
      rw [hrange, fitsDirect, if_pos hmode, i64FitsI16, Bool.and_eq_true, decide_eq_true_iff,
        decide_eq_true_iff]
      rfl
    · next hmode =>
      cases h
      refine .nearby rfl habsolute hsize.symm hform fun fromAddress toAddress _ _ => ?_
      rw [hrange, fitsDirect, if_neg hmode, i64FitsI32, Bool.and_eq_true, decide_eq_true_iff,
        decide_eq_true_iff]
      rfl
  · next hnear =>
    rw [not_or, not_not] at hnear
    cases h
    refine .anywhere { size := 14 } rfl hnear.1 ?_ ?_ ?_ (Nat.le_refl _) (by decide)
    · rw [absoluteForm, harch]
      exact if_pos hnear.2
    · rw [harch]
      intro h
      cases h.1
    · rw [hsize, directSize]
      split <;> decide

/-! ### ARM -/

theorem Arm.planJumpBack_form {bound : BranchPlanBound} (harch : engine.target.arch = .arm)
    (h : planJumpBack engine mode = .ok bound) : BoundForm engine mode bound := by
  have hnotA64 : ¬ (engine.target.arch = .aarch64 ∧ mode = .preferClobberless) := by
    rw [harch]
    exact fun h => nomatch h.1
  unfold planJumpBack at h
  split at h
  · next ha32 =>
    have hsize : relativeSize engine = 4 := by
      rw [relativeSize, harch]
      exact if_pos ha32
    split at h
    · next hdirect =>
      cases h
      refine .nearby rfl (by rw [hdirect]; decide) hsize.symm (.inl hdirect)
        fun fromAddress toAddress hfrom hto => ?_
      have hbase : branchBase engine fromAddress = fromAddress + 8 := by
        simp only [branchBase, harch, if_pos ha32]
      have hunit : engine.config.mode.capabilities = some (TargetCap.native, 4, 4) := by
        rw [ha32]
        rfl
      rw [branchDistance, hbase, relativeInRange, harch]
      simp only [if_pos ha32]
      exact i64FitsI24Words4_of_dvd (dvd_toInt_sub 2 (by decide)
        (dvd_add _ _ 2 (by decide) ((aligned_iff hunit).1 hfrom) (by decide)) ((aligned_iff hunit).1 hto))
    · next hdirect =>
      cases h
      refine .anywhere (absResultA32 false) rfl hdirect ?_ hnotA64 (by rw [hsize]; decide)
        (Nat.le_refl _) (by decide)
      rw [absoluteForm, harch]
      exact if_pos ha32
  · next ha32 =>
    have hthumb := (engine.mode_of_arm harch).resolve_left ha32
    have hsize : relativeSize engine = 2 := by
      rw [relativeSize, harch]
      exact if_neg ha32
    split at h
    · cases h
    next habsolute =>
    cases h
    refine .nearby rfl habsolute hsize.symm (.inr (.inl ?_)) fun fromAddress toAddress hfrom hto => ?_
    · rw [absoluteForm, harch]
      exact if_neg ha32
    have hbase : branchBase engine fromAddress = fromAddress + 4 := by
      simp only [branchBase, harch, if_neg ha32]
    have hunit : engine.config.mode.capabilities = some (TargetCap.native, 2, 2) := by
      rw [hthumb]
      rfl
    rw [branchDistance, hbase, relativeInRange, harch]
    simp only [if_neg ha32]
    exact fitsThumb_of_dvd (dvd_toInt_sub 1 (by decide)
      (dvd_add _ _ 1 (by decide) ((aligned_iff hunit).1 hfrom) (by decide)) ((aligned_iff hunit).1 hto))

/-! ### AArch64 -/

theorem A64.planJumpBack_form {bound : BranchPlanBound} (harch : engine.target.arch = .aarch64)
    (h : planJumpBack mode = .ok bound) : BoundForm engine mode bound := by
  have hsize : relativeSize engine = 4 := by rw [relativeSize, harch]
  have hunit : engine.config.mode.capabilities = some (TargetCap.native, 4, 4) := by
    rw [engine.mode_of_aarch64 harch]
    rfl
  unfold planJumpBack at h
  split at h
  · next hnear =>
    cases h
    have habsolute : mode ≠ .absoluteOnly := by
      rintro rfl
      rcases hnear with h | h <;> cases h
    refine .nearby rfl habsolute hsize.symm (hnear.imp_right fun hmode => .inr ⟨harch, hmode⟩)
      fun fromAddress toAddress hfrom hto => ?_
    have hbase : branchBase engine fromAddress = fromAddress := by rw [branchBase, harch]
    rw [branchDistance, hbase, relativeInRange, harch]
    exact i64FitsI26Words4_of_dvd (dvd_toInt_sub 2 (by decide) ((aligned_iff hunit).1 hfrom)
      ((aligned_iff hunit).1 hto))
  · next hnear =>
    rw [not_or] at hnear
    cases h
    refine .anywhere absResult rfl hnear.1 (by rw [absoluteForm, harch]) (fun h => hnear.2 h.2)
      (by rw [hsize]; decide) (Nat.le_refl _) (by decide)

theorem planJumpBack_form {bound : BranchPlanBound} (h : planJumpBack engine mode = .ok bound) :
    BoundForm engine mode bound := by
  unfold planJumpBack at h
  cases harch : engine.target.arch with
  | x86 => exact X86.planJumpBack_form harch (by rwa [harch] at h)
  | arm => exact Arm.planJumpBack_form harch (by rwa [harch] at h)
  | aarch64 => exact A64.planJumpBack_form harch (by rwa [harch] at h)
  | bpf | wasm =>
    rw [harch] at h
    cases h

variable (fromAddress toAddress) in
theorem planJumpBack_error (h : planJumpBack engine mode = .error status) :
    relativeUsable engine false fromAddress toAddress mode = false ∧
      absoluteForm engine false = none := by
  unfold planJumpBack at h
  cases harch : engine.target.arch with
  | x86 =>
    simp only [harch, X86.planJumpBack] at h
    split at h
    · next hnear =>
      split at h
      · next habsolute =>
        subst habsolute
        have hmode := hnear.resolve_left (by decide)
        exact ⟨rfl, by rw [absoluteForm, harch]; exact if_neg hmode⟩
      · split at h <;> cases h
    · cases h
  | arm =>
    simp only [harch, Arm.planJumpBack] at h
    split at h
    · split at h <;> cases h
    · next ha32 =>
      split at h
      · next habsolute =>
        subst habsolute
        exact ⟨rfl, by rw [absoluteForm, harch]; exact if_neg ha32⟩
      · cases h
  | aarch64 =>
    simp only [harch, A64.planJumpBack] at h
    split at h <;> cases h
  | bpf | wasm => simp [relativeUsable, relativeInRange, absoluteForm, harch]

/-! ## The bound -/

theorem BoundForm.exact {bound : BranchPlanBound} (h : BoundForm engine mode bound) :
    BoundExact engine mode bound := by
  cases h with
  | anywhere form hfar hdirect habs hscratch hrel hsize hlo =>
    refine ⟨fun _ fromAddress toAddress _ _ capacity hroom => ?_, by simp [hfar]⟩
    obtain ⟨result, hform, hle, hclobbers⟩ :
        ∃ result, jumpForm engine fromAddress toAddress (permitAll mode) = .ok result ∧
          result.size ≤ bound.size ∧ result.clobberMaskLo &&& ~~~bound.clobberMaskLo = 0 := by
      by_cases husable : relativeUsable engine false fromAddress toAddress mode = true
      · exact ⟨_, jumpForm_permitAll_iff.2 (by rw [if_pos husable]), hrel,
          BitVec.zero_and⟩
      · exact ⟨form, jumpForm_permitAll_iff.2 (by rw [if_neg husable]; exact ⟨hdirect, habs, hscratch⟩),
          hsize, hlo⟩
    obtain ⟨code, hemits⟩ :=
      (emitJump_permitAll engine mode fromAddress toAddress).1 result hform
    simp only [hemits.eq, emitBytes_ok (hle.trans hroom)]
    refine ⟨trivial, hle, hemits.length, hclobbers, ?_⟩
    rw [(jumpForm_spec hform).2]
    exact BitVec.zero_and
  | nearby hnear habsolute hsize honly hrange =>
    refine ⟨by simp [hnear], fun _ fromAddress toAddress hfrom hto capacity hroom => ?_⟩
    rw [← hrange fromAddress toAddress hfrom hto]
    obtain ⟨hok, herror⟩ := emitJump_permitAll engine mode fromAddress toAddress
    by_cases hin : relativeInRange engine false fromAddress toAddress = true
    · have hform : jumpForm engine fromAddress toAddress (permitAll mode) =
          .ok { size := relativeSize engine } := by
        rw [jumpForm_permitAll_iff, if_pos (by simp [relativeUsable, habsolute, hin])]
      obtain ⟨code, hemits⟩ := hok _ hform
      have hstored : emitBytes { size := relativeSize engine } code capacity =
          { status := .ok, result := { size := relativeSize engine }, code } :=
        emitBytes_ok (hsize.ge.trans hroom)
      simp only [hemits.eq, hstored, hin]
      exact ⟨trivial, fun _ => ⟨hsize.symm, hemits.length.trans hsize.symm⟩⟩
    · have hform : ∀ result,
          jumpForm engine fromAddress toAddress (permitAll mode) ≠ .ok result := by
        intro result hform
        rw [jumpForm_permitAll_iff, if_neg (by simp [relativeUsable, hin])] at hform
        obtain ⟨hdirect, habs, hscratch⟩ := hform
        rcases honly with h | h | h
        · exact hdirect h
        · rw [habs] at h
          cases h
        · exact hscratch h
      have hrefused := fun capacity => by
        cases hjump : jumpForm engine fromAddress toAddress (permitAll mode) with
        | ok result => exact absurd hjump (hform result)
        | error status => exact (herror status hjump).status capacity
      exact ⟨iff_of_false (hrefused capacity) hin, fun hok => absurd hok (hrefused capacity)⟩

/-- The bound of a jump back is what the emitter does wherever the trampoline lands: enough for any
distance, or the very interval and size of the relative form. Without a bound there is no jump. -/
theorem planJumpBack_exact (engine : Engine) (mode : BranchMode) :
    match planJumpBack engine mode with
    | .ok bound => BoundExact engine mode bound
    | .error _ => ∀ fromAddress toAddress capacity,
      (emitJump engine fromAddress toAddress (some (permitAll mode)) capacity).status ≠ .ok := by
  split
  · next h => exact (planJumpBack_form h).exact
  · next status h =>
    intro fromAddress toAddress capacity
    obtain ⟨hunusable, hnone⟩ := planJumpBack_error fromAddress toAddress h
    obtain ⟨-, herror⟩ := emitJump_permitAll engine mode fromAddress toAddress
    cases hjump : jumpForm engine fromAddress toAddress (permitAll mode) with
    | ok result =>
      rw [jumpForm_permitAll_iff, if_neg (by simp [hunusable]), hnone] at hjump
      exact absurd hjump.2.1 (by simp)
    | error status => exact (herror status hjump).status capacity

end AsmKit
