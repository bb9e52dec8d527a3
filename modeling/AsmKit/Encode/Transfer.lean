import AsmKit.Encode.BranchForm
import AsmKit.Relocate.Prologue

/-!
# `asmkit_plan_control_transfer`

The plan of a jump or a call: the sequence itself where it can be emitted, else the bound of a jump
back, with an island.
-/

namespace AsmKit

inductive TransferKind where
  | jump | call
deriving DecidableEq, Repr

def TransferKind.isCall (kind : TransferKind) : Bool := kind == .call

structure ControlTransferPlan where
  kind : TransferKind
  size : Nat
  requiredAlignment : Nat := 0
  clobberMaskLo : BitVec 64
  clobberMaskHi : BitVec 64
  requiresIsland : Bool := false
  islandMinDistance : Int := 0
  islandMaxDistance : Int := 0
deriving DecidableEq, Repr

/-- `asmkit_emit_jump` or `asmkit_emit_call`. -/
def emitTransfer (engine : Engine) (kind : TransferKind) (fromAddress toAddress : BitVec 64)
    (options : Option EmitOptions) (capacity : Nat) : EmitOut :=
  match kind with
  | .jump => emitJump engine fromAddress toAddress options capacity
  | .call => emitCall engine fromAddress toAddress options capacity

/-- `asmkit_plan_control_transfer`. The sequence is tried in a buffer of 32 bytes. -/
def planControlTransfer (engine : Engine) (kind : TransferKind) (fromAddress toAddress : BitVec 64)
    (options : Option EmitOptions) : Except Status ControlTransferPlan :=
  let emit := emitTransfer engine kind fromAddress toAddress options 32
  if emit.status = .ok then
    .ok { kind, size := emit.result.size, requiredAlignment := emit.result.requiredAlignment
          clobberMaskLo := emit.result.clobberMaskLo, clobberMaskHi := emit.result.clobberMaskHi }
  else if emit.status ≠ .branchOutOfRange ∧ emit.status ≠ .requiresBranchIsland ∧
      emit.status ≠ .forbiddenClobber then
    .error emit.status
  else
    match planJumpBack engine (emitMode options) with
    | .error status => .error status
    | .ok bound =>
      .ok { kind, size := bound.size, requiresIsland := true
            islandMinDistance := bound.islandMinDistance
            islandMaxDistance := bound.islandMaxDistance
            clobberMaskLo := bound.clobberMaskLo, clobberMaskHi := bound.clobberMaskHi }

/-! ## What a transfer comes to -/

/-- What the emitters come to where there is room for every form. -/
inductive Outcome (engine : Engine) (isCall : Bool) (fromAddress toAddress : BitVec 64)
    (options : Option EmitOptions) (out : EmitOut) : Prop
  | relative :
      relativeUsable engine isCall fromAddress toAddress (emitMode options) = true →
      out.status = .ok → out.result = { size := relativeSize engine } → Outcome ..
  | outOfRange :
      relativeUsable engine isCall fromAddress toAddress (emitMode options) = false →
      emitMode options = .directOnly ∨ absoluteForm engine isCall = none →
      out.status = .branchOutOfRange → Outcome ..
  | forbidden (o : EmitOptions) (result : EmitResult) :
      relativeUsable engine isCall fromAddress toAddress (emitMode options) = false →
      emitMode options ≠ .directOnly → absoluteForm engine isCall = some result →
      options = some o → Forbids o result → out.status = .forbiddenClobber → Outcome ..
  | absolute :
      relativeUsable engine isCall fromAddress toAddress (emitMode options) = false →
      emitMode options ≠ .directOnly → absoluteForm engine isCall = some out.result →
      (∀ o, options = some o → ¬ Forbids o out.result) → out.status = .ok → Outcome ..

variable {engine : Engine} {isCall : Bool} {fromAddress toAddress : BitVec 64}
  {options : Option EmitOptions} {capacity : Nat}

theorem outcome_relative {size : Nat} {code : List Byte} (hsize : size = relativeSize engine)
    (hroom : size ≤ capacity)
    (h : relativeUsable engine isCall fromAddress toAddress (emitMode options) = true) :
    Outcome engine isCall fromAddress toAddress options
      (emitFinish (emitBytes { size } code capacity) options) := by
  have hallowed : emitResultClobbersAllowed options { size } = true := if_pos ⟨rfl, rfl⟩
  rw [emitBytes_ok hroom, emitFinish, if_neg (fun h => h.2 hallowed)]
  exact .relative h rfl (hsize ▸ rfl)

theorem outcome_absolute {result : EmitResult} {code : List Byte} (hroom : result.size ≤ capacity)
    (h : relativeUsable engine isCall fromAddress toAddress (emitMode options) = false)
    (hmode : emitMode options ≠ .directOnly) (habs : absoluteForm engine isCall = some result) :
    Outcome engine isCall fromAddress toAddress options
      (emitFinish (emitBytes result code capacity) options) := by
  rw [emitBytes_ok hroom]
  by_cases hallowed : emitResultClobbersAllowed options result = true
  · rw [emitFinish, if_neg (fun h => h.2 hallowed)]
    refine .absolute h hmode habs ?_ rfl
    rintro o rfl
    exact emitResultClobbersAllowed_iff.1 hallowed
  · rw [emitFinish, if_pos ⟨rfl, hallowed⟩]
    cases options with
    | none => exact absurd (by unfold emitResultClobbersAllowed; split <;> rfl) hallowed
    | some o =>
      refine .forbidden o result h hmode habs rfl ?_ rfl
      by_contra hnot
      exact hallowed (emitResultClobbersAllowed_iff.2 hnot)

theorem emitFinish_of_ne {out : EmitOut} (h : out.status ≠ .ok) : emitFinish out options = out :=
  if_neg fun hfinish => h hfinish.1

theorem forbids_of_scratchRefused {o : EmitOptions} {result : EmitResult}
    (h : ScratchRefused engine o) (habs : absoluteForm engine isCall = some result) :
    Forbids o result := by
  rw [absoluteForm, h.1] at habs
  cases habs
  exact A64.forbids_absResult (h.2.imp_right And.right)

theorem emitFinish_outcome (hbpf : engine.target.arch ≠ .bpf) (hwasm : engine.target.arch ≠ .wasm)
    (hroom : 16 ≤ capacity) : Outcome engine isCall fromAddress toAddress options
      (emitFinish (emitTarget engine isCall fromAddress toAddress options capacity) options) := by
  have htarget : ComesTo 0 (emitTarget engine isCall fromAddress toAddress options)
      (branchForm engine isCall fromAddress toAddress options) := emitTarget_comesTo hbpf hwasm
  unfold branchForm at htarget
  split at htarget
  · next husable =>
    obtain ⟨code, -, hemit⟩ := htarget
    rw [hemit]
    exact outcome_relative rfl (relativeSize_le.trans (by omega)) husable
  next hunusable =>
  rw [Bool.not_eq_true] at hunusable
  split at htarget
  · next hmode =>
    have hstatus := htarget.2 capacity
    rw [if_neg (Nat.not_lt_zero _)] at hstatus
    rw [emitFinish_of_ne (by rw [hstatus]; decide)]
    exact .outOfRange hunusable (.inl hmode) hstatus
  next hmode =>
  cases habs : absoluteForm engine isCall with
  | none =>
    rw [habs] at htarget
    have hstatus := htarget.2 capacity
    rw [if_neg (Nat.not_lt_zero _)] at hstatus
    rw [emitFinish_of_ne (by rw [hstatus]; decide)]
    exact .outOfRange hunusable (.inr habs) hstatus
  | some result =>
    rw [habs] at htarget
    dsimp only at htarget
    split at htarget
    · next hrefused =>
      obtain ⟨o, ho, hrefused⟩ := hrefused
      have hstatus := htarget.2 capacity
      rw [if_neg (Nat.not_lt_zero _)] at hstatus
      rw [emitFinish_of_ne (by rw [hstatus]; decide)]
      exact .forbidden o result hunusable hmode habs ho (forbids_of_scratchRefused hrefused habs) hstatus
    · obtain ⟨code, -, hemit⟩ := htarget
      rw [hemit]
      exact outcome_absolute ((absoluteForm_spec habs).2.1.trans hroom) hunusable hmode habs

theorem emitTransfer_outcome (hbpf : engine.target.arch ≠ .bpf) (hwasm : engine.target.arch ≠ .wasm)
    (hroom : 16 ≤ capacity) (kind : TransferKind) :
    Outcome engine kind.isCall fromAddress toAddress options
      (emitTransfer engine kind fromAddress toAddress options capacity) := by
  cases kind with
  | jump => exact emitFinish_outcome hbpf hwasm hroom
  | call => exact emitFinish_outcome hbpf hwasm hroom

theorem emitTransfer_steady (kind : TransferKind) :
    Steady (emitTransfer engine kind fromAddress toAddress options) := by
  cases kind with
  | jump => exact emitJump_steady
  | call => exact emitCall_steady

/-! ## Carrying a plan out -/

/-- The address from which the mode measures the distance of a branch. -/
def branchBase (engine : Engine) (fromAddress : BitVec 64) : BitVec 64 :=
  match engine.target.arch with
  | .x86 => fromAddress + BitVec.ofNat 64 (X86.directSize engine)
  | .arm => fromAddress + if engine.config.mode = .armA32 then 8 else 4
  | .aarch64 | .bpf | .wasm => fromAddress

/-- The plan can be carried out under the options: as it is, or by way of some island. -/
structure CarriedOut (engine : Engine) (kind : TransferKind) (fromAddress toAddress : BitVec 64)
    (options : Option EmitOptions) (plan : ControlTransferPlan) : Prop where
  direct : plan.requiresIsland = false → ∀ capacity, plan.size ≤ capacity →
    let out := emitTransfer engine kind fromAddress toAddress options capacity
    out.status = .ok ∧ out.code.length = plan.size ∧ out.result.size = plan.size ∧
      out.result.clobberMaskLo = plan.clobberMaskLo ∧ out.result.clobberMaskHi = plan.clobberMaskHi
  island : plan.requiresIsland = true → ∃ distance : Int,
    plan.islandMinDistance ≤ distance ∧ distance ≤ plan.islandMaxDistance ∧
    ∀ capacity, plan.size ≤ capacity →
      let out := emitTransfer engine kind fromAddress
        (branchBase engine fromAddress + BitVec.ofInt 64 distance) options capacity
      out.status = .ok ∧ out.code.length ≤ plan.size ∧ out.result.size = out.code.length
  permitted : plan.requiresIsland = true → ∀ o, options = some o →
    ¬ Forbids o { size := plan.size, clobberMaskLo := plan.clobberMaskLo
                  clobberMaskHi := plan.clobberMaskHi }

/-- Where the absolute form needs a register that the options forbid, the relative one is in range,
or the mode has a bound for an island. Calls of Thumb have no form at all. -/
structure Feasible (engine : Engine) (kind : TransferKind) (fromAddress toAddress : BitVec 64)
    (options : Option EmitOptions) : Prop where
  form : engine.config.mode = .armThumb → kind = .jump
  clobbers : ∀ o result, options = some o → absoluteForm engine kind.isCall = some result →
    Forbids o result →
    relativeUsable engine kind.isCall fromAddress toAddress o.mode = true ∨
      if engine.target.arch = .aarch64 then o.mode = .directOnly ∨ o.mode = .preferClobberless
      else o.mode ≠ .absoluteOnly

/-- What the bound of a jump back says. -/
structure BoundOf (engine : Engine) (mode : BranchMode) (bound : BranchPlanBound) : Prop where
  size : relativeSize engine ≤ bound.size
  nearby : bound.islandMinDistance ≤ 0 ∧ 0 ≤ bound.islandMaxDistance
  absolute : mode = .absoluteOnly → ∀ isCall, absoluteForm engine isCall ≠ none
  clobberLo : bound.clobberMaskLo = if engine.target.arch = .aarch64 ∧ mode ≠ .directOnly ∧
    mode ≠ .preferClobberless then A64.x16Mask else 0
  clobberHi : bound.clobberMaskHi = 0

theorem x86_planJumpBack_boundOf {mode : BranchMode} {bound : BranchPlanBound}
    (harch : engine.target.arch = .x86) (h : X86.planJumpBack engine mode = .ok bound) :
    BoundOf engine mode bound := by
  have hsize : relativeSize engine = X86.directSize engine := by
    rw [relativeSize, harch]
  have hnotA64 : ¬ (engine.target.arch = .aarch64 ∧ mode ≠ .directOnly ∧ mode ≠ .preferClobberless) := by
    rw [harch]
    rintro ⟨h, -⟩
    cases h
  have hdirect : X86.directSize engine ≤ 5 := by
    unfold X86.directSize
    split <;> omega
  unfold X86.planJumpBack at h
  split at h
  · split at h
    · cases h
    next hmode =>
    split at h
    all_goals
      cases h
      exact ⟨hsize.le, by dsimp only; omega, fun h => absurd h hmode, (if_neg hnotA64).symm, rfl⟩
  · next hmode =>
    rw [not_or, not_not] at hmode
    cases h
    refine ⟨by rw [hsize]; dsimp only; omega, by decide, fun _ isCall => ?_, (if_neg hnotA64).symm, rfl⟩
    rw [absoluteForm, harch]
    simp [hmode.2]

theorem arm_planJumpBack_boundOf {mode : BranchMode} {bound : BranchPlanBound}
    (harch : engine.target.arch = .arm) (h : Arm.planJumpBack engine mode = .ok bound) :
    BoundOf engine mode bound := by
  have hnotA64 : ¬ (engine.target.arch = .aarch64 ∧ mode ≠ .directOnly ∧ mode ≠ .preferClobberless) := by
    rw [harch]
    rintro ⟨h, -⟩
    cases h
  unfold Arm.planJumpBack at h
  split at h
  · next ha32 =>
    have hsize : relativeSize engine = 4 := by
      rw [relativeSize, harch]
      exact if_pos ha32
    have habs : ∀ isCall, absoluteForm engine isCall ≠ none := by
      intro isCall
      rw [absoluteForm, harch]
      simp [ha32]
    split at h
    all_goals
      cases h
      exact ⟨hsize.le.trans (by decide), by decide, fun _ => habs, (if_neg hnotA64).symm, rfl⟩
  · next ha32 =>
    have hsize : relativeSize engine = 2 := by
      rw [relativeSize, harch]
      exact if_neg ha32
    split at h
    · cases h
    next hmode =>
    cases h
    exact ⟨hsize.le, by decide, fun h => absurd h hmode, (if_neg hnotA64).symm, rfl⟩

theorem a64_planJumpBack_boundOf {mode : BranchMode} {bound : BranchPlanBound}
    (harch : engine.target.arch = .aarch64) (h : A64.planJumpBack mode = .ok bound) :
    BoundOf engine mode bound := by
  have hsize : relativeSize engine = 4 := by
    rw [relativeSize, harch]
  have habs : ∀ isCall, absoluteForm engine isCall ≠ none := by
    intro isCall
    rw [absoluteForm, harch]
    intro h
    cases h
  unfold A64.planJumpBack at h
  split at h
  · next hmode =>
    cases h
    refine ⟨hsize.le, by decide, fun _ => habs, (if_neg ?_).symm, rfl⟩
    rintro ⟨-, hdirect, hprefer⟩
    exact hmode.elim hdirect hprefer
  · next hmode =>
    rw [not_or] at hmode
    cases h
    exact ⟨by rw [hsize]; decide, by decide, fun _ => habs, (if_pos ⟨harch, hmode⟩).symm, rfl⟩

theorem planJumpBack_boundOf {mode : BranchMode} {bound : BranchPlanBound}
    (h : planJumpBack engine mode = .ok bound) : BoundOf engine mode bound := by
  unfold planJumpBack at h
  cases harch : engine.target.arch with
  | x86 => exact x86_planJumpBack_boundOf harch (by rwa [harch] at h)
  | arm => exact arm_planJumpBack_boundOf harch (by rwa [harch] at h)
  | aarch64 => exact a64_planJumpBack_boundOf harch (by rwa [harch] at h)
  | bpf | wasm =>
    rw [harch] at h
    cases h

theorem relativeInRange_branchBase (hbpf : engine.target.arch ≠ .bpf)
    (hwasm : engine.target.arch ≠ .wasm) {kind : TransferKind}
    (hkind : engine.config.mode = .armThumb → kind = .jump) :
    relativeInRange engine kind.isCall fromAddress (branchBase engine fromAddress) = true := by
  unfold relativeInRange branchBase
  cases harch : engine.target.arch with
  | x86 =>
    simp only [X86.relDisp, BitVec.sub_self, X86.fitsDirect]
    split <;> decide
  | arm =>
    rcases engine.mode_of_arm harch with hmode | hmode
    · simp only [hmode, if_true, Arm.relDispA32, BitVec.sub_self]
      decide
    · rw [hkind hmode]
      simp only [hmode, Arm.relDispThumb]
      rw [if_neg (by decide), if_neg (by decide), BitVec.sub_self]
      decide
  | aarch64 =>
    simp only [A64.relDisp, BitVec.sub_self]
    decide
  | bpf => exact absurd harch hbpf
  | wasm => exact absurd harch hwasm

theorem relativeInRange_thumbCall (hmode : engine.config.mode = .armThumb) :
    relativeInRange engine true fromAddress toAddress = false := by
  have harch : engine.target.arch = .arm := by
    have hmode' := engine.mode_arch
    rw [hmode] at hmode'
    exact (Option.some.inj hmode').symm
  rw [relativeInRange, harch]
  simp only [hmode]
  rfl

/-! ## The plans that can be carried out -/

section

variable {kind : TransferKind} {plan : ControlTransferPlan} {bound : BranchPlanBound} {out : EmitOut}

theorem carriedOut_direct (hok : (emitTransfer engine kind fromAddress toAddress options 32).status = .ok)
    (requiredAlignment : Nat) :
    CarriedOut engine kind fromAddress toAddress options
      { kind, size := (emitTransfer engine kind fromAddress toAddress options 32).result.size
        requiredAlignment
        clobberMaskLo :=
          (emitTransfer engine kind fromAddress toAddress options 32).result.clobberMaskLo
        clobberMaskHi :=
          (emitTransfer engine kind fromAddress toAddress options 32).result.clobberMaskHi } := by
  refine ⟨fun _ capacity hroom => ?_, nofun, nofun⟩
  have hsteady : Steady (emitTransfer engine kind fromAddress toAddress options) :=
    emitTransfer_steady kind
  simp only
  rw [hsteady.eq_of_ok hok hroom]
  exact ⟨hok, (hsteady.stored 32).2 hok, rfl, rfl, rfl⟩

theorem Outcome.feasible_of_ok (h : Outcome engine kind.isCall fromAddress toAddress options out)
    (hok : out.status = .ok) : Feasible engine kind fromAddress toAddress options := by
  cases h with
  | outOfRange _ _ hstatus => rw [hok] at hstatus; cases hstatus
  | forbidden _ _ _ _ _ _ _ hstatus => rw [hok] at hstatus; cases hstatus
  | relative husable =>
    constructor
    · intro hmode
      cases kind with
      | jump => rfl
      | call =>
        have hrange := (relativeUsable_iff.1 husable).2
        rw [show TransferKind.call.isCall = true from rfl, relativeInRange_thumbCall hmode] at hrange
        cases hrange
    · rintro o result rfl - -
      exact .inl husable
  | absolute _ _ habs hallowed =>
    constructor
    · intro hmode
      have harch := engine.mode_arch
      rw [hmode] at harch
      rw [absoluteForm, ← Option.some.inj harch] at habs
      simp [hmode] at habs
    · rintro o result ho hresult hforbids
      rw [habs] at hresult
      cases hresult
      exact absurd hforbids (hallowed o ho)

theorem forbids_congr {o : EmitOptions} {result result' : EmitResult}
    (hlo : result'.clobberMaskLo = result.clobberMaskLo)
    (hhi : result'.clobberMaskHi = result.clobberMaskHi) : Forbids o result' ↔ Forbids o result := by
  rw [Forbids, Forbids, hlo, hhi]

theorem Outcome.unusable_of_fail (h : Outcome engine kind.isCall fromAddress toAddress options out)
    (hfail : out.status ≠ .ok) :
    relativeUsable engine kind.isCall fromAddress toAddress (emitMode options) = false := by
  cases h with
  | relative _ hok => exact absurd hok hfail
  | outOfRange hunusable | forbidden _ _ hunusable | absolute hunusable => exact hunusable

theorem emitTransfer_branchBase (hbpf : engine.target.arch ≠ .bpf) (hwasm : engine.target.arch ≠ .wasm)
    (hform : engine.config.mode = .armThumb → kind = .jump) (hmode : emitMode options ≠ .absoluteOnly)
    (hroom : relativeSize engine ≤ capacity) :
    let out := emitTransfer engine kind fromAddress (branchBase engine fromAddress) options capacity
    out.status = .ok ∧ out.code.length = relativeSize engine ∧ out.result.size = out.code.length := by
  have husable : relativeUsable engine kind.isCall fromAddress (branchBase engine fromAddress)
      (emitMode options) = true :=
    relativeUsable_iff.2 ⟨hmode, relativeInRange_branchBase hbpf hwasm hform⟩
  have hsteady : Steady (emitTransfer engine kind fromAddress (branchBase engine fromAddress) options) :=
    emitTransfer_steady kind
  have houtcome : Outcome engine kind.isCall fromAddress (branchBase engine fromAddress) options
      (emitTransfer engine kind fromAddress (branchBase engine fromAddress) options 16) :=
    emitTransfer_outcome hbpf hwasm (Nat.le_refl 16) kind
  cases houtcome with
  | relative _ hok hresult =>
    have hsize := congrArg EmitResult.size hresult
    have hlength := (hsteady.stored 16).2 hok
    have hsame := hsteady.eq_of_ok hok (hsize.le.trans hroom)
    simp only [hsame]
    exact ⟨hok, hlength.trans hsize, hlength.symm⟩
  | outOfRange hunusable | forbidden _ _ hunusable | absolute hunusable =>
    rw [husable] at hunusable
    cases hunusable

theorem arch_of_planControlTransfer
    (hplan : planControlTransfer engine kind fromAddress toAddress options = .ok plan) :
    engine.target.arch ≠ .bpf ∧ engine.target.arch ≠ .wasm := by
  have hnot : engine.target.arch = .bpf ∨ engine.target.arch = .wasm → False := by
    intro harch
    have hstatus : (emitTransfer engine kind fromAddress toAddress options 32).status =
        .unsupportedTargetOperation := by
      cases kind <;> rcases harch with harch | harch <;>
        simp [emitTransfer, emitJump, emitCall, harch, emitFinish]
    simp [planControlTransfer, hstatus] at hplan
  exact ⟨fun h => hnot (.inl h), fun h => hnot (.inr h)⟩

/-- Some island can be reached just when the conditions hold. -/
theorem carriedOut_island_iff (hbpf : engine.target.arch ≠ .bpf) (hwasm : engine.target.arch ≠ .wasm)
    (houtcome : Outcome engine kind.isCall fromAddress toAddress options out) (hfail : out.status ≠ .ok)
    (hbound : BoundOf engine (emitMode options) bound) :
    CarriedOut engine kind fromAddress toAddress options
        { kind, size := bound.size, requiresIsland := true
          islandMinDistance := bound.islandMinDistance, islandMaxDistance := bound.islandMaxDistance
          clobberMaskLo := bound.clobberMaskLo, clobberMaskHi := bound.clobberMaskHi } ↔
      Feasible engine kind fromAddress toAddress options := by
  constructor
  · intro h
    obtain ⟨distance, -, -, hemit⟩ := h.island rfl
    obtain ⟨hok, -, -⟩ := hemit (max bound.size 16) (le_max_left _ _)
    have hisland : Outcome engine kind.isCall fromAddress
        (branchBase engine fromAddress + BitVec.ofInt 64 distance) options
        (emitTransfer engine kind fromAddress (branchBase engine fromAddress + BitVec.ofInt 64 distance)
          options (max bound.size 16)) :=
      emitTransfer_outcome hbpf hwasm (le_max_right bound.size 16) kind
    have hfeasible := hisland.feasible_of_ok hok
    refine ⟨hfeasible.form, fun o result ho hresult hforbids => .inr ?_⟩
    split
    · next harch =>
      -- The bound announces the register that is forbidden.
      by_contra hmode
      rw [not_or] at hmode
      have hlo := hbound.clobberLo
      rw [ho, if_pos ⟨harch, hmode⟩] at hlo
      rw [absoluteForm, harch] at hresult
      cases hresult
      exact h.permitted rfl o ho ((forbids_congr hlo hbound.clobberHi).2 hforbids)
    · next harch =>
      rcases hfeasible.clobbers o result ho hresult hforbids with husable | hmode
      · rw [ho] at hisland
        exact (relativeUsable_iff.1 (show relativeUsable _ _ _ _ (emitMode (some o)) = true from husable)).1
      · rwa [if_neg harch] at hmode
  · intro h
    have hunusable : relativeUsable engine kind.isCall fromAddress toAddress (emitMode options) = false :=
      houtcome.unusable_of_fail hfail
    have hmode : emitMode options ≠ .absoluteOnly := by
      intro hmode
      cases houtcome with
      | relative _ hok => exact hfail hok
      | absolute _ _ _ _ hok => exact hfail hok
      | outOfRange _ hnone =>
        rcases hnone with hdirect | hnone
        · rw [hmode] at hdirect
          cases hdirect
        · exact hbound.absolute hmode _ hnone
      | forbidden o result _ _ habs ho hforbids =>
        subst ho
        have hmode : o.mode = .absoluteOnly := hmode
        have hclobbers := (h.clobbers o result rfl habs hforbids).resolve_left
          (by rw [show relativeUsable _ _ _ _ o.mode = false from hunusable]; decide)
        rw [hmode] at hclobbers
        split at hclobbers
        · rcases hclobbers with h | h <;> cases h
        · exact hclobbers rfl
    refine ⟨(fun h => by cases h),
      fun _ => ⟨0, hbound.nearby.1, hbound.nearby.2, fun capacity hroom => ?_⟩,
      fun _ o ho => ?_⟩
    · obtain ⟨hok, hlength, hsize⟩ := emitTransfer_branchBase hbpf hwasm h.form hmode
        (hbound.size.trans hroom)
      rw [show BitVec.ofInt 64 0 = 0#64 from rfl, BitVec.add_zero]
      exact ⟨hok, hlength.le.trans hbound.size, hsize⟩
    · subst ho
      have hlo := hbound.clobberLo
      split at hlo
      · next hscratch =>
        -- The absolute form is refused, and the bound is the same form again.
        cases houtcome with
        | relative _ hok => exact absurd hok hfail
        | absolute _ _ _ _ hok => exact absurd hok hfail
        | outOfRange _ hnone =>
          refine absurd hnone (not_or.2 ⟨hscratch.2.1, ?_⟩)
          rw [absoluteForm, hscratch.1]
          intro h
          cases h
        | forbidden o' result _ _ habs ho hforbids =>
          cases ho
          have hclobbers := (h.clobbers o result rfl habs hforbids).resolve_left
            (by rw [show relativeUsable _ _ _ _ o.mode = false from hunusable]; decide)
          rw [if_pos hscratch.1] at hclobbers
          exact absurd hclobbers (not_or.2 hscratch.2)
      · exact not_forbids hlo hbound.clobberHi

/-- A plan can be carried out exactly where it does not fall back on a register that is forbidden, or
on a form that the mode does not have. -/
theorem planControlTransfer_carriedOut_iff
    (hplan : planControlTransfer engine kind fromAddress toAddress options = .ok plan) :
    CarriedOut engine kind fromAddress toAddress options plan ↔
      Feasible engine kind fromAddress toAddress options := by
  obtain ⟨hbpf, hwasm⟩ := arch_of_planControlTransfer hplan
  have houtcome : Outcome engine kind.isCall fromAddress toAddress options
      (emitTransfer engine kind fromAddress toAddress options 32) :=
    emitTransfer_outcome hbpf hwasm (by decide) kind
  unfold planControlTransfer at hplan
  simp only at hplan
  split at hplan
  · next hok =>
    cases hplan
    exact iff_of_true (carriedOut_direct hok _) (houtcome.feasible_of_ok hok)
  · next hfail =>
    split at hplan
    · cases hplan
    split at hplan
    · cases hplan
    next hbound =>
    cases hplan
    exact carriedOut_island_iff hbpf hwasm houtcome hfail (planJumpBack_boundOf hbound)

/-- A jump of AArch64 to a target in range. -/
theorem planControlTransfer_carriedOut_near :
    CarriedOut aarch64Engine .jump 0x1000 0x2000 (some {})
        { kind := .jump, size := 4, clobberMaskLo := 0, clobberMaskHi := 0 } ↔
      Feasible aarch64Engine .jump 0x1000 0x2000 (some {}) := by
  have hplan : planControlTransfer aarch64Engine .jump 0x1000 0x2000 (some {}) =
      .ok { kind := .jump, size := 4, clobberMaskLo := 0, clobberMaskHi := 0 } := by
    decide
  exact planControlTransfer_carriedOut_iff hplan

/-- A far jump of AArch64 with no register permitted: the plan announces the forbidden register. -/
theorem planControlTransfer_not_carriedOut :
    ∃ (engine : Engine) (kind : TransferKind) (fromAddress toAddress : BitVec 64)
      (options : Option EmitOptions) (plan : ControlTransferPlan),
      planControlTransfer engine kind fromAddress toAddress options = .ok plan ∧
      ¬ CarriedOut engine kind fromAddress toAddress options plan := by
  refine ⟨aarch64Engine, .jump, 0x1000, 0x7fff00001000, some {},
    { kind := .jump, size := 16, requiresIsland := true, clobberMaskLo := A64.x16Mask
      clobberMaskHi := 0 }, by decide, fun h => ?_⟩
  exact h.permitted rfl {} rfl (.inr (.inl (by decide)))

end

end AsmKit
