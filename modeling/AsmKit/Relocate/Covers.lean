import AsmKit.Decode.Prior
import AsmKit.Relocate.Bound

/-!
# The size of a plan against the size of a trampoline

A relocation asks for room one instruction after the other. Where no instruction of the block is
underestimated it asks for no more than the plan set aside.
-/

namespace AsmKit

/-! ## What a relocation asks for -/

section

variable (engine : Engine) (options : RelocateOptions)

/-- The loop goes on behind an instruction: there is a form, and its clobbers are permitted. -/
def Continues (inst : Inst) (address : BitVec 64) : Bool :=
  match relocForm engine inst address with
  | .ok result => !clobbersForbidden options result
  | .error _ => false

/-- The bytes the relocation of the instructions and the jump back behind them ask for. -/
def asked : List Inst → BitVec 64 → Nat
  | [], address => jumpNeed engine address options.continuationAddress options.jumpOptions
  | inst :: insts, address =>
    need engine inst address +
      if Continues engine options inst address then
        asked insts (address + BitVec.ofNat 64 (need engine inst address))
      else 0

end

variable {engine : Engine} {options : RelocateOptions} {insts : List Inst} {address : BitVec 64}

/-- What is asked for is set aside, instruction by instruction, and the jump back gets by with its
bound. -/
theorem asked_le {bound : BranchPlanBound} (hbound : planJumpBack engine options.jumpBackMode = .ok bound)
    (h : ∀ inst ∈ insts, ¬ Underestimated engine inst) :
    asked engine options insts address ≤ (insts.map (planBound engine)).sum + bound.size := by
  induction insts generalizing address with
  | nil =>
    rw [asked, List.map_nil, List.sum_nil, Nat.zero_add]
    exact jumpNeed_le hbound
  | cons inst insts ih =>
    rw [List.forall_mem_cons] at h
    have hneed : need engine inst address ≤ planBound engine inst := need_le_planBound h.1
    rw [asked, List.map_cons, List.sum_cons]
    split
    · have hrest := @ih (address + BitVec.ofNat 64 (need engine inst address)) h.2
      omega
    · omega

/-! ## The relocation -/

variable {relocatedAddress : BitVec 64} {capacity : Nat} {t : Trampoline} {originalAddress : BitVec 64}
  {block : Block}

/-- The rest of a relocation, behind what is in the trampoline. -/
def finishRelocation (engine : Engine) (options : RelocateOptions)
    (originalAddress relocatedAddress : BitVec 64) (capacity : Nat) (block : Block) (insts : List Inst)
    (t : Trampoline) : RelocateOut :=
  match relocateInsts engine options relocatedAddress capacity insts t with
  | .error out => out
  | .ok t => appendJumpBack engine options originalAddress relocatedAddress capacity block t

/-- A relocation is short of room just below what it asks for, and comes out as long as that. -/
structure Asks (out : RelocateOut) (capacity asked : Nat) : Prop where
  tooSmall : out.status = .outputTooSmall ↔ capacity < asked
  size : out.status = .ok → out.result.relocatedSize = asked

theorem appendJumpBack_asks (hbpf : engine.target.arch ≠ .bpf) (hwasm : engine.target.arch ≠ .wasm)
    (hroom : t.offset ≤ capacity) :
    Asks (appendJumpBack engine options originalAddress relocatedAddress capacity block t) capacity
      (t.offset + jumpNeed engine (relocatedAddress + BitVec.ofNat 64 t.offset)
        options.continuationAddress options.jumpOptions) := by
  obtain ⟨hsmall, hsize⟩ :
      ((emitJump engine (relocatedAddress + BitVec.ofNat 64 t.offset) options.continuationAddress
        (some options.jumpOptions) (capacity - t.offset)).status = .outputTooSmall ↔ _) ∧ (_ → _) :=
    emitJump_need hbpf hwasm
  unfold appendJumpBack
  simp only
  split
  · next hfail =>
    exact ⟨hsmall.trans (by omega), fun h => absurd h hfail⟩
  · next hok =>
    rw [not_not] at hok
    rw [hok] at hsmall
    refine ⟨iff_of_false nofun fun hlt => ?_, fun _ => ?_⟩
    · exact absurd (hsmall.2 (by omega)) nofun
    · rw [← hsize hok]

theorem asked_of_ok {inst : Inst} {result : EmitResult}
    (hform : relocForm engine inst address = .ok result) :
    asked engine options (inst :: insts) address = result.size +
      if clobbersForbidden options result then 0
      else asked engine options insts (address + BitVec.ofNat 64 result.size) := by
  have hneed : need engine inst address = result.size := by rw [need, hform, formRoom]
  have hgoes : Continues engine options inst address = !clobbersForbidden options result := by
    rw [Continues, hform]
  rw [asked, hneed, hgoes]
  cases clobbersForbidden options result <;> rfl

theorem relocateInsts_asks (hbpf : engine.target.arch ≠ .bpf) (hwasm : engine.target.arch ≠ .wasm)
    (hinsts : ∀ inst ∈ insts, inst.bytes.length = inst.size) (hroom : t.offset ≤ capacity) :
    Asks (finishRelocation engine options originalAddress relocatedAddress capacity block insts t)
      capacity (t.offset + asked engine options insts (relocatedAddress + BitVec.ofNat 64 t.offset)) := by
  induction insts generalizing t with
  | nil => exact appendJumpBack_asks hbpf hwasm hroom
  | cons inst insts ih =>
    rw [List.forall_mem_cons] at hinsts
    have hcomes : ComesTo (refusalRoom engine inst (relocatedAddress + BitVec.ofNat 64 t.offset))
        (relocateInst engine inst (relocatedAddress + BitVec.ofNat 64 t.offset))
        (relocForm engine inst (relocatedAddress + BitVec.ofNat 64 t.offset)) :=
      relocateInst_comesTo hinsts.1
    unfold finishRelocation
    rw [relocateInsts, analyzeInst_eq]
    simp only
    cases hform : relocForm engine inst (relocatedAddress + BitVec.ofNat 64 t.offset) with
    | error status =>
      rw [hform] at hcomes
      have hfail := hcomes.1.status (capacity - t.offset)
      have hsmall : (relocateInst engine inst (relocatedAddress + BitVec.ofNat 64 t.offset)
          (capacity - t.offset)).status = .outputTooSmall ↔ _ := hcomes.tooSmall_iff fun h => by
        rcases relocForm_error hbpf hwasm (hform.trans h) with h | h <;> cases h
      have hasked : asked engine options (inst :: insts)
          (relocatedAddress + BitVec.ofNat 64 t.offset) =
            refusalRoom engine inst (relocatedAddress + BitVec.ofNat 64 t.offset) := by
        rw [asked, need, Continues, hform]
        rfl
      rw [if_pos hfail, hasked]
      rw [formRoom] at hsmall
      exact ⟨hsmall.trans (by omega), fun hok => absurd hok hfail⟩
    | ok result =>
      rw [hform] at hcomes
      rw [asked_of_ok hform]
      by_cases hfits : result.size ≤ capacity - t.offset
      swap
      · have hsmall : (relocateInst engine inst (relocatedAddress + BitVec.ofNat 64 t.offset)
            (capacity - t.offset)).status = .outputTooSmall :=
          (hcomes.tooSmall_iff (by simp)).2 (not_le.1 hfits)
        rw [if_pos (by simp [hsmall])]
        refine ⟨iff_of_true hsmall (by omega), fun hok => ?_⟩
        rw [hsmall] at hok
        cases hok
      have hok := hcomes.ok_iff.2 ⟨result, rfl, hfits⟩
      have hresult := hcomes.result_eq (capacity - t.offset)
      rw [if_neg (not_not_intro hok), hresult]
      by_cases hforbidden : clobbersForbidden options result = true
      · rw [if_pos hforbidden, if_pos hforbidden]
        exact ⟨iff_of_false (fun h => by cases h) (by omega), fun h => by cases h⟩
      · rw [if_neg hforbidden, if_neg hforbidden, ← add_assoc, add_assoc relocatedAddress,
          ← BitVec.ofNat_add, ← hresult]
        refine ih hinsts.2 ?_
        show t.offset + _ ≤ capacity
        rw [hresult]
        omega

theorem relocatePrologue_asks {tables : Tables} {code : List Byte} {priors : Nat → Inst}
    (hnative : isNative engine = true)
    (hblock : decodeBlockUntil tables engine code originalAddress (max options.minOverwriteSize 1)
      maxBlockInstructions priors = .ok block)
    (hinsts : ∀ inst ∈ block.insts, inst.bytes.length = inst.size) :
    Asks (relocatePrologue tables engine code originalAddress relocatedAddress options capacity priors)
      capacity (asked engine options block.insts relocatedAddress) := by
  obtain ⟨hbpf, hwasm⟩ := isNative_arch hnative
  have hasks : Asks (finishRelocation engine options originalAddress relocatedAddress capacity block
      block.insts {}) capacity
      (0 + asked engine options block.insts (relocatedAddress + BitVec.ofNat 64 0)) :=
    relocateInsts_asks hbpf hwasm hinsts (Nat.zero_le capacity)
  have hstart : relocatedAddress + BitVec.ofNat 64 0 = relocatedAddress := BitVec.add_zero _
  rw [hstart, Nat.zero_add] at hasks
  rwa [relocatePrologue_of_decoded hnative hblock]

/-! ## The plan -/

/-- The trampoline of the plan has room for what the relocation is, and takes the place it planned. -/
structure Covers (tables : Tables) (engine : Engine) (code : List Byte)
    (originalAddress relocatedAddress : BitVec 64) (options : RelocateOptions) (priors : Nat → Inst)
    (plan : DetourPlan) : Prop where
  fits : ∀ capacity,
    (relocatePrologue tables engine code originalAddress relocatedAddress options capacity
      priors).status = .ok →
    (relocatePrologue tables engine code originalAddress relocatedAddress options capacity
        priors).result.overwrittenSize = plan.minOverwriteSize ∧
      (relocatePrologue tables engine code originalAddress relocatedAddress options capacity
        priors).result.relocatedSize ≤ plan.trampolineMinSize
  enough : ∀ capacity, plan.trampolineMinSize ≤ capacity →
    (relocatePrologue tables engine code originalAddress relocatedAddress options capacity
      priors).status ≠ .outputTooSmall

section

variable {tables : Tables} {code : List Byte} {originalAddress replacementAddress : BitVec 64}
  {planOptions : Option DetourPlanOptions} {planPriors priors : Nat → Inst} {plan : DetourPlan}
  {bound : BranchPlanBound}

theorem decodeBlockUntil_of_plan
    (hplan : planDetour tables engine code originalAddress replacementAddress planOptions planPriors =
      .ok plan)
    (hblock : planBlock tables engine code originalAddress replacementAddress planOptions planPriors =
      .ok block)
    (hwritten : AllWritten tables engine code block)
    (hmin : options.minOverwriteSize = plan.minOverwriteSize) :
    decodeBlockUntil tables engine code originalAddress (max options.minOverwriteSize 1)
      maxBlockInstructions priors = .ok block := by
  obtain ⟨block', bound', hplanned⟩ := planDetour_of_ok hplan
  cases hblock.symm.trans hplanned.decoded
  obtain ⟨hbpf, hwasm⟩ := isNative_arch hplanned.native
  have hpatch := hplanned.patch
  unfold planBlock at hblock
  have htotal := (decodeBlockUntil_decoded hblock).2.2
  unfold minOverwrite at htotal
  rw [hmin, hplanned.overwrite, max_eq_left (by omega)]
  exact decodeBlockUntil_again hbpf hwasm hblock hwritten.sameRecords

theorem relocatePrologue_overwritten
    (hblock : decodeBlockUntil tables engine code originalAddress (max options.minOverwriteSize 1)
      maxBlockInstructions priors = .ok block)
    (hok : (relocatePrologue tables engine code originalAddress relocatedAddress options capacity
      priors).status = .ok) :
    (relocatePrologue tables engine code originalAddress relocatedAddress options capacity
      priors).result.overwrittenSize = block.totalSize := by
  obtain ⟨-, block', t, hblock', -, heq⟩ := relocatePrologue_of_ok hok
  cases hblock.symm.trans hblock'
  rw [heq] at hok ⊢
  unfold appendJumpBack at hok ⊢
  simp only at hok ⊢
  split
  · next hfail =>
    rw [if_pos hfail] at hok
    exact absurd hok hfail
  · rfl

/-- A plan covers a relocation of the same code with the overwrite length and the branch mode of the
plan, to whatever place and whatever the arrays of records held, where it underestimates no
instruction of the block and the decoder writes each record. -/
theorem planDetour_covers
    (hplan : planDetour tables engine code originalAddress replacementAddress planOptions planPriors =
      .ok plan)
    (hblock : planBlock tables engine code originalAddress replacementAddress planOptions planPriors =
      .ok block)
    (hwritten : AllWritten tables engine code block)
    (hfits : ∀ inst ∈ block.insts, ¬ Underestimated engine inst)
    (hmin : options.minOverwriteSize = plan.minOverwriteSize)
    (hmode : options.jumpBackMode = planBranchMode planOptions) :
    Covers tables engine code originalAddress relocatedAddress options priors plan := by
  have hagain : decodeBlockUntil tables engine code originalAddress (max options.minOverwriteSize 1)
      maxBlockInstructions priors = .ok block := decodeBlockUntil_of_plan hplan hblock hwritten hmin
  obtain ⟨block', bound, hplanned⟩ := planDetour_of_ok hplan
  cases hblock.symm.trans hplanned.decoded
  obtain ⟨hbpf, hwasm⟩ := isNative_arch hplanned.native
  have hinsts := (decodeBlockUntil_decoded hagain).1.bytes_length_of_written hbpf hwasm hwritten
  have hasks (capacity : Nat) : Asks (relocatePrologue tables engine code originalAddress
      relocatedAddress options capacity priors) capacity
      (asked engine options block.insts relocatedAddress) :=
    relocatePrologue_asks hplanned.native hagain hinsts
  have hbound := hplanned.bound
  rw [← hmode] at hbound
  have hle : asked engine options block.insts relocatedAddress ≤ plan.trampolineMinSize := by
    rw [hplanned.size]
    exact asked_le hbound hfits
  refine ⟨fun capacity hok => ⟨?_, ?_⟩, fun capacity hroom hsmall => ?_⟩
  · rw [relocatePrologue_overwritten hagain hok, hplanned.overwrite]
  · rw [(hasks capacity).size hok]
    exact hle
  · exact absurd ((hasks capacity).tooSmall.1 hsmall) (not_lt.2 (hle.trans hroom))

end

/-- `tbz w0, #0`, `bl`, `b.eq` and `adr` at 0x1000, each of them with a target nearby. -/
def branchyCode : List Byte :=
  store32le 0x36000060 ++ store32le 0x94000040 ++ store32le 0x54000080 ++ store32le 0x10000081

/-- At 0x80000 the `tbz` is expanded, and a jump back to afar is made through a register. -/
theorem planDetour_covers_branchyCode : ∃ plan,
    planDetour noTables aarch64Engine branchyCode 0x1000 0x7f0000000000 none
      (fun _ => aarch64Engine.emptyInst) = .ok plan ∧
    plan.minOverwriteSize = 16 ∧ plan.trampolineMinSize = 76 ∧
    Covers noTables aarch64Engine branchyCode 0x1000 0x80000
      { minOverwriteSize := 16, continuationAddress := 0x7f0000001000 }
      (fun _ => aarch64Engine.emptyInst) plan := by
  have hplan : planDetour noTables aarch64Engine branchyCode 0x1000 0x7f0000000000 none
      (fun _ => aarch64Engine.emptyInst) = .ok _ := rfl
  refine ⟨_, hplan, rfl, rfl, planDetour_covers hplan rfl ?_ ?_ rfl rfl⟩
  · decide
  · decide

/-- The row of `mov r16, r/m16`. -/
def movTables : Tables :=
  let row : X86.Record :=
    { id := 67297, mnemonicId := X86.Mnemonic.base + 447, opcode := 0x8b, opcodeMap := 0
      modrmKind := .any, opSize := .o16, instClass := .alu, decodeForm := .modrmRegRm
      operands := [{ kind := .reg, regClass := .gpr, width := 16 }, { kind := .mem, width := 16 }]
      rmOperand := 1, regOperand := 0 }
  { noTables with
    x86 := { noTables.x86 with bucket := fun index => if index = 7543 then [row] else [] } }

/-- A RIP-relative load of fifteen bytes. -/
def longMov : List Byte := List.replicate 9 0x66 ++ [0x8b, 0x05, 0, 0, 0, 0]

/-- With the absolute jump back the load is one byte longer than its bound. -/
theorem planDetour_not_covers :
    ∃ (tables : Tables) (engine : Engine) (code : List Byte) (originalAddress replacementAddress
      relocatedAddress : BitVec 64) (planOptions : Option DetourPlanOptions) (options : RelocateOptions)
      (priors : Nat → Inst) (plan : DetourPlan),
      planDetour tables engine code originalAddress replacementAddress planOptions priors = .ok plan ∧
      (∀ k, (priors k).bytes.length = (priors k).size) ∧
      options.minOverwriteSize = plan.minOverwriteSize ∧
      options.jumpBackMode = planBranchMode planOptions ∧
      ¬ Covers tables engine code originalAddress relocatedAddress options priors plan := by
  refine ⟨movTables, x86Engine64, longMov, 0x1000, 0x2000, 0x10000, none,
    { minOverwriteSize := 15, continuationAddress := 0x7fff00000000 },
    fun _ => x86Engine64.emptyInst, _, rfl, fun _ => rfl, rfl, rfl, fun hcovers => ?_⟩
  exact absurd (hcovers.fits 64 (by decide)).2 (by decide)

end AsmKit
