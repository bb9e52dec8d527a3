import AsmKit.Lib.SignedField
import AsmKit.Relocate.Forms
import AsmKit.Relocate.Plan

/-!
# Which instructions can be relocated

A plan rules an instruction out by its flags. The relocators never look at the plan: they have a
form for an instruction or none, and some forms only in the reach of the target.
-/

namespace AsmKit

open SignedField

/-! ## What the analyses rule out -/

/-- The plan refuses the instruction. On x86 the mark of an unsupported relocation counts only where
no relative operand is found. -/
def RuledOut (engine : Engine) (inst : Inst) : Prop :=
  match engine.target.arch with
  | .x86 => inst.has InstFlag.unsupportedReloc = true ∧
      ¬ (inst.has InstFlag.pcRelative = true ∧ (X86.pcRelOperand inst).isSome = true)
  | .arm => inst.instClass = .armIt ∧ ¬ (inst.has InstFlag.pcRelative = true ∧ inst.operands ≠ [])
  | .aarch64 | .bpf | .wasm => False

variable {engine : Engine} {inst : Inst} {address : BitVec 64}

theorem X86.analyze_reject_iff : (X86.analyze inst).relocKind = .reject ↔
    inst.has InstFlag.unsupportedReloc = true ∧
      ¬ (inst.has InstFlag.pcRelative = true ∧ (pcRelOperand inst).isSome = true) := by
  unfold X86.analyze
  simp only
  split
  · next hflag =>
    rw [and_iff_left fun h => hflag h.1]
    split <;> simp [*]
  next hflag =>
  rw [not_not] at hflag
  split
  · next hnone =>
    simp only [hnone, Option.isSome_none, Bool.false_eq_true, and_false, not_false_eq_true, and_true]
    split <;> simp [*]
  · next hsome => simp [hsome, hflag]

theorem Arm.analyze_reject_iff : (Arm.analyze inst).relocKind = .reject ↔
    inst.instClass = .armIt ∧ ¬ (inst.has InstFlag.pcRelative = true ∧ inst.operands ≠ []) := by
  unfold Arm.analyze
  simp only
  split
  · next hrel => simp [hrel]
  · next hrel =>
    simp only [hrel, not_false_eq_true, and_true]
    by_cases hit : inst.instClass = .armIt
    · simp [hit]
    · simp [beq_eq_false_iff_ne.2 hit, hit]

theorem A64.analyze_not_reject : (A64.analyze inst).relocKind ≠ .reject := by
  unfold A64.analyze
  simp only
  split
  · nofun
  split <;> nofun

theorem rejected_iff (hbpf : engine.target.arch ≠ .bpf) (hwasm : engine.target.arch ≠ .wasm) :
    Rejected engine inst ↔ RuledOut engine inst := by
  unfold Rejected RuledOut semanticsOf
  cases harch : engine.target.arch with
  | x86 => exact X86.analyze_reject_iff
  | arm => exact Arm.analyze_reject_iff
  | aarch64 => exact iff_of_false A64.analyze_not_reject id
  | bpf => exact absurd harch hbpf
  | wasm => exact absurd harch hwasm

/-! ## What the relocators support -/

def X86.isTransfer (inst : Inst) : Bool :=
  inst.instClass == .directCall || inst.instClass == .directBranch || inst.instClass == .condBranch

/-- A branch needs an operand, and a conditional one the opcode of a `jcc`. What else is relative
needs its displacement found. -/
def X86.Supported (inst : Inst) : Prop :=
  if X86.isTransfer inst then
    inst.operands ≠ [] ∧ (inst.instClass = .condBranch → ∃ i, findOpcode inst = some i ∧
      (isShortJcc (condOpcode inst i) = true ∨ isNearJcc (condOpcode inst i) = true))
  else
    inst.has InstFlag.pcRelative = true → inst.operands ≠ [] →
      (findRipDisp inst).isSome = true ∧ (pcRelOperand inst).isSome = true

/-- The distances for which x86 has only a relative form. -/
def X86.InReach (engine : Engine) (inst : Inst) (address : BitVec 64) : Prop :=
  if inst.instClass = .condBranch then
    i64FitsI32 (pcRelativeOperandTarget inst inst.operand0 - (address + 6)) = true ∨
      engine.config.mode = .x86_64
  else if X86.isTransfer inst then
    relativeInRange engine (inst.instClass == .directCall) address
      (pcRelativeOperandTarget inst inst.operand0) = true ∨ engine.config.mode = .x86_64
  else
    inst.has InstFlag.pcRelative = true → inst.operands ≠ [] → ∀ operand ∈ pcRelOperand inst,
      i64FitsI32 (pcRelativeOperandTarget inst operand - (address + BitVec.ofNat 64 inst.size)) = true

def Arm.Supported (inst : Inst) : Prop :=
  inst.instClass ≠ .armIt ∧ (inst.has InstFlag.pcRelative = true →
    inst.instClass = .directBranch ∨ inst.instClass = .directCall)

def Arm.InReach (engine : Engine) (inst : Inst) (address : BitVec 64) : Prop :=
  inst.instClass = .directBranch ∨ inst.instClass = .directCall →
    relativeInRange engine (inst.instClass == .directCall) address inst.operand0.absTarget = true ∨
      engine.config.mode = .armA32

/-- The word has a field for an offset. -/
def A64.hasOffset (w : BitVec 32) : Bool :=
  wordHasOff19 w || wordIsTbzTbnz w || (wordIsAdr w || wordIsAdrp w)

def A64.Supported (inst : Inst) : Prop :=
  if isUnconditionalPcBranchOrCall inst then (findPcRelOperand inst).isSome = true
  else
    inst.has InstFlag.pcRelative = true → (findPcRelOperand inst).isSome = true →
      hasOffset (load32le inst.bytes) = true

/-- The distance that is encoded: in pages for `adrp`. -/
def A64.encodedDisp (inst : Inst) (target address : BitVec 64) : BitVec 64 :=
  if isAdrp inst then ((target &&& ~~~0xfff) - (address &&& ~~~0xfff)).sshiftRight 12
  else target - address

def A64.InReach (inst : Inst) (address : BitVec 64) : Prop :=
  isUnconditionalPcBranchOrCall inst = false → inst.has InstFlag.pcRelative = true →
    ∀ operand ∈ findPcRelOperand inst, isConditionalPcBranch inst = true ∨
      ¬ outOfReach inst (encodedDisp inst (operandTarget inst operand) address)

/-- The relocator of the target has a form for the instruction. -/
def Supported (engine : Engine) (inst : Inst) : Prop :=
  match engine.target.arch with
  | .x86 => X86.Supported inst
  | .arm => Arm.Supported inst
  | .aarch64 => A64.Supported inst
  | .bpf | .wasm => False

/-- The instruction reaches its target from the address, or has a form that reaches everywhere. -/
def InReach (engine : Engine) (inst : Inst) (address : BitVec 64) : Prop :=
  match engine.target.arch with
  | .x86 => X86.InReach engine inst address
  | .arm => Arm.InReach engine inst address
  | .aarch64 => A64.InReach inst address
  | .bpf | .wasm => False

/-! ## The forms -/

/-- The form is there just for what is supported and in reach, and only what is not supported is
refused as unsupported. -/
structure FormOf (supported inReach : Prop) (form : Except Status EmitResult) : Prop where
  ok_iff : (∃ result, form = .ok result) ↔ supported ∧ inReach
  unsupported : form = .error .unsupportedRelocation → ¬ supported

variable {supported inReach : Prop} {form : Except Status EmitResult} {result : EmitResult}

theorem formOf_ok (hsupported : supported) (hreach : inReach) :
    FormOf supported inReach (.ok result) :=
  ⟨iff_of_true ⟨result, rfl⟩ ⟨hsupported, hreach⟩, nofun⟩

theorem formOf_unsupported (h : ¬ supported) :
    FormOf supported inReach (.error .unsupportedRelocation) :=
  ⟨iff_of_false (by rintro ⟨result, ⟨⟩⟩) fun hand => h hand.1, fun _ => h⟩

theorem formOf_outOfRange (h : ¬ inReach) : FormOf supported inReach (.error .branchOutOfRange) :=
  ⟨iff_of_false (by rintro ⟨result, ⟨⟩⟩) fun hand => h hand.2, nofun⟩

theorem formOf_directForm {isCall : Bool} {toAddress : BitVec 64} (hsupported : supported)
    (hreach : inReach ↔ relativeInRange engine isCall address toAddress = true ∨
      (absoluteForm engine isCall).isSome = true) :
    FormOf supported inReach (directForm engine isCall address toAddress) := by
  unfold directForm
  split
  · next hrange => exact formOf_ok hsupported (hreach.2 (.inl hrange))
  next hrange =>
  split
  · next habs => exact formOf_ok hsupported (hreach.2 (.inr (by rw [habs]; rfl)))
  · next habs =>
    refine formOf_outOfRange fun h => ?_
    rcases hreach.1 h with h | h
    · exact hrange h
    · rw [habs] at h
      cases h

theorem X86.isTransfer_iff : X86.isTransfer inst = true ↔
    inst.instClass = .directCall ∨ inst.instClass = .directBranch ∨ inst.instClass = .condBranch := by
  simp only [isTransfer, Bool.or_eq_true, beq_iff_eq, or_assoc]

theorem X86.formOf_form (harch : engine.target.arch = .x86) :
    FormOf (X86.Supported inst) (X86.InReach engine inst address) (X86.form engine inst address) := by
  unfold X86.form
  by_cases htransfer : X86.isTransfer inst = true
  · rw [if_pos (X86.isTransfer_iff.1 htransfer)]
    unfold X86.Supported X86.InReach
    simp only [if_pos htransfer]
    by_cases hops : inst.operands = []
    · rw [if_pos hops]
      exact formOf_unsupported fun h => h.1 hops
    rw [if_neg hops]
    by_cases hcond : inst.instClass = .condBranch
    · simp only [if_pos hcond]
      unfold condForm
      split
      · next hnone =>
        refine formOf_unsupported fun h => ?_
        obtain ⟨i, hsome, -⟩ := h.2 hcond
        rw [hnone] at hsome
        cases hsome
      next i hsome =>
      split
      swap
      · next hjcc =>
        refine formOf_unsupported fun h => ?_
        obtain ⟨j, hsome', hjcc'⟩ := h.2 hcond
        cases hsome.symm.trans hsome'
        exact hjcc hjcc'
      next hjcc =>
      have hsupported : inst.operands ≠ [] ∧ (inst.instClass = .condBranch → ∃ i,
          findOpcode inst = some i ∧
            (isShortJcc (condOpcode inst i) = true ∨ isNearJcc (condOpcode inst i) = true)) :=
        ⟨hops, fun _ => ⟨i, hsome, hjcc⟩⟩
      split
      · next hfits => exact formOf_ok hsupported (.inl hfits)
      next hfits =>
      split
      · next hmode => exact formOf_ok hsupported (.inr hmode)
      · next hmode => exact formOf_outOfRange fun h => h.elim hfits hmode
    · simp only [if_neg hcond]
      refine formOf_directForm ⟨hops, fun h => absurd h hcond⟩ (or_congr_right ?_)
      rw [absoluteForm, harch]
      by_cases hmode : engine.config.mode = .x86_64 <;> simp [hmode]
  · rw [if_neg fun h => htransfer (X86.isTransfer_iff.2 h)]
    have hcond : inst.instClass ≠ .condBranch :=
      fun h => htransfer (X86.isTransfer_iff.2 (.inr (.inr h)))
    unfold X86.Supported X86.InReach
    simp only [if_neg htransfer, if_neg hcond]
    split
    swap
    · next hrel =>
      exact formOf_ok (fun hflag hops => absurd ⟨hflag, hops⟩ hrel)
        fun hflag hops => absurd ⟨hflag, hops⟩ hrel
    next hrel =>
    simp only [hrel.1, hrel.2, ne_eq, not_false_eq_true, true_implies]
    unfold ripForm
    split
    · next hdisp hoperand =>
      simp only [hdisp, hoperand, Option.isSome_some, and_self, Option.mem_some_iff, forall_eq']
      split
      · next hfits => exact formOf_ok trivial hfits
      · next hfits => exact formOf_outOfRange hfits
    · next hnone =>
      refine formOf_unsupported fun h => ?_
      obtain ⟨d, hd⟩ := Option.isSome_iff_exists.1 h.1
      obtain ⟨o, ho⟩ := Option.isSome_iff_exists.1 h.2
      exact hnone d o hd ho

theorem Arm.formOf_form (harch : engine.target.arch = .arm) :
    FormOf (Arm.Supported inst) (Arm.InReach engine inst address) (Arm.form engine inst address) := by
  unfold Arm.form
  split
  · next hit => exact formOf_unsupported fun h => h.1 hit
  next hit =>
  split
  · next hdirect =>
    refine formOf_directForm ⟨hit, fun _ => hdirect⟩ ?_
    rw [Arm.InReach, absoluteForm, harch]
    by_cases hmode : engine.config.mode = .armA32 <;> simp [hdirect, hmode]
  next hdirect =>
  split
  · next hrel => exact formOf_unsupported fun h => hdirect (h.2 hrel)
  · next hrel =>
    exact formOf_ok ⟨hit, fun h => absurd h hrel⟩ fun h => absurd h hdirect

theorem A64.relocDisp_eq {target : BitVec 64} :
    relocDisp inst target address = some (encodedDisp inst target address) := by
  unfold relocDisp encodedDisp
  split
  · have hpages : (target &&& ~~~0xfff) - (address &&& ~~~0xfff) &&& 0xfff = 0#64 :=
      (and_mask_eq_zero_iff _ 12 (by decide)).2
        (dvd_sub _ _ 12 (by decide) (dvd_and_not_mask _ 12 (by decide))
          (dvd_and_not_mask _ 12 (by decide)))
    exact if_neg (not_not_intro hpages)
  · rfl

theorem A64.patchWord_isSome {w : BitVec 32} {disp : BitVec 64} :
    (patchWord w disp).isSome = hasOffset w := by
  unfold patchWord hasOffset
  cases wordHasOff19 w with
  | true => rfl
  | false =>
    cases wordIsTbzTbnz w with
    | true => rfl
    | false =>
      cases wordIsAdr w || wordIsAdrp w with
      | true => rfl
      | false => rfl

theorem A64.hasOffset_of_conditional (h : isConditionalPcBranch inst = true) :
    hasOffset (load32le inst.bytes) = true := by
  unfold isConditionalPcBranch at h
  simp only [Bool.and_eq_true] at h
  have hword : instWord inst = load32le inst.bytes := by
    unfold instWord at h ⊢
    split
    · rfl
    · next hsize =>
      rw [if_neg hsize] at h
      exact absurd h.2 (by decide)
  rw [hword] at h
  unfold hasOffset wordHasOff19
  rcases Bool.or_eq_true_iff.1 h.2 with h | h
  · rcases Bool.or_eq_true_iff.1 h with h | h <;> simp [h]
  · simp [h]

theorem A64.formOf_form (harch : engine.target.arch = .aarch64) :
    FormOf (A64.Supported inst) (A64.InReach inst address) (A64.form engine inst address) := by
  unfold A64.form A64.Supported A64.InReach
  cases hpc : findPcRelOperand inst with
  | none =>
    simp only
    by_cases hdirect : isUnconditionalPcBranchOrCall inst = true
    · simp only [if_pos hdirect]
      exact formOf_unsupported nofun
    · simp only [if_neg hdirect]
      exact formOf_ok (fun _ h => by cases h) nofun
  | some operand =>
    simp only [Option.isSome_some, true_implies, Option.mem_some_iff, forall_eq']
    by_cases hdirect : isUnconditionalPcBranchOrCall inst = true
    · simp only [if_pos hdirect]
      refine formOf_directForm trivial ?_
      rw [absoluteForm, harch]
      simp [hdirect]
    simp only [if_neg hdirect]
    simp only [eq_false_of_ne_true hdirect, true_implies]
    by_cases hrel : inst.has InstFlag.pcRelative = true
    swap
    · simp only [if_neg hrel]
      exact formOf_ok (fun h => absurd h hrel) fun h => absurd h hrel
    simp only [if_pos hrel]
    simp only [hrel, true_implies, pcRelForm, relocDisp_eq]
    split
    · next hreach =>
      split
      · next hcond => exact formOf_ok (hasOffset_of_conditional hcond) (.inl hcond)
      · next hcond => exact formOf_outOfRange fun h => h.elim hcond fun h => h hreach
    next hreach =>
    rw [patchWord_isSome]
    split
    · next hoffset => exact formOf_ok hoffset (.inr hreach)
    · next hoffset => exact formOf_unsupported hoffset

theorem formOf_relocForm :
    FormOf (Supported engine inst) (InReach engine inst address) (relocForm engine inst address) := by
  unfold Supported InReach relocForm
  cases harch : engine.target.arch with
  | x86 => exact X86.formOf_form harch
  | arm => exact Arm.formOf_form harch
  | aarch64 => exact A64.formOf_form harch
  | bpf | wasm => exact ⟨iff_of_false (by rintro ⟨result, ⟨⟩⟩) fun h => h.1, nofun⟩

end AsmKit
