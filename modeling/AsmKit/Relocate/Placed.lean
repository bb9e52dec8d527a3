import AsmKit.Relocate.Plan
import AsmKit.Relocate.Tiles

/-!
# Where the relocated instructions come to lie

The loop of a relocation, told from the forms alone: each form lies behind the one before it, as far
as there is room, and the loop ends early only for a form that is missing, too long or forbidden.
-/

namespace AsmKit

open Labelled

/-! ## The forms -/

section

variable (engine : Engine)

/-- The size of the form of an instruction that has one, and room for it. -/
def fittingSize (inst : Inst) (address : BitVec 64) (capacity : Nat) : Option Nat :=
  match relocForm engine inst address with
  | .error _ => none
  | .ok result => if result.size ≤ capacity then some result.size else none

/-- The relocated instructions with their new addresses, as far as there is room for them. -/
def placed : List Inst → BitVec 64 → Nat → List (Inst × BitVec 64)
  | [], _, _ => []
  | inst :: insts, address, capacity =>
    match fittingSize engine inst address capacity with
    | none => []
    | some size => (inst, address) :: placed insts (address + BitVec.ofNat 64 size) (capacity - size)

/-- The size of the relocated instructions, where there is room for all of them. -/
def placedSize : List Inst → BitVec 64 → Nat → Option Nat
  | [], _, _ => some 0
  | inst :: insts, address, capacity =>
    match fittingSize engine inst address capacity with
    | none => none
    | some size =>
      (placedSize insts (address + BitVec.ofNat 64 size) (capacity - size)).map (size + ·)

/-- The form of an instruction clobbers what the options do not permit. -/
def FormForbidden (options : RelocateOptions) (p : Inst × BitVec 64) : Prop :=
  ∃ result, relocForm engine p.1 p.2 = .ok result ∧ clobbersForbidden options result = true

end

/-! ## What a form can be refused for -/

/-- The refusals of a form. -/
def FormError (status : Status) : Prop :=
  status = .branchOutOfRange ∨ status = .unsupportedRelocation

variable {engine : Engine} {inst : Inst} {address : BitVec 64} {status : Status}

theorem directForm_error {isCall : Bool} {fromAddress toAddress : BitVec 64}
    (h : directForm engine isCall fromAddress toAddress = .error status) : FormError status := by
  unfold directForm at h
  split at h
  · cases h
  split at h
  · cases h
  · cases h
    exact .inl rfl

theorem X86.form_error (h : X86.form engine inst address = .error status) : FormError status := by
  unfold X86.form X86.condForm X86.ripForm at h
  split at h
  · split at h
    · cases h
      exact .inr rfl
    split at h
    · split at h
      · cases h
        exact .inr rfl
      split at h
      · split at h
        · cases h
        split at h
        · cases h
        · cases h
          exact .inl rfl
      · cases h
        exact .inr rfl
    · exact directForm_error h
  split at h
  · split at h
    · split at h
      · cases h
      · cases h
        exact .inl rfl
    · cases h
      exact .inr rfl
  · cases h

theorem Arm.form_error (h : Arm.form engine inst address = .error status) : FormError status := by
  unfold Arm.form at h
  split at h
  · cases h
    exact .inr rfl
  split at h
  · exact directForm_error h
  split at h
  · cases h
    exact .inr rfl
  · cases h

theorem A64.form_error (h : A64.form engine inst address = .error status) : FormError status := by
  unfold A64.form A64.pcRelForm at h
  split at h
  · split at h
    · cases h
      exact .inr rfl
    · cases h
  split at h
  · exact directForm_error h
  split at h
  swap
  · cases h
  split at h
  · cases h
    exact .inr rfl
  split at h
  · split at h
    · cases h
    · cases h
      exact .inl rfl
  split at h
  · cases h
  · cases h
    exact .inr rfl

theorem relocForm_error (hbpf : engine.target.arch ≠ .bpf) (hwasm : engine.target.arch ≠ .wasm)
    (h : relocForm engine inst address = .error status) : FormError status := by
  unfold relocForm at h
  cases harch : engine.target.arch with
  | x86 =>
    rw [harch] at h
    exact X86.form_error h
  | arm =>
    rw [harch] at h
    exact Arm.form_error h
  | aarch64 =>
    rw [harch] at h
    exact A64.form_error h
  | bpf => exact absurd harch hbpf
  | wasm => exact absurd harch hwasm

/-! ## The loop -/

variable {options options' : RelocateOptions} {relocatedAddress : BitVec 64} {capacity : Nat}
  {insts : List Inst} {t t' : Trampoline}

theorem emit_status_of_not_fitting (hsize : inst.bytes.length = inst.size)
    (h : fittingSize engine inst address capacity = none) :
    (relocateInst engine inst address capacity).status = .outputTooSmall ∨
      relocForm engine inst address = .error (relocateInst engine inst address capacity).status := by
  have hcomes : ComesTo (refusalRoom engine inst address) (relocateInst engine inst address)
      (relocForm engine inst address) := relocateInst_comesTo hsize
  unfold fittingSize at h
  cases hform : relocForm engine inst address with
  | error status =>
    rw [hform] at hcomes
    rw [hcomes.2 capacity]
    split
    · exact .inl rfl
    · exact .inr rfl
  | ok result =>
    rw [hform] at hcomes h
    obtain ⟨code, -, heq⟩ := hcomes
    have hroom : ¬ result.size ≤ capacity := fun hroom => by simp [hroom] at h
    rw [heq, emitBytes, if_pos (not_le.1 hroom)]
    exact .inl rfl

theorem refused_status (hbpf : engine.target.arch ≠ .bpf) (hwasm : engine.target.arch ≠ .wasm)
    (h : status = .outputTooSmall ∨ relocForm engine inst address = .error status) :
    status ≠ .ok ∧ status ≠ .forbiddenClobber := by
  rcases h with rfl | h
  · exact ⟨nofun, nofun⟩
  · rcases relocForm_error hbpf hwasm h with rfl | rfl
    · exact ⟨nofun, nofun⟩
    · exact ⟨nofun, nofun⟩

theorem emit_of_fitting (hsize : inst.bytes.length = inst.size) {size : Nat}
    (h : fittingSize engine inst address capacity = some size) :
    ∃ result, relocForm engine inst address = .ok result ∧ result.size = size ∧
      (relocateInst engine inst address capacity).status = .ok ∧
      (relocateInst engine inst address capacity).result = result := by
  have hcomes : ComesTo (refusalRoom engine inst address) (relocateInst engine inst address)
      (relocForm engine inst address) := relocateInst_comesTo hsize
  unfold fittingSize at h
  cases hform : relocForm engine inst address with
  | error status =>
    rw [hform] at h
    cases h
  | ok result =>
    rw [hform] at hcomes h
    simp only at h
    split at h
    · next hroom =>
      cases h
      exact ⟨result, rfl, rfl, hcomes.ok_iff.2 ⟨result, rfl, hroom⟩, hcomes.result_eq capacity⟩
    · cases h

/-- How the loop ends that goes on at an address with some room, behind an offset. -/
inductive LoopOutcome (engine : Engine) (options : RelocateOptions) (insts : List Inst)
    (address : BitVec 64) (room offset : Nat) : Except RelocateOut Trampoline → Prop
  | relocated {t : Trampoline} {size : Nat} :
      (∀ p ∈ placed engine insts address room, ¬ FormForbidden engine options p) →
      placedSize engine insts address room = some size → t.offset = offset + size →
      LoopOutcome _ _ _ _ _ _ (.ok t)
  | forbidden {out : RelocateOut} :
      (∃ p ∈ placed engine insts address room, FormForbidden engine options p) →
      out.status = .forbiddenClobber → LoopOutcome _ _ _ _ _ _ (.error out)
  | stopped {out : RelocateOut} :
      (∀ p ∈ placed engine insts address room, ¬ FormForbidden engine options p) →
      placedSize engine insts address room = none →
      (out.status = .outputTooSmall ∨
        ∃ inst ∈ insts, ∃ start, relocForm engine inst start = .error out.status) →
      LoopOutcome _ _ _ _ _ _ (.error out)

theorem relocateInsts_outcome (hbpf : engine.target.arch ≠ .bpf) (hwasm : engine.target.arch ≠ .wasm)
    (hinsts : ∀ inst ∈ insts, inst.bytes.length = inst.size) :
    LoopOutcome engine options insts (relocatedAddress + BitVec.ofNat 64 t.offset)
      (capacity - t.offset) t.offset
      (relocateInsts engine options relocatedAddress capacity insts t) := by
  induction insts generalizing t with
  | nil => exact .relocated (by simp [placed]) rfl rfl
  | cons inst insts ih =>
    rw [List.forall_mem_cons] at hinsts
    have hsem : analyzeInst engine inst = .ok (semanticsOf engine inst) := analyzeInst_eq
    rw [relocateInsts_cons]
    cases hfit : fittingSize engine inst (relocatedAddress + BitVec.ofNat 64 t.offset)
        (capacity - t.offset) with
    | none =>
      have hrefused := emit_status_of_not_fitting hinsts.1 hfit
      have hstatus := (refused_status hbpf hwasm hrefused).1
      rw [relocateInsts_singleton_error_iff.2 (.emit hsem hstatus), Except.bind]
      refine .stopped ?_ ?_ (hrefused.imp_right fun h => ⟨inst, List.mem_cons_self, _, h⟩)
      · simp [placed, hfit]
      · simp [placedSize, hfit]
    | some size =>
      obtain ⟨result, hform, hsize, hstatus, hresult⟩ := emit_of_fitting hinsts.1 hfit
      by_cases hforbidden : clobbersForbidden options result = true
      · have hclobber : clobbersForbidden options
            (t.emit engine relocatedAddress capacity inst).result = true := by
          rwa [Trampoline.emit, hresult]
        rw [relocateInsts_singleton_error_iff.2 (.clobber hsem hstatus hclobber), Except.bind]
        refine .forbidden ⟨(inst, relocatedAddress + BitVec.ofNat 64 t.offset), ?_, result, hform,
          hforbidden⟩ rfl
        simp [placed, hfit]
      · have hpermitted : clobbersForbidden options
            (t.emit engine relocatedAddress capacity inst).result = false := by
          rwa [Trampoline.emit, hresult, ← Bool.not_eq_true]
        have hallowed : ¬ FormForbidden engine options
            (inst, relocatedAddress + BitVec.ofNat 64 t.offset) := by
          rintro ⟨result', hform', hforbidden'⟩
          cases hform.symm.trans hform'
          exact hforbidden hforbidden'
        rw [relocateInsts_singleton_ok_iff.2 ⟨hstatus, hpermitted, _, hsem, rfl⟩, Except.bind]
        have hrest := ih (t := Trampoline.push { t with result := t.result.addHazards (semanticsOf engine inst) }
          relocatedAddress inst (t.emit engine relocatedAddress capacity inst)) hinsts.2
        have hoffset : (Trampoline.push { t with result := t.result.addHazards (semanticsOf engine inst) } relocatedAddress
            inst (t.emit engine relocatedAddress capacity inst)).offset = t.offset + size := by
          simp only [Trampoline.push, Trampoline.emit, hresult, hsize]
        rw [hoffset, BitVec.ofNat_add, ← add_assoc, ← Nat.sub_sub] at hrest
        generalize relocateInsts engine options relocatedAddress capacity insts _ = last at hrest ⊢
        cases hrest with
        | relocated hplaced hrestSize hlast =>
          refine .relocated ?_ ?_ (hlast.trans (add_assoc _ _ _))
          · simpa only [placed, hfit, List.forall_mem_cons] using ⟨hallowed, hplaced⟩
          · simp only [placedSize, hfit, hrestSize, Option.map_some]
        | forbidden hplaced hlast =>
          obtain ⟨p, hp, hforbids⟩ := hplaced
          refine .forbidden ⟨p, ?_, hforbids⟩ hlast
          simpa only [placed, hfit] using List.mem_cons_of_mem _ hp
        | stopped hplaced hrestSize hlast =>
          refine .stopped ?_ ?_ (hlast.imp_right ?_)
          · simpa only [placed, hfit, List.forall_mem_cons] using ⟨hallowed, hplaced⟩
          · simp only [placedSize, hfit, hrestSize, Option.map_none]
          · rintro ⟨inst, hinst, h⟩
            exact ⟨inst, List.mem_cons_of_mem _ hinst, h⟩

theorem relocateInsts_outcome_start (hbpf : engine.target.arch ≠ .bpf)
    (hwasm : engine.target.arch ≠ .wasm) (hinsts : ∀ inst ∈ insts, inst.bytes.length = inst.size) :
    LoopOutcome engine options insts relocatedAddress capacity 0
      (relocateInsts engine options relocatedAddress capacity insts {}) := by
  have hstart : relocatedAddress + BitVec.ofNat 64 (0 : Nat) = relocatedAddress := BitVec.add_zero _
  have houtcome : LoopOutcome engine options insts (relocatedAddress + BitVec.ofNat 64 0) (capacity - 0)
      0 (relocateInsts engine options relocatedAddress capacity insts {}) :=
    relocateInsts_outcome (t := {}) hbpf hwasm hinsts
  rwa [hstart, Nat.sub_zero] at houtcome

theorem run_of_permitted (hbpf : engine.target.arch ≠ .bpf) (hwasm : engine.target.arch ≠ .wasm)
    (hinsts : ∀ inst ∈ insts, inst.bytes.length = inst.size)
    (hrun : Run (Trampoline.Step engine options relocatedAddress capacity) t insts t')
    (hallowed : ∀ p ∈ placed engine insts (relocatedAddress + BitVec.ofNat 64 t.offset)
      (capacity - t.offset), ¬ FormForbidden engine options' p) :
    Run (Trampoline.Step engine options' relocatedAddress capacity) t insts t' := by
  induction hrun with
  | nil => exact .nil _
  | @cons t u t' inst insts hstep hrun ih =>
    rw [List.forall_mem_cons] at hinsts
    obtain ⟨hstatus, -, sem, hsem, hnext⟩ := hstep
    cases hfit : fittingSize engine inst (relocatedAddress + BitVec.ofNat 64 t.offset)
        (capacity - t.offset) with
    | none =>
      exact absurd hstatus (refused_status hbpf hwasm (emit_status_of_not_fitting hinsts.1 hfit)).1
    | some size =>
      obtain ⟨result, hform, hsize, -, hresult⟩ := emit_of_fitting hinsts.1 hfit
      simp only [placed, hfit, List.forall_mem_cons] at hallowed
      have hoffset : u.offset = t.offset + size := by
        simp only [hnext, Trampoline.push, Trampoline.emit, hresult, hsize]
      refine .cons ⟨hstatus, ?_, sem, hsem, hnext⟩ (ih hinsts.2 ?_)
      · rw [Trampoline.emit, hresult]
        exact eq_false_of_ne_true fun hforbidden => hallowed.1 ⟨result, hform, hforbidden⟩
      · rw [hoffset, BitVec.ofNat_add, ← add_assoc, ← Nat.sub_sub]
        exact hallowed.2

theorem placed_form {address : BitVec 64} {room : Nat} {p : Inst × BitVec 64}
    (hp : p ∈ placed engine insts address room) : ∃ result, relocForm engine p.1 p.2 = .ok result := by
  induction insts generalizing address room with
  | nil => cases hp
  | cons inst insts ih =>
    rw [placed] at hp
    unfold fittingSize at hp
    cases hform : relocForm engine inst address with
    | error status =>
      rw [hform] at hp
      cases hp
    | ok result =>
      rw [hform] at hp
      simp only at hp
      split at hp
      · cases hp
      · rcases List.mem_cons.1 hp with rfl | hp
        · exact ⟨result, hform⟩
        · exact ih hp

/-! ## The layout -/

section

variable (engine : Engine)

def formSize (inst : Inst) (address : BitVec 64) : Nat :=
  match relocForm engine inst address with
  | .ok result => result.size
  | .error _ => 0

/-- The instructions with their addresses, with room for all of them. -/
def layout : List Inst → BitVec 64 → List (Inst × BitVec 64)
  | [], _ => []
  | inst :: insts, address =>
    (inst, address) :: layout insts (address + BitVec.ofNat 64 (formSize engine inst address))

def layoutSize (insts : List Inst) (address : BitVec 64) : Nat :=
  ((layout engine insts address).map fun p => formSize engine p.1 p.2).sum

end

theorem layout_fst : (layout engine insts address).map Prod.fst = insts := by
  induction insts generalizing address with
  | nil => rfl
  | cons inst insts ih => rw [layout, List.map_cons, ih]

theorem placedSize_of_layout {room : Nat}
    (h : ∀ p ∈ layout engine insts address, ∃ result, relocForm engine p.1 p.2 = .ok result)
    (hroom : layoutSize engine insts address ≤ room) :
    placedSize engine insts address room = some (layoutSize engine insts address) := by
  induction insts generalizing address room with
  | nil => rfl
  | cons inst insts ih =>
    rw [layout, List.forall_mem_cons] at h
    obtain ⟨⟨result, hform⟩, hrest⟩ := h
    have hsize : formSize engine inst address = result.size := by rw [formSize, hform]
    have hsum : layoutSize engine (inst :: insts) address = result.size +
        layoutSize engine insts (address + BitVec.ofNat 64 result.size) := by
      rw [layoutSize, layout, List.map_cons, List.sum_cons, hsize]
      rfl
    rw [hsum] at hroom ⊢
    rw [hsize] at hrest
    have hfit : fittingSize engine inst address room = some result.size := by
      rw [fittingSize, hform]
      exact if_pos (by omega)
    simp only [placedSize, hfit, ih hrest (Nat.le_sub_of_add_le' hroom), Option.map_some]

theorem layout_of_placedSize {room size : Nat} (h : placedSize engine insts address room = some size) :
    ∀ p ∈ layout engine insts address, ∃ result, relocForm engine p.1 p.2 = .ok result := by
  induction insts generalizing address room size with
  | nil => simp [layout]
  | cons inst insts ih =>
    rw [placedSize] at h
    split at h
    · cases h
    next first hfit =>
    obtain ⟨rest, hrest, -⟩ := Option.map_eq_some_iff.1 h
    unfold fittingSize at hfit
    split at hfit
    · cases hfit
    next result hform =>
    split at hfit
    swap
    · cases hfit
    cases hfit
    have hsize : formSize engine inst address = result.size := by rw [formSize, hform]
    rw [layout, List.forall_mem_cons, hsize]
    exact ⟨⟨result, hform⟩, ih hrest⟩

end AsmKit
