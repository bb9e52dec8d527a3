import AsmKit.Lib.Run
import AsmKit.Relocate.Prologue

/-!
# The loop of `asmkit_relocate_prologue` as a run

Each instruction takes the trampoline one step on, or stops the loop.
-/

namespace AsmKit

open Labelled

section

variable (engine : Engine) (options : RelocateOptions) (relocatedAddress : BitVec 64) (capacity : Nat)

/-- What is emitted for the next instruction. -/
def Trampoline.emit (t : Trampoline) (inst : Inst) : EmitOut :=
  relocateInst engine inst (relocatedAddress + BitVec.ofNat 64 t.offset) (capacity - t.offset)

/-- The next instruction is relocated. -/
structure Trampoline.Step (t : Trampoline) (inst : Inst) (t' : Trampoline) : Prop where
  status : (t.emit engine relocatedAddress capacity inst).status = .ok
  allowed : clobbersForbidden options (t.emit engine relocatedAddress capacity inst).result = false
  next : ∃ sem, analyzeInst engine inst = .ok sem ∧
    t' = ({ t with result := t.result.addHazards sem } : Trampoline).push relocatedAddress inst
      (t.emit engine relocatedAddress capacity inst)

/-- The next instruction ends the loop. -/
inductive Trampoline.Stops (t : Trampoline) (inst : Inst) : RelocateOut → Prop
  | analysis {status : Status} : analyzeInst engine inst = .error status →
      Stops t inst { status, code := t.code, result := t.result }
  | emit {sem : InstSemantics} : analyzeInst engine inst = .ok sem →
      (t.emit engine relocatedAddress capacity inst).status ≠ .ok →
      Stops t inst
        { status := (t.emit engine relocatedAddress capacity inst).status
          code := t.code ++ (t.emit engine relocatedAddress capacity inst).code
          result := t.result.addHazards sem }
  | clobber {sem : InstSemantics} : analyzeInst engine inst = .ok sem →
      (t.emit engine relocatedAddress capacity inst).status = .ok →
      clobbersForbidden options (t.emit engine relocatedAddress capacity inst).result = true →
      Stops t inst
        { status := .forbiddenClobber
          code := t.code ++ (t.emit engine relocatedAddress capacity inst).code
          result := (t.result.addHazards sem).addClobbers
            (t.emit engine relocatedAddress capacity inst).result }

end

variable {engine : Engine} {options : RelocateOptions} {relocatedAddress : BitVec 64} {capacity : Nat}
  {inst : Inst} {insts : List Inst} {t t' : Trampoline} {out : RelocateOut}

theorem relocateInsts_cons : relocateInsts engine options relocatedAddress capacity (inst :: insts) t =
    (relocateInsts engine options relocatedAddress capacity [inst] t).bind
      (relocateInsts engine options relocatedAddress capacity insts) := by
  simp only [relocateInsts]
  cases analyzeInst engine inst with
  | error status => rfl
  | ok sem =>
    simp only
    split
    · rfl
    split
    · rfl
    · rfl

theorem relocateInsts_singleton {sem : InstSemantics} (hsem : analyzeInst engine inst = .ok sem) :
    relocateInsts engine options relocatedAddress capacity [inst] t =
      let emit := t.emit engine relocatedAddress capacity inst
      if emit.status ≠ .ok then
        .error { status := emit.status, code := t.code ++ emit.code, result := t.result.addHazards sem }
      else if clobbersForbidden options emit.result then
        .error { status := .forbiddenClobber, code := t.code ++ emit.code
                 result := (t.result.addHazards sem).addClobbers emit.result }
      else
        .ok (({ t with result := t.result.addHazards sem } : Trampoline).push relocatedAddress inst
          emit) := by
  simp only [relocateInsts, hsem]
  rfl

theorem relocateInsts_singleton_ok_iff :
    relocateInsts engine options relocatedAddress capacity [inst] t = .ok t' ↔
      t.Step engine options relocatedAddress capacity inst t' := by
  constructor
  · intro h
    cases hsem : analyzeInst engine inst with
    | error status => simp only [relocateInsts, hsem] at h; cases h
    | ok sem =>
      rw [relocateInsts_singleton hsem] at h
      simp only at h
      split at h
      · cases h
      next hok =>
      split at h
      · cases h
      next hallowed =>
      cases h
      exact ⟨not_not.1 hok, eq_false_of_ne_true hallowed, sem, hsem, rfl⟩
  · rintro ⟨hok, hallowed, sem, hsem, rfl⟩
    rw [relocateInsts_singleton hsem]
    simp only
    rw [if_neg (not_not_intro hok), if_neg (by rw [hallowed]; decide)]

theorem relocateInsts_singleton_error_iff :
    relocateInsts engine options relocatedAddress capacity [inst] t = .error out ↔
      t.Stops engine options relocatedAddress capacity inst out := by
  constructor
  · intro h
    cases hsem : analyzeInst engine inst with
    | error status =>
      simp only [relocateInsts, hsem] at h
      cases h
      exact .analysis hsem
    | ok sem =>
      rw [relocateInsts_singleton hsem] at h
      simp only at h
      split at h
      · cases h
        exact .emit hsem ‹_›
      next hok =>
      split at h
      · cases h
        exact .clobber hsem (not_not.1 hok) ‹_›
      · cases h
  · rintro (hsem | ⟨hsem, hstatus⟩ | ⟨hsem, hok, hclobber⟩)
    · simp only [relocateInsts, hsem]
    · rw [relocateInsts_singleton hsem]
      simp only
      rw [if_pos hstatus]
    · rw [relocateInsts_singleton hsem]
      simp only
      rw [if_neg (not_not_intro hok), if_pos hclobber]

theorem relocateInsts_ok_iff :
    relocateInsts engine options relocatedAddress capacity insts t = .ok t' ↔
      Run (Trampoline.Step engine options relocatedAddress capacity) t insts t' := by
  induction insts generalizing t with
  | nil =>
    rw [Run.nil_iff, relocateInsts, Except.ok.injEq]
  | cons inst insts ih =>
    rw [Run.cons_iff, relocateInsts_cons]
    cases hfirst : relocateInsts engine options relocatedAddress capacity [inst] t with
    | error out =>
      refine iff_of_false (fun h => by cases h) ?_
      rintro ⟨u, hstep, -⟩
      rw [relocateInsts_singleton_ok_iff.2 hstep] at hfirst
      cases hfirst
    | ok u =>
      rw [Except.bind, ih]
      constructor
      · exact fun hrun => ⟨u, relocateInsts_singleton_ok_iff.1 hfirst, hrun⟩
      · rintro ⟨v, hstep, hrun⟩
        rw [relocateInsts_singleton_ok_iff.2 hstep] at hfirst
        cases hfirst
        exact hrun

theorem relocateInsts_error_iff :
    relocateInsts engine options relocatedAddress capacity insts t = .error out ↔
      ∃ done inst rest u, insts = done ++ inst :: rest ∧
        Run (Trampoline.Step engine options relocatedAddress capacity) t done u ∧
        u.Stops engine options relocatedAddress capacity inst out := by
  induction insts generalizing t with
  | nil =>
    refine iff_of_false (fun h => by cases h) ?_
    rintro ⟨done, inst, rest, u, h, -⟩
    simp at h
  | cons inst insts ih =>
    rw [relocateInsts_cons]
    constructor
    · intro h
      cases hfirst : relocateInsts engine options relocatedAddress capacity [inst] t with
      | error out' =>
        rw [hfirst] at h
        cases h
        exact ⟨[], inst, insts, t, rfl, .nil t, relocateInsts_singleton_error_iff.1 hfirst⟩
      | ok u =>
        rw [hfirst, Except.bind, ih] at h
        obtain ⟨done, stop, rest, v, rfl, hrun, hstop⟩ := h
        exact ⟨inst :: done, stop, rest, v, rfl,
          .cons (relocateInsts_singleton_ok_iff.1 hfirst) hrun, hstop⟩
    · rintro ⟨_ | ⟨first, done⟩, stop, rest, u, hinsts, hrun, hstop⟩
      · cases hinsts
        rw [Run.nil_iff] at hrun
        subst hrun
        rw [relocateInsts_singleton_error_iff.2 hstop]
        rfl
      · cases hinsts
        obtain ⟨v, hstep, hrun⟩ := Run.cons_iff.1 hrun
        rw [relocateInsts_singleton_ok_iff.2 hstep, Except.bind]
        exact ih.2 ⟨done, stop, rest, u, rfl, hrun, hstop⟩

end AsmKit
