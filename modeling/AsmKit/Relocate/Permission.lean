import AsmKit.Encode.Permission
import AsmKit.Relocate.Tiles

/-!
# What a relocation clobbers is permitted

Every sequence of a relocation passes the check of its clobbers, so what it reports passes too.
-/

namespace AsmKit

open Labelled

/-- All the clobbers the result reports are permitted by the options. -/
def RelocateResult.Permitted (options : RelocateOptions) (result : RelocateResult) : Prop :=
  result.clobberMaskLo &&& ~~~options.allowedClobberMaskLo = 0 ∧
    result.clobberMaskHi &&& ~~~options.allowedClobberMaskHi = 0

variable {engine : Engine} {options : RelocateOptions} {relocatedAddress : BitVec 64} {capacity : Nat}
  {inst : Inst} {insts : List Inst} {t t' : Trampoline} {result : RelocateResult}

theorem or_and_eq_zero {a b m : BitVec 64} (ha : a &&& m = 0) (hb : b &&& m = 0) :
    (a ||| b) &&& m = 0 := by
  rw [BitVec.and_comm, BitVec.and_or_distrib_left, BitVec.and_comm m a, BitVec.and_comm m b, ha, hb]
  rfl

theorem RelocateResult.Permitted.addClobbers {emit : EmitResult} (h : result.Permitted options)
    (hlo : emit.clobberMaskLo &&& ~~~options.allowedClobberMaskLo = 0)
    (hhi : emit.clobberMaskHi &&& ~~~options.allowedClobberMaskHi = 0) :
    (result.addClobbers emit).Permitted options :=
  ⟨or_and_eq_zero h.1 hlo, or_and_eq_zero h.2 hhi⟩

theorem permitted_run (hrun : Run (Trampoline.Step engine options relocatedAddress capacity) t insts t')
    (h : t.result.Permitted options) : t'.result.Permitted options := by
  refine hrun.invariant (I := fun t => t.result.Permitted options) ?_ h
  rintro t inst _ ht ⟨-, hallowed, sem, -, rfl⟩
  simp only [clobbersForbidden, Bool.or_eq_false_iff, bne_eq_false_iff_eq] at hallowed
  have hsem : (t.result.addHazards sem).Permitted options := ht
  exact hsem.addClobbers hallowed.1 hallowed.2

theorem relocatePrologue_permitted {tables : Tables} {code : List Byte} {originalAddress : BitVec 64}
    {priors : Nat → Inst}
    (hok : (relocatePrologue tables engine code originalAddress relocatedAddress options capacity
      priors).status = .ok) :
    (relocatePrologue tables engine code originalAddress relocatedAddress options capacity
      priors).result.Permitted options := by
  obtain ⟨-, block, t, -, hrun, heq⟩ := relocatePrologue_of_ok hok
  rw [heq] at hok ⊢
  obtain ⟨hemit, hjump⟩ := appendJumpBack_of_ok hok
  have ht : t.result.Permitted options := permitted_run hrun ⟨BitVec.zero_and, BitVec.zero_and⟩
  have hallowed := emitJump_permitted.sound hemit
  rw [Forbids, not_or, not_or, ne_eq, not_not, ne_eq, not_not] at hallowed
  rw [hjump]
  exact ⟨or_and_eq_zero ht.1 hallowed.2.1, or_and_eq_zero ht.2 hallowed.2.2⟩

/-- No emitter and no relocation succeeds with a register that is not permitted, and no emitter
refuses a register that it could do without. -/
theorem clobbers_permitted {tables : Tables} {code : List Byte} {originalAddress : BitVec 64}
    {priors : Nat → Inst} {fromAddress toAddress : BitVec 64} {emitOptions : EmitOptions} :
    Permitted engine false fromAddress toAddress emitOptions
      (emitJump engine fromAddress toAddress (some emitOptions) capacity) ∧
    Permitted engine true fromAddress toAddress emitOptions
      (emitCall engine fromAddress toAddress (some emitOptions) capacity) ∧
    ((relocatePrologue tables engine code originalAddress relocatedAddress options capacity
        priors).status = .ok →
      (relocatePrologue tables engine code originalAddress relocatedAddress options capacity
        priors).result.Permitted options) :=
  ⟨emitJump_permitted, emitCall_permitted, relocatePrologue_permitted⟩

end AsmKit
