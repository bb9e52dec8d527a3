import AsmKit.Analysis.State
import AsmKit.Isa.It

/-!
# The analysis of ARM instructions

What an accepted instruction is analysed to: its predicate, its successors, and the state behind it.
-/

namespace AsmKit

/-! ## The analysis -/

section

variable {engine : Engine} {inst : Inst} {state : Option DecodeState} {a : ControlAnalysis}

theorem analyzeInstWithState_arm (hengine : engine.target.arch = .arm) (hinst : inst.arch = .arm)
    (h : analyzeInstWithState engine inst state = .ok a) :
    (currentState inst state).mode = inst.mode ∧
      ((currentState inst state).isa.kind = .none ∨ inst.mode = .armThumb) ∧
      a.predicate = armApplyPredicate inst (currentState inst state) ∧
      a.successors = successorsOf inst (Arm.analyze inst).branch
        (nextState inst (currentState inst state))
        (targetState inst (Arm.analyze inst).branch (nextState inst (currentState inst state))) := by
  unfold analyzeInstWithState at h
  simp only [analyzeInst, hengine, hinst, if_true] at h
  split at h
  · cases h
  · rename_i hmode
    split at h
    · cases h
    · rename_i hisa
      cases h
      refine ⟨by simpa using hmode, ?_, rfl, rfl⟩
      by_contra hcontra
      exact hisa ⟨fun hnone => hcontra (.inl hnone), fun hthumb => hcontra (.inr hthumb.2.1)⟩

end

/-! ## The branch fields of `arm_analyze` -/

namespace Arm

variable (inst : Inst)

theorem analyze_branch_isCall : (analyze inst).branch.isCall =
    (inst.instClass == .directCall || inst.instClass == .indirectCall) := by
  unfold analyze analyzeTransfer
  cases inst.instClass <;> simp [InstClass.isTransfer] <;> split <;> rfl

theorem analyze_branch_isBranch : (analyze inst).branch.isBranch =
    (inst.instClass == .directBranch || inst.instClass == .condBranch ||
      inst.instClass == .indirectBranch) := by
  unfold analyze analyzeTransfer
  cases inst.instClass <;> simp [InstClass.isTransfer] <;> split <;> rfl

theorem analyze_branch_isConditional :
    (analyze inst).branch.isConditional = (inst.instClass == .condBranch) := by
  unfold analyze analyzeTransfer
  cases inst.instClass <;> simp [InstClass.isTransfer] <;> split <;> rfl

theorem analyze_branch_isReturn : (analyze inst).branch.isReturn = false := by
  unfold analyze analyzeTransfer
  cases inst.instClass <;> simp [InstClass.isTransfer] <;> split <;> rfl

theorem analyze_branch_hasTarget : (analyze inst).branch.hasTarget =
    (inst.has InstFlag.pcRelative && !inst.operands.isEmpty && inst.instClass.isDirectTransfer) := by
  unfold analyze analyzeTransfer
  cases inst.operands <;> cases inst.has InstFlag.pcRelative <;> cases inst.instClass <;>
    simp [InstClass.isTransfer]

end Arm

/-! ## The successors -/

theorem mem_successorsOf_iff {inst : Inst} {branch : BranchInfo} {next target : DecodeState}
    {s : Successor} :
    s ∈ successorsOf inst branch next target ↔
      (branch.isCall ∧ s = ⟨.call, target⟩) ∨
      (branch.isCall ∧ ¬ inst.has InstFlag.terminator ∧ s = ⟨.fallthrough, next⟩) ∨
      (¬ branch.isCall ∧ branch.isBranch ∧ s = ⟨.branch, target⟩) ∨
      (¬ branch.isCall ∧ branch.isBranch ∧ branch.isConditional ∧ s = ⟨.fallthrough, next⟩) ∨
      (¬ branch.isCall ∧ ¬ branch.isBranch ∧ branch.isReturn ∧ s = ⟨.return_, next⟩) ∨
      (¬ branch.isCall ∧ ¬ branch.isBranch ∧ ¬ branch.isReturn ∧ inst.has InstFlag.terminator ∧
        s = ⟨.trap, next⟩) ∨
      (¬ branch.isCall ∧ ¬ branch.isBranch ∧ ¬ branch.isReturn ∧ ¬ inst.has InstFlag.terminator ∧
        s = ⟨.fallthrough, next⟩) := by
  unfold successorsOf
  cases branch.isCall <;> cases branch.isBranch <;> cases branch.isReturn <;>
    cases branch.isConditional <;> cases inst.has InstFlag.terminator <;>
    simp [addSuccessor, maxSuccessorStates]

/-! ## The state behind an instruction -/

theorem armAdvanceItstate_eq : ∀ it, armAdvanceItstate it = Isa.It.advance it := by decide

/-- The ISA state with the given ITSTATE. -/
def IsaState.ofIt (it : BitVec 8) : IsaState := ⟨if it = 0 then .none else .armIt, it⟩

theorem IsaState.ofIt_of_ne {it : BitVec 8} (h : it ≠ 0) : IsaState.ofIt it = ⟨.armIt, it⟩ := by
  rw [ofIt, if_neg h]

/-- The state behind an instruction that is no `it`, as the processor has it. -/
def DecodeState.advance (state : DecodeState) : DecodeState :=
  match state.isa.kind with
  | .none => state
  | .armIt => { state with isa := .ofIt (Isa.It.advance state.isa.armItstate) }

theorem nextState_eq_advance {inst : Inst} {current : DecodeState} (harch : inst.arch = .arm)
    (hmode : current.isa.kind = .none ∨ inst.mode = .armThumb)
    (hit : inst.mode = .armThumb → inst.instClass ≠ .armIt) :
    nextState inst current = current.advance := by
  unfold nextState DecodeState.advance
  by_cases hthumb : inst.mode = .armThumb
  · cases hkind : current.isa.kind
    · simp [hit hthumb]
    · simp [harch, hthumb, hit hthumb, armAdvanceItstate_eq, IsaState.ofIt]
  · have hnone : current.isa.kind = .none := hmode.resolve_right hthumb
    simp [hthumb, hnone]

end AsmKit
