import AsmKit.Analysis.Arm
import AsmKit.Decode.Block

/-!
# Where a skipped ARM instruction leads

An instruction whose condition fails is skipped, and the one behind it is next. The analysis says so
only where the class of the instruction does.
-/

namespace AsmKit

/-- A condition other than AL: the instruction may be skipped. -/
def ExecutionPredicate.MayFail (predicate : ExecutionPredicate) : Prop :=
  predicate.kind = .armCondition ∧ predicate.predicateId ≠ 14

/-- An instruction that may be skipped leads to the one behind it, in the state behind it. -/
def SkipSound (current : DecodeState) (a : ControlAnalysis) : Prop :=
  a.predicate.MayFail →
    (∃ s ∈ a.successors, s.flow = .fallthrough) ∧
      ∀ s ∈ a.successors, s.flow = .fallthrough → s.state = current.advance

/-- The condition the instruction has in the state: that of its IT slot, or that of its word. -/
def HasCondition (inst : Inst) (current : DecodeState) : Prop :=
  (inst.mode = .armThumb ∧ current.isa.kind = .armIt ∧ current.isa.armItstate ≠ 0 ∧
      inst.instClass ≠ .armIt ∧ Isa.It.condition current.isa.armItstate ≠ 14) ∨
    (inst.mode = .armA32 ∧ 4 ≤ inst.size ∧ load32le inst.bytes >>> 28 < 14)

/-- The classes and flags that go on behind the instruction. -/
def GoesOn (inst : Inst) : Prop :=
  inst.instClass = .condBranch ∨
    (inst.instClass ≠ .directBranch ∧ inst.instClass ≠ .indirectBranch ∧
      ¬ inst.has InstFlag.terminator)

theorem conditionPredicate_mayFail {condition : BitVec 32} :
    (conditionPredicate condition).MayFail ↔ condition < 14 := by
  unfold conditionPredicate ExecutionPredicate.MayFail
  split
  · rename_i h
    have hne : condition ≠ 14 := by
      rintro rfl
      exact absurd h (by decide)
    exact ⟨fun _ => h, fun _ => ⟨rfl, hne⟩⟩
  · rename_i h
    exact ⟨fun hfail => absurd hfail.1 (by decide), fun hlt => absurd hlt h⟩

theorem condition_ne_iff : ∀ it : BitVec 8,
    (it >>> 4).setWidth 32 ≠ 14#32 ↔ Isa.It.condition it ≠ 14 := by
  decide

theorem armApplyPredicate_mayFail {inst : Inst} {current : DecodeState}
    (h : (armApplyPredicate inst current).MayFail) :
    HasCondition inst current ∨ (inst.mode = .armThumb ∧ inst.instClass = .condBranch) := by
  unfold armApplyPredicate at h
  split_ifs at h with hit hthumb ha32
  · exact .inl (.inl ⟨hit.1, hit.2.1, hit.2.2.1, hit.2.2.2, (condition_ne_iff _).1 h.2⟩)
  · exact .inr ⟨hthumb.1, hthumb.2.1⟩
  · exact .inl (.inr ⟨ha32.1, ha32.2, conditionPredicate_mayFail.1 h⟩)
  · exact absurd h.1 (by decide)

theorem HasCondition.mayFail {inst : Inst} {current : DecodeState}
    (h : HasCondition inst current) : (armApplyPredicate inst current).MayFail := by
  unfold armApplyPredicate
  rcases h with ⟨hmode, hkind, hit, hclass, hcond⟩ | ⟨hmode, hsize, hcond⟩
  · rw [if_pos ⟨hmode, hkind, hit, hclass⟩]
    exact ⟨rfl, (condition_ne_iff _).2 hcond⟩
  · have hthumb : inst.mode ≠ .armThumb := by simp [hmode]
    rw [if_neg (fun h => hthumb h.1), if_neg (fun h => hthumb h.1), if_pos ⟨hmode, hsize⟩]
    exact conditionPredicate_mayFail.2 hcond

theorem fallthrough_mem_iff {inst : Inst} {next target s : DecodeState} :
    ⟨.fallthrough, s⟩ ∈ successorsOf inst (Arm.analyze inst).branch next target ↔
      GoesOn inst ∧ s = next := by
  simp only [mem_successorsOf_iff, Arm.analyze_branch_isCall, Arm.analyze_branch_isBranch,
    Arm.analyze_branch_isConditional, Arm.analyze_branch_isReturn, GoesOn]
  cases inst.instClass <;> cases inst.has InstFlag.terminator <;> simp

/-- `asmkit_analyze_inst_with_state` leaves the fall-through out where a conditional instruction is
an unconditional branch by its class, or carries the terminator flag. -/
theorem analyzeInstWithState_skipSound_iff {engine : Engine} {inst : Inst}
    {state : Option DecodeState} {a : ControlAnalysis} (hengine : engine.target.arch = .arm)
    (hinst : inst.arch = .arm) (h : analyzeInstWithState engine inst state = .ok a) :
    SkipSound (currentState inst state) a ↔
      (HasCondition inst (currentState inst state) → GoesOn inst) := by
  obtain ⟨-, hisa, hpred, hsucc⟩ := analyzeInstWithState_arm hengine hinst h
  generalize currentState inst state = current at hisa hpred hsucc ⊢
  unfold SkipSound
  rw [hpred, hsucc]
  constructor
  · intro hsound hcond
    obtain ⟨⟨⟨flow, s⟩, hs, rfl⟩, -⟩ := hsound hcond.mayFail
    exact (fallthrough_mem_iff.1 hs).1
  · intro hgoes hfail
    have hon : GoesOn inst := by
      rcases armApplyPredicate_mayFail hfail with hcond | hbranch
      · exact hgoes hcond
      · exact .inl hbranch.2
    have hnotIt : inst.mode = .armThumb → inst.instClass ≠ .armIt := by
      intro hthumb hclass
      rcases armApplyPredicate_mayFail hfail with (hcond | hcond) | hbranch
      · exact hcond.2.2.2.1 hclass
      · simp [hthumb] at hcond
      · simp [hclass] at hbranch
    refine ⟨⟨_, fallthrough_mem_iff.2 ⟨hon, rfl⟩, rfl⟩, ?_⟩
    rintro ⟨flow, s⟩ hs rfl
    rw [(fallthrough_mem_iff.1 hs).2, nextState_eq_advance hinst hisa hnotIt]

/-- `bleq` falls through. -/
theorem analyzeInstWithState_skipSound_bleq :
    ∃ inst a, decodeOne noTables armEngineA32 [0x00, 0x00, 0x00, 0x0b] 0x1000 armEngineA32.emptyInst =
        .ok inst ∧ analyzeInstWithState armEngineA32 inst none = .ok a ∧
      a.predicate.MayFail ∧ SkipSound (currentState inst none) a := by
  refine ⟨_, _, rfl, rfl, ⟨rfl, by decide⟩, ?_⟩
  exact (@analyzeInstWithState_skipSound_iff armEngineA32 _ _ _ rfl rfl rfl).2
    fun _ => .inr ⟨by decide, by decide, by decide⟩

/-- `beq` of A32 is analysed to its target alone. -/
theorem analyzeInstWithState_not_skipSound :
    ∃ inst a, decodeOne noTables armEngineA32 [0x00, 0x00, 0x00, 0x0a] 0x1000 armEngineA32.emptyInst =
        .ok inst ∧ analyzeInstWithState armEngineA32 inst none = .ok a ∧
      ¬ SkipSound (currentState inst none) a := by
  refine ⟨_, _, rfl, rfl, ?_⟩
  intro hsound
  obtain ⟨⟨s, hs, hflow⟩, -⟩ := hsound ⟨by decide, by decide⟩
  revert s
  decide

end AsmKit
