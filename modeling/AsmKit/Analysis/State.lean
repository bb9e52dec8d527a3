import AsmKit.Analysis.Inst

/-!
# `asmkit_analyze_inst_with_state`

The control flow of an instruction in a decode state: the predicate it executes under, and the
successors with the state each of them is decoded in.
-/

namespace AsmKit

/-! ## Decode states -/

inductive IsaStateKind where
  | none | armIt
deriving DecidableEq, Repr

structure IsaState where
  kind : IsaStateKind := .none
  armItstate : BitVec 8 := 0
deriving DecidableEq, Repr

structure DecodeState where
  mode : Mode
  isa : IsaState := {}
deriving DecidableEq, Repr

def defaultDecodeState (inst : Inst) : DecodeState := { mode := inst.mode }

/-- The state an instruction is analysed in: the given one, in the mode of the instruction when it
names none. -/
def currentState (inst : Inst) (state : Option DecodeState) : DecodeState :=
  let state := state.getD (defaultDecodeState inst)
  if state.mode = .default then { state with mode := inst.mode } else state

def armAdvanceItstate (value : BitVec 8) : BitVec 8 :=
  if value &&& 0x07 = 0 then 0 else (value &&& 0xe0) ||| ((value <<< 1) &&& 0x1f)

/-! ## The result -/

inductive PredicateKind where
  | always | armCondition
deriving DecidableEq, Repr

structure ExecutionPredicate where
  kind : PredicateKind := .always
  predicateId : BitVec 32 := 0
  inverted : Bool := false
deriving DecidableEq, Repr

inductive FlowKind where
  | fallthrough | branch | call | return_ | trap
deriving DecidableEq, Repr

structure Successor where
  flow : FlowKind
  state : DecodeState
deriving DecidableEq, Repr

def maxSuccessorStates : Nat := 2

structure ControlAnalysis where
  semantics : InstSemantics
  predicate : ExecutionPredicate := {}
  successors : List Successor := []
deriving DecidableEq, Repr

def addSuccessor (successors : List Successor) (flow : FlowKind) (state : DecodeState) :
    List Successor :=
  if successors.length < maxSuccessorStates then successors ++ [⟨flow, state⟩] else successors

/-! ## The predicate -/

/-- A condition from 14 on is none. -/
def conditionPredicate (condition : BitVec 32) : ExecutionPredicate :=
  if condition < 0x0e then { kind := .armCondition, predicateId := condition } else {}

/-- `asmkit_arm_apply_predicate`. -/
def armApplyPredicate (inst : Inst) (state : DecodeState) : ExecutionPredicate :=
  if inst.mode = .armThumb ∧ state.isa.kind = .armIt ∧ state.isa.armItstate ≠ 0 ∧
      inst.instClass ≠ .armIt then
    { kind := .armCondition, predicateId := (state.isa.armItstate >>> 4).setWidth 32 }
  else if inst.mode = .armThumb ∧ inst.instClass = .condBranch ∧ 2 ≤ inst.size then
    conditionPredicate (((load16le inst.bytes >>> 8) &&& 0x0f).setWidth 32)
  else if inst.mode = .armA32 ∧ 4 ≤ inst.size then
    conditionPredicate (load32le inst.bytes >>> 28)
  else {}

/-! ## The successors -/

/-- The state an `it` sets up. -/
def itstateOf (inst : Inst) : BitVec 8 :=
  let condition := (inst.operands.getD 0 .empty).imm.setWidth 8
  let mask := (inst.operands.getD 1 .empty).imm.setWidth 8
  (condition <<< 4) ||| (mask &&& 0x0f)

/-- `next`: the state behind the instruction. -/
def nextState (inst : Inst) (current : DecodeState) : DecodeState :=
  if inst.arch = .arm ∧ inst.mode = .armThumb then
    if inst.instClass = .armIt ∧ 2 ≤ inst.operands.length then
      { current with isa := ⟨.armIt, itstateOf inst⟩ }
    else if current.isa.kind = .armIt then
      let itstate := armAdvanceItstate current.isa.armItstate
      { current with isa := ⟨if itstate = 0 then .none else .armIt, itstate⟩ }
    else current
  else current

/-- `target`: the state where a branch or a call goes. -/
def targetState (inst : Inst) (branch : BranchInfo) (next : DecodeState) : DecodeState :=
  if inst.arch = .arm ∧ inst.has InstFlag.stateSwitch then
    if branch.hasTarget then
      { mode := if branch.target &&& 1 ≠ 0 then .armThumb else .armA32 }
    else { next with mode := .default }
  else next

def successorsOf (inst : Inst) (branch : BranchInfo) (next target : DecodeState) : List Successor :=
  let terminator := inst.has InstFlag.terminator
  if branch.isCall then
    let successors := addSuccessor [] .call target
    if terminator then successors else addSuccessor successors .fallthrough next
  else if branch.isBranch then
    let successors := addSuccessor [] .branch target
    if branch.isConditional then addSuccessor successors .fallthrough next else successors
  else if branch.isReturn then addSuccessor [] .return_ next
  else if terminator then addSuccessor [] .trap next
  else addSuccessor [] .fallthrough next

/-! ## The analysis -/

def analyzeInstWithState (engine : Engine) (inst : Inst) (state : Option DecodeState) :
    Except Status ControlAnalysis :=
  let current := currentState inst state
  if current.mode ≠ inst.mode then .error .unsupportedMode
  else if current.isa.kind ≠ .none ∧
      ¬ (inst.arch = .arm ∧ inst.mode = .armThumb ∧ current.isa.kind = .armIt) then
    .error .invalidArgument
  else
    match analyzeInst engine inst with
    | .error status => .error status
    | .ok semantics =>
      let next := nextState inst current
      let target := targetState inst semantics.branch next
      .ok { semantics
            predicate := if inst.arch = .arm then armApplyPredicate inst current else {}
            successors := successorsOf inst semantics.branch next target }

theorem analyzeInst_of_withState {engine : Engine} {inst : Inst} {state : Option DecodeState}
    {control : ControlAnalysis} (h : analyzeInstWithState engine inst state = .ok control) :
    analyzeInst engine inst = .ok control.semantics := by
  unfold analyzeInstWithState at h
  cases hsemantics : analyzeInst engine inst with
  | error status =>
    simp only [hsemantics] at h
    split at h
    · cases h
    split at h <;> cases h
  | ok semantics =>
    simp only [hsemantics] at h
    split at h
    · cases h
    split at h
    · cases h
    · cases h
      rfl

end AsmKit
