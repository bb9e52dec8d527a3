import AsmKit.Analysis.Arm
import AsmKit.Arm.Rows
import AsmKit.Decode.Block
import AsmKit.Lib.Run

/-!
# Decode states along a run

A run decodes an instruction in the mode of its state and goes on in one of the successors. The
ITSTATE stays sound as long as no branch leaves an IT block through a register before its end.
-/

namespace AsmKit

open Labelled

/-! ## The `it` of the decoder -/

/-- No row of the tables has the class of an `it`. -/
def Arm.Tables.NoItRows (tables : Arm.Tables) : Prop :=
  ∀ record, tables.HasRow record → record.instClass ≠ .armIt

section

variable {tables : Tables} {engine : Engine} {code : List Byte} {address : BitVec 64}
  {prior inst : Inst}

theorem decodeOne_arm_fromCode (harch : engine.target.arch = .arm)
    (h : decodeOne tables engine code address prior = .ok inst) :
    Arm.FromCode engine code address inst := by
  obtain ⟨inst0, hdec, rfl⟩ := decodeOne_arm harch h
  obtain ⟨hinst, hmode, haddress, hbytes⟩ := Arm.decodeOne_fromCode hdec
  exact ⟨hinst, hmode, haddress, hbytes⟩

theorem decodeOne_it (harch : engine.target.arch = .arm) (hrows : tables.arm.NoItRows)
    (h : decodeOne tables engine code address prior = .ok inst) (hclass : inst.instClass = .armIt) :
    engine.config.mode = .armThumb ∧ load16le code &&& 0xff00 = 0xbf00 ∧
      load16le code &&& 0x000f ≠ 0 ∧
      inst = applyOperandMetadata tables (Arm.finish engine code address 2 Arm.Id.thumbIt .armIt 0
        (Arm.itOperands (load16le code))) := by
  obtain ⟨inst0, hdec, rfl⟩ := decodeOne_arm harch h
  obtain ⟨inst1, hgen, rfl⟩ := Arm.decodeOne_eq_ok hdec
  have hclass1 : inst1.instClass = .armIt := by
    obtain ⟨flags, operands, hmark⟩ := Arm.mark_eq inst1
    rw [hmark] at hclass
    exact hclass
  cases Arm.genDecodeOne_finished hgen with
  | byHand size id instClass flags operands hit => exact absurd hclass1 hit
  | it hmode hcode => exact ⟨hmode, hcode.1, hcode.2, rfl⟩
  | row word record hrow inst hfinish =>
    unfold Arm.finishTd at hfinish
    split at hfinish
    · cases hfinish
    · cases hfinish
      exact absurd hclass1 (hrows record hrow)

end

/-! ## Its operands -/

/-- The first condition of an `it`, as the decoder keeps it. -/
def itCondition (h : BitVec 16) : BitVec 4 :=
  if h.extractLsb' 4 4 = 15 then 14 else h.extractLsb' 4 4

def itMask (h : BitVec 16) : BitVec 4 := h.extractLsb' 0 4

theorem nibble_eq (h : BitVec 16) (k : Nat) :
    (h >>> k) &&& 0x0f = (h.extractLsb' k 4).setWidth 16 := by
  apply BitVec.eq_of_getLsbD_eq
  intro i hi
  simp only [BitVec.getLsbD_and, BitVec.getLsbD_ushiftRight, BitVec.getLsbD_setWidth,
    BitVec.getLsbD_extractLsb']
  interval_cases i <;> simp

theorem itMask_ne_zero {h : BitVec 16} (hmask : h &&& 0x000f ≠ 0) : itMask h ≠ 0 := by
  rintro hzero
  apply hmask
  have hnibble := nibble_eq h 0
  rw [BitVec.ushiftRight_zero, show h.extractLsb' 0 4 = 0 from hzero] at hnibble
  exact hnibble

theorem itCondition_remap : ∀ c : BitVec 4,
    (if c.setWidth 16 = (0x0f : BitVec 16) then 0x0e else c.setWidth 16).setWidth 64 =
      (if c = 15 then 14 else c).setWidth 64 := by decide

theorem nibble_setWidth : ∀ c : BitVec 4, (c.setWidth 16).setWidth 64 = c.setWidth 64 := by decide

theorem itOperands_eq (h : BitVec 16) : Arm.itOperands h =
    [Operand.ofImm ((itCondition h).setWidth 64) 4,
      (Operand.ofImm ((itMask h).setWidth 64) 4).atIndex 1] := by
  have hmask : h &&& 0x000f = (itMask h).setWidth 16 := by
    have hnibble := nibble_eq h 0
    rwa [BitVec.ushiftRight_zero] at hnibble
  have hcondition := itCondition_remap (h.extractLsb' 4 4)
  rw [← nibble_eq h 4] at hcondition
  simp only [Arm.itOperands]
  rw [hmask, nibble_setWidth, hcondition]
  rfl

theorem itstate_start : ∀ condition mask : BitVec 4,
    ((condition.setWidth 64).setWidth 8 <<< 4) ||| ((mask.setWidth 64).setWidth 8 &&& 0x0f#8) =
      Isa.It.start condition mask := by decide

theorem itstateOf_it (tables : Tables) (engine : Engine) (code : List Byte) (address : BitVec 64)
    (h : BitVec 16) :
    itstateOf (applyOperandMetadata tables (Arm.finish engine code address 2 Arm.Id.thumbIt .armIt 0
      (Arm.itOperands h))) = Isa.It.start (itCondition h) (itMask h) := by
  rw [itOperands_eq]
  simp only [itstateOf, applyOperandMetadata, Arm.finish, List.map_cons, List.map_nil,
    List.getD_cons_zero, List.getD_cons_succ, Operand.withInfos_imm]
  exact itstate_start _ _

/-! ## Steps -/

/-- An instruction decoded in a state, and the successor the run goes on in. -/
structure Visit where
  state : DecodeState
  inst : Inst
  flow : FlowKind
deriving DecidableEq, Repr

/-- `asmkit_decode_one` in the mode of the state, and a successor that
`asmkit_analyze_inst_with_state` returns. A state without a mode takes either. -/
def Follows (tables : Tables) (s : DecodeState) (v : Visit) (t : DecodeState) : Prop :=
  v.state = s ∧ ∃ engine code address prior a, engine.target.arch = .arm ∧
    (s.mode = .default ∨ s.mode = engine.config.mode) ∧
    decodeOne tables engine code address prior = .ok v.inst ∧
    analyzeInstWithState engine v.inst (some s) = .ok a ∧ ⟨v.flow, t⟩ ∈ a.successors

/-- The ISA state and the mode of a state belong together. -/
structure ItSound (s : DecodeState) : Prop where
  of_it : s.isa.kind = .armIt → s.mode = .armThumb ∧ Isa.It.Active s.isa.armItstate
  of_none : s.isa.kind = .none → s.isa.armItstate = 0

/-- No ARM instruction of the state's mode is an invalid argument. -/
def NeverRefused (s : DecodeState) : Prop :=
  ∀ engine inst, engine.target.arch = .arm → inst.arch = .arm →
    (inst.mode = .armA32 ∨ inst.mode = .armThumb) → (s.mode = .default ∨ s.mode = inst.mode) →
    analyzeInstWithState engine inst (some s) ≠ .error .invalidArgument

/-- The step does not leave an IT block early through a register: it is no branch or call that may
switch the instruction set and has no target, in a slot that is not the last one. -/
def LeavesWholeBlock (v : Visit) : Prop :=
  ¬ (v.state.isa.kind = .armIt ∧ v.state.isa.armItstate.setWidth 3 ≠ 0 ∧
    (v.flow = .branch ∨ v.flow = .call) ∧ v.inst.has InstFlag.stateSwitch ∧
    ¬ (v.inst.has InstFlag.pcRelative ∧ v.inst.operands ≠ [] ∧ v.inst.instClass.isDirectTransfer))

theorem currentState_mode {inst : Inst} {s : DecodeState}
    (hmode : s.mode = .default ∨ s.mode = inst.mode) :
    currentState inst (some s) = { s with mode := inst.mode } := by
  simp only [currentState, Option.getD_some]
  split
  · rfl
  · rename_i hne
    rw [← hmode.resolve_left hne]

theorem ItSound.neverRefused {s : DecodeState} (h : ItSound s) : NeverRefused s := by
  intro engine inst hengine hinst hmodes hmode
  have hthumb : s.isa.kind = .armIt → inst.mode = .armThumb := by
    intro hkind
    have hs := (h.of_it hkind).1
    rcases hmode with hdefault | hsame
    · rw [hs] at hdefault
      cases hdefault
    · rw [← hsame, hs]
  unfold analyzeInstWithState
  simp only [currentState_mode hmode, analyzeInst, hengine, hinst]
  cases hkind : s.isa.kind with
  | none => simp
  | armIt => simp [hthumb hkind]

theorem itSound_ofIt {mode : Mode} {it : BitVec 8} (hmode : mode = .armThumb)
    (hit : it ≠ 0 → Isa.It.Active it) : ItSound ⟨mode, .ofIt it⟩ := by
  unfold IsaState.ofIt
  constructor
  · intro hkind
    by_cases hzero : it = 0
    · simp [hzero] at hkind
    · exact ⟨hmode, hit hzero⟩
  · intro hkind
    by_contra hne
    rw [if_neg hne] at hkind
    cases hkind

theorem ItSound.withMode {s : DecodeState} (h : ItSound s) {mode : Mode}
    (hmode : s.mode = .default ∨ s.mode = mode) : ItSound { s with mode } := by
  refine ⟨fun hkind => ?_, h.of_none⟩
  obtain ⟨hs, hactive⟩ := h.of_it hkind
  refine ⟨?_, hactive⟩
  rcases hmode with hdefault | hsame
  · rw [hs] at hdefault
    cases hdefault
  · rw [← hsame, hs]

theorem ItSound.advance {s : DecodeState} (h : ItSound s) : ItSound s.advance := by
  unfold DecodeState.advance
  split
  · exact h
  · rename_i hkind
    exact itSound_ofIt (h.of_it hkind).1 (Isa.It.advance_active _)

theorem itSound_nextState {tables : Tables} {engine : Engine} {code : List Byte}
    {address : BitVec 64} {prior inst : Inst} {s : DecodeState} (h : ItSound s)
    (harch : engine.target.arch = .arm) (hrows : tables.arm.NoItRows)
    (hmode : s.mode = inst.mode)
    (hdec : decodeOne tables engine code address prior = .ok inst) : ItSound (nextState inst s) := by
  have hcode := decodeOne_arm_fromCode harch hdec
  by_cases hclass : inst.instClass = .armIt
  · obtain ⟨hthumb, -, hmask, hinst⟩ := decodeOne_it harch hrows hdec hclass
    have hitMode : inst.mode = .armThumb := by rw [hcode.mode, hthumb]
    have hlength : 2 ≤ inst.operands.length := by
      rw [hinst, itOperands_eq]
      exact Nat.le_refl 2
    have hstate : nextState inst s = ⟨s.mode, .armIt, itstateOf inst⟩ := by
      unfold nextState
      rw [if_pos ⟨hcode.arch, hitMode⟩, if_pos ⟨hclass, hlength⟩]
    have hactive : ∀ condition mask : BitVec 4, mask ≠ 0 →
        Isa.It.Active (Isa.It.start condition mask) := by
      unfold Isa.It.Active
      decide
    rw [hstate, hinst, itstateOf_it]
    exact ⟨fun _ => ⟨by rw [hmode, hitMode], hactive _ _ (itMask_ne_zero hmask)⟩, fun hkind => by cases hkind⟩
  · have hisa : s.isa.kind = .none ∨ inst.mode = .armThumb := by
      cases hkind : s.isa.kind with
      | none => exact .inl rfl
      | armIt => exact .inr (hmode ▸ (h.of_it hkind).1)
    rw [nextState_eq_advance hcode.arch hisa fun _ => hclass]
    exact h.advance

theorem successor_state {inst : Inst} {next target : DecodeState} {s : Successor}
    (h : s ∈ successorsOf inst (Arm.analyze inst).branch next target) :
    (s.state = next ∧ s.flow ≠ .branch ∧ s.flow ≠ .call) ∨
      (s.state = target ∧ (s.flow = .branch ∨ s.flow = .call) ∧ inst.instClass ≠ .armIt) := by
  rw [mem_successorsOf_iff] at h
  simp only [Arm.analyze_branch_isCall, Arm.analyze_branch_isBranch] at h
  rcases h with ⟨hcall, rfl⟩ | ⟨-, -, rfl⟩ | ⟨-, hbranch, rfl⟩ | ⟨-, -, -, rfl⟩ | ⟨-, -, -, rfl⟩ |
    ⟨-, -, -, -, rfl⟩ | ⟨-, -, -, -, rfl⟩
  · refine .inr ⟨rfl, .inr rfl, ?_⟩
    intro hclass
    simp [hclass] at hcall
  · exact .inl ⟨rfl, nofun, nofun⟩
  · refine .inr ⟨rfl, .inl rfl, ?_⟩
    intro hclass
    simp [hclass] at hbranch
  · exact .inl ⟨rfl, nofun, nofun⟩
  · exact .inl ⟨rfl, nofun, nofun⟩
  · exact .inl ⟨rfl, nofun, nofun⟩
  · exact .inl ⟨rfl, nofun, nofun⟩

theorem hasTarget_iff (inst : Inst) : (Arm.analyze inst).branch.hasTarget = true ↔
    inst.has InstFlag.pcRelative ∧ inst.operands ≠ [] ∧ inst.instClass.isDirectTransfer := by
  rw [Arm.analyze_branch_hasTarget]
  simp [and_assoc]

theorem advance_kind_iff {s : DecodeState} : s.advance.isa.kind = .armIt ↔
    s.isa.kind = .armIt ∧ s.isa.armItstate.setWidth 3 ≠ 0 := by
  have hzero : ∀ it : BitVec 8, Isa.It.advance it = 0 ↔ it.setWidth 3 = 0 := by decide
  unfold DecodeState.advance
  split
  · rename_i hkind
    simp [hkind]
  · rename_i hkind
    simp only [IsaState.ofIt, hkind, true_and, ne_eq, ← hzero]
    split <;> simp_all

/-- A branch or a call leaves the ISA state sound, unless it drops the mode and keeps the state. -/
theorem targetState_itSound_iff {inst : Inst} {next : DecodeState} (hnext : ItSound next) :
    ItSound (targetState inst (Arm.analyze inst).branch next) ↔
      ¬ (next.isa.kind = .armIt ∧ inst.arch = .arm ∧ inst.has InstFlag.stateSwitch ∧
        ¬ (Arm.analyze inst).branch.hasTarget) := by
  unfold targetState
  split
  · rename_i hswitch
    split
    · rename_i htarget
      refine iff_of_true ⟨fun hkind => (by cases hkind), fun _ => rfl⟩ ?_
      rintro ⟨-, -, -, hno⟩
      exact hno htarget
    · rename_i htarget
      constructor
      · rintro hsound ⟨hkind, -⟩
        have hmode := (hsound.of_it hkind).1
        cases hmode
      · intro hclosed
        refine ⟨fun hkind => ?_, hnext.of_none⟩
        exact absurd ⟨hkind, hswitch.1, hswitch.2, htarget⟩ hclosed
  · rename_i hswitch
    refine iff_of_true hnext ?_
    rintro ⟨-, harch, hhas, -⟩
    exact hswitch ⟨harch, hhas⟩

theorem Follows.itSound_iff {tables : Tables} (hrows : tables.arm.NoItRows) {s t : DecodeState}
    {v : Visit} (hs : ItSound s) (h : Follows tables s v t) : ItSound t ↔ LeavesWholeBlock v := by
  obtain ⟨rfl, engine, code, address, prior, a, harch, hmode, hdec, ha, hmem⟩ := h
  have hcode := decodeOne_arm_fromCode harch hdec
  rw [← hcode.mode] at hmode
  obtain ⟨-, hisa, -, hsucc⟩ := analyzeInstWithState_arm harch hcode.arch ha
  rw [currentState_mode hmode] at hisa hsucc
  rw [hsucc] at hmem
  have hnext := itSound_nextState (hs.withMode hmode) harch hrows rfl hdec
  rcases successor_state hmem with ⟨hstate, hbranch, hcall⟩ | ⟨hstate, hflow, hclass⟩
  · rw [show t = _ from hstate]
    refine iff_of_true hnext ?_
    rintro ⟨-, -, hflow, -⟩
    exact hflow.elim hbranch hcall
  · rw [show t = _ from hstate, targetState_itSound_iff hnext,
      nextState_eq_advance hcode.arch hisa fun _ => hclass, advance_kind_iff, hasTarget_iff]
    simp only [LeavesWholeBlock, hcode.arch, true_and, and_assoc]
    constructor
    · rintro hclosed ⟨hkind, hslot, -, hswitch⟩
      exact hclosed ⟨hkind, hslot, hswitch⟩
    · rintro hwhole ⟨hkind, hslot, hswitch⟩
      exact hwhole ⟨hkind, hslot, hflow, hswitch⟩

/-! ## Runs -/

theorem run_itSound_iff_of_start {tables : Tables} (hrows : tables.arm.NoItRows)
    {s t : DecodeState} {vs : List Visit} (h : Run (Follows tables) s vs t) (hs : ItSound s) :
    ((∀ v ∈ vs, ItSound v.state) ∧ ItSound t) ↔ ∀ v ∈ vs, LeavesWholeBlock v := by
  induction h with
  | nil => simp [hs]
  | @cons s t u v vs hstep hrest ih =>
    have hstate : v.state = s := hstep.1
    simp only [List.forall_mem_cons, hstate, hs, true_and]
    constructor
    · rintro ⟨hall, hu⟩
      -- The state behind `v` is that of the next step, or the last one.
      have ht : ItSound t := by
        cases hrest with
        | nil => exact hu
        | cons hnext _ => exact hnext.1 ▸ hall _ List.mem_cons_self
      exact ⟨(hstep.itSound_iff hrows hs).1 ht, (ih ht).1 ⟨hall, hu⟩⟩
    · rintro ⟨hv, hwhole⟩
      exact (ih ((hstep.itSound_iff hrows hs).2 hv)).2 hwhole

/-- The states a run goes through. -/
def Visited (vs : List Visit) (t s : DecodeState) : Prop := s = t ∨ ∃ v ∈ vs, v.state = s

/-- The states of a run from A32 or Thumb are sound, and refuse no instruction of their mode, just
when every step leaves the IT block whole. -/
theorem run_itSound_iff {tables : Tables} (hrows : tables.arm.NoItRows) {mode : Mode}
    {vs : List Visit} {t : DecodeState} (h : Run (Follows tables) { mode } vs t) :
    (∀ s, Visited vs t s → ItSound s ∧ NeverRefused s) ↔ ∀ v ∈ vs, LeavesWholeBlock v := by
  have hstart : ItSound { mode } := ⟨fun hkind => (by cases hkind), fun _ => rfl⟩
  rw [← run_itSound_iff_of_start hrows h hstart]
  constructor
  · intro hall
    exact ⟨fun v hv => (hall _ (.inr ⟨v, hv, rfl⟩)).1, (hall _ (.inl rfl)).1⟩
  · rintro ⟨hall, ht⟩ s (rfl | ⟨v, hv, rfl⟩)
    · exact ⟨ht, ht.neverRefused⟩
    · exact ⟨hall v hv, (hall v hv).neverRefused⟩

theorem noItRows_noTables : noTables.arm.NoItRows := by
  rintro record (⟨word, i, hmem⟩ | ⟨size, word, i, hmem⟩)
  · cases hmem
  · cases hmem

/-- What the decoder makes of a halfword at `0x1000`, without rows. -/
def thumbInst (h : BitVec 16) : Inst :=
  (decodeOne noTables armEngineThumb (store16le h) 0x1000 armEngineThumb.emptyInst).toOption.getD
    armEngineThumb.emptyInst

/-- The state in an IT block. -/
def inBlock (it : BitVec 8) : DecodeState := ⟨.armThumb, .armIt, it⟩

theorem follows_thumb {s t : DecodeState} {flow : FlowKind} {h : BitVec 16} {a : ControlAnalysis}
    (hmode : s.mode = .armThumb)
    (hdec : decodeOne noTables armEngineThumb (store16le h) 0x1000 armEngineThumb.emptyInst =
      .ok (thumbInst h))
    (ha : analyzeInstWithState armEngineThumb (thumbInst h) (some s) = .ok a)
    (hmem : ⟨flow, t⟩ ∈ a.successors) : Follows noTables s ⟨s, thumbInst h, flow⟩ t :=
  ⟨rfl, armEngineThumb, _, _, _, a, rfl, .inr hmode, hdec, ha, hmem⟩

/-- `it eq; bx lr`. -/
theorem run_itSound_iff_bx : ∃ vs, Run (Follows noTables) { mode := .armThumb } vs { mode := .default } ∧
    ∀ s, Visited vs { mode := .default } s → ItSound s ∧ NeverRefused s := by
  have hrun : Run (Follows noTables) { mode := .armThumb }
      [⟨_, thumbInst 0xbf08, .fallthrough⟩, ⟨_, thumbInst 0x4770, .branch⟩] { mode := .default } :=
    .cons (t := inBlock 0x08) (follows_thumb rfl rfl rfl (by decide))
      (.cons (follows_thumb rfl rfl rfl (by decide)) (.nil _))
  refine ⟨_, hrun, (run_itSound_iff noItRows_noTables hrun).2 ?_⟩
  unfold LeavesWholeBlock
  decide

/-- `itt eq; bx lr`: the branch keeps the state of the second slot and drops the mode, so an A32
instruction is refused at its target. -/
theorem run_not_itSound : ∃ vs t inst, Run (Follows noTables) { mode := .armThumb } vs t ∧
    ¬ ItSound t ∧ t.mode = .default ∧
    decodeOne noTables armEngineA32 [0xfe, 0xff, 0xff, 0xea] 0x2000 armEngineA32.emptyInst = .ok inst ∧
    analyzeInstWithState armEngineA32 inst (some t) = .error .invalidArgument := by
  have hrun : Run (Follows noTables) { mode := .armThumb }
      [⟨_, thumbInst 0xbf04, .fallthrough⟩, ⟨_, thumbInst 0x4770, .branch⟩]
      ⟨.default, .armIt, 0x08⟩ :=
    .cons (t := inBlock 0x04) (follows_thumb rfl rfl rfl (by decide))
      (.cons (follows_thumb rfl rfl rfl (by decide)) (.nil _))
  refine ⟨_, _, _, hrun, ?_, rfl, rfl, rfl⟩
  intro hsound
  cases (hsound.of_it rfl).1

end AsmKit
