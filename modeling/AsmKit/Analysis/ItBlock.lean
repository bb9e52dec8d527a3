import AsmKit.Analysis.ItRuns
import AsmKit.Text.Arm

/-!
# The slots of an IT block

The predicates along the instructions behind an `it` are the letters of its mnemonic.
-/

namespace AsmKit

open Labelled Isa.It

/-! ## Slots and letters -/

/-- The mnemonic without its first letter: one letter for each slot. -/
def slotLetters (condition mask : BitVec 4) : List Char :=
  't' :: Text.itLetters (condition.setWidth 32) (mask.setWidth 32)

theorem slotLetters_length : ∀ condition mask : BitVec 4, mask ≠ 0 →
    (slotLetters condition mask).length = blockLength mask := by
  unfold slotLetters
  decide

theorem slotLetters_slot : ∀ condition mask : BitVec 4, mask ≠ 0 → ∀ k < blockLength mask,
    let letter := (slotLetters condition mask).getD k ' '
    let it := advance^[k] (start condition mask)
    it ≠ 0 ∧ (letter = 't' ∨ letter = 'e') ∧
      (it >>> 4).setWidth 32 = (if letter = 't' then condition else condition ^^^ 1).setWidth 32 := by
  unfold slotLetters
  decide

theorem iterate_advance_eq_zero {condition mask : BitVec 4} (hmask : mask ≠ 0) {k : Nat}
    (hk : blockLength mask ≤ k) : advance^[k] (start condition mask) = 0 := by
  obtain ⟨d, rfl⟩ := Nat.exists_eq_add_of_le hk
  rw [Nat.add_comm, Function.iterate_add_apply, iterate_advance_of_le condition mask hmask]
  exact Function.iterate_fixed advance_zero d

theorem conditionName_isSome : ∀ condition : BitVec 4,
    (Text.conditionName (condition.setWidth 32).toNat).isSome = true := by decide

theorem itCondition_setWidth : ∀ c : BitVec 4, c ≠ 15 → c.setWidth 32 ≠ 0x0f#32 := by decide

theorem itCondition_ne (h : BitVec 16) : itCondition h ≠ 15 := by
  unfold itCondition
  split
  · decide
  · assumption

theorem armItMnemonic_it (tables : Tables) {engine : Engine} (hmode : engine.config.mode = .armThumb)
    {code : List Byte} (address : BitVec 64) {h : BitVec 16} (hmask : itMask h ≠ 0) :
    ∃ name, Text.armItMnemonic "it" (applyOperandMetadata tables
        (Arm.finish engine code address 2 Arm.Id.thumbIt .armIt 0 (Arm.itOperands h))) =
      some ('i' :: slotLetters (itCondition h) (itMask h) ++ [' '] ++ name) := by
  obtain ⟨name, hname⟩ := Option.isSome_iff_exists.1 (conditionName_isSome (itCondition h))
  have hwidth : ∀ c : BitVec 4, (c.setWidth 64).setWidth 32 = c.setWidth 32 := by decide
  have hne : ∀ c : BitVec 4, c ≠ 0 → c.setWidth 32 ≠ 0#32 := by decide
  refine ⟨name, ?_⟩
  rw [itOperands_eq]
  simp only [Text.armItMnemonic, Text.itFields, applyOperandMetadata, Arm.finish, List.map_cons,
    List.map_nil, Operand.withInfos_kind, Operand.withInfos_imm, Operand.atIndex_kind,
    Operand.atIndex_imm, Operand.ofImm, hwidth, hmode]
  simp [hne _ hmask, itCondition_setWidth _ (itCondition_ne h), hname, slotLetters,
    -BitVec.toNat_setWidth]

/-! ## Steps -/

/-- An instruction with its analysis in a state. -/
structure Analysed where
  state : DecodeState
  inst : Inst
  analysis : ControlAnalysis

/-- A Thumb instruction that is no `it` is analysed in the state, and the run falls through. -/
def FallsThrough (engine : Engine) (s : DecodeState) (x : Analysed) (t : DecodeState) : Prop :=
  x.state = s ∧ x.inst.arch = .arm ∧ x.inst.mode = .armThumb ∧ x.inst.instClass ≠ .armIt ∧
    analyzeInstWithState engine x.inst (some s) = .ok x.analysis ∧
    ⟨.fallthrough, t⟩ ∈ x.analysis.successors

theorem fallthrough_state {inst : Inst} {next target t : DecodeState}
    (h : ⟨.fallthrough, t⟩ ∈ successorsOf inst (Arm.analyze inst).branch next target) : t = next := by
  rcases successor_state h with ⟨hstate, -⟩ | ⟨-, hflow, -⟩
  · exact hstate
  · simp at hflow

theorem FallsThrough.step {engine : Engine} (harch : engine.target.arch = .arm) {s t : DecodeState}
    {x : Analysed} (h : FallsThrough engine s x t) {it : BitVec 8} (hmode : s.mode = .armThumb)
    (hisa : s.isa = .ofIt it) :
    (it ≠ 0 → x.analysis.predicate =
      { kind := .armCondition, predicateId := (it >>> 4).setWidth 32 }) ∧
      t.mode = .armThumb ∧ t.isa = .ofIt (advance it) := by
  obtain ⟨-, hinst, hthumb, hclass, ha, hmem⟩ := h
  obtain ⟨-, -, hpred, hsucc⟩ := analyzeInstWithState_arm harch hinst ha
  rw [currentState_mode (.inr (hmode.trans hthumb.symm))] at hpred hsucc
  rw [hsucc] at hmem
  have ht := fallthrough_state hmem
  rw [nextState_eq_advance hinst (.inr hthumb) fun _ => hclass] at ht
  refine ⟨fun hne => ?_, ?_, ?_⟩
  · rw [IsaState.ofIt_of_ne hne] at hisa
    rw [hpred, armApplyPredicate, hisa, if_pos ⟨hthumb, rfl, hne, hclass⟩]
  · rw [ht, DecodeState.advance]
    split
    · exact hthumb
    · exact hthumb
  · rw [ht, DecodeState.advance, hisa]
    by_cases hzero : it = 0
    · subst hzero
      rfl
    · rw [IsaState.ofIt_of_ne hzero]

/-! ## The run behind an `it` -/

theorem decodeOne_of_it {tables : Tables} {engine : Engine} {code : List Byte} {address : BitVec 64}
    {prior inst : Inst} (harch : engine.target.arch = .arm) (hmode : engine.config.mode = .armThumb)
    (hcode : load16le code &&& 0xff00 = 0xbf00 ∧ load16le code &&& 0x000f ≠ 0)
    (h : decodeOne tables engine code address prior = .ok inst) :
    inst = applyOperandMetadata tables (Arm.finish engine code address 2 Arm.Id.thumbIt .armIt 0
      (Arm.itOperands (load16le code))) := by
  obtain ⟨inst0, hdec, rfl⟩ := decodeOne_arm harch h
  obtain ⟨inst1, hgen, rfl⟩ := Arm.decodeOne_eq_ok hdec
  simp only [Arm.genDecodeOne, hmode, Arm.decodeThumb] at hgen
  split at hgen
  · cases hgen
  · cases hgen
    rfl

theorem analyze_it {tables : Tables} {engine : Engine} (harch : engine.target.arch = .arm)
    (hmode : engine.config.mode = .armThumb) {code : List Byte} {address : BitVec 64}
    {h : BitVec 16} {state : Option DecodeState} {a : ControlAnalysis} {s : DecodeState}
    (ha : analyzeInstWithState engine (applyOperandMetadata tables
      (Arm.finish engine code address 2 Arm.Id.thumbIt .armIt 0 (Arm.itOperands h))) state = .ok a)
    (hmem : ⟨.fallthrough, s⟩ ∈ a.successors) (hmask : itMask h ≠ 0) :
    s.mode = .armThumb ∧ s.isa = .ofIt (start (itCondition h) (itMask h)) := by
  obtain ⟨hstate, -, -, hsucc⟩ := analyzeInstWithState_arm harch rfl ha
  rw [hsucc] at hmem
  have hstart : ∀ condition mask : BitVec 4, mask ≠ 0 → start condition mask ≠ 0 := by decide
  rw [fallthrough_state hmem, nextState, itstateOf_it, if_pos ⟨rfl, hmode⟩, if_pos ⟨rfl, Nat.le_refl 2⟩,
    IsaState.ofIt_of_ne (hstart _ _ hmask)]
  exact ⟨hstate.trans hmode, rfl⟩

/-- The predicates and the states along the slots, and behind them. -/
theorem slots_of_run {engine : Engine} (harch : engine.target.arch = .arm)
    {condition mask : BitVec 4} (hmask : mask ≠ 0) {s t : DecodeState} {xs : List Analysed}
    (hmode : s.mode = .armThumb) (hisa : s.isa = .ofIt (start condition mask))
    (hrun : Run (FallsThrough engine) s xs t) :
    (∀ k x, xs[k]? = some x →
      (k < blockLength mask → ∃ letter, (slotLetters condition mask)[k]? = some letter ∧
        (letter = 't' ∨ letter = 'e') ∧ x.analysis.predicate =
          { kind := .armCondition
            predicateId := (if letter = 't' then condition else condition ^^^ 1).setWidth 32 }) ∧
      (blockLength mask ≤ k → x.state.isa = {})) ∧
    (blockLength mask ≤ xs.length → t.isa = {}) := by
  -- After `k` instructions the ITSTATE has been advanced `k` times.
  let I (k : Nat) (s : DecodeState) : Prop :=
    s.mode = .armThumb ∧ s.isa = .ofIt (advance^[k] (start condition mask))
  let P (k : Nat) (x : Analysed) : Prop :=
    (advance^[k] (start condition mask) ≠ 0 → x.analysis.predicate =
      { kind := .armCondition
        predicateId := (advance^[k] (start condition mask) >>> 4).setWidth 32 }) ∧
    x.state.isa = .ofIt (advance^[k] (start condition mask))
  have hstep : ∀ k s x t, I k s → FallsThrough engine s x t → P k x ∧ I (k + 1) t := by
    rintro k s x t ⟨hs, hi⟩ hx
    obtain ⟨hpred, ht⟩ := hx.step harch hs hi
    refine ⟨⟨hpred, hx.1 ▸ hi⟩, ?_⟩
    show t.mode = _ ∧ t.isa = .ofIt (advance^[k + 1] _)
    rwa [Function.iterate_succ_apply']
  obtain ⟨hall, hend⟩ := hrun.forall_getElem? hstep (k := 0) ⟨hmode, hisa⟩
  simp only [Nat.zero_add] at hall hend
  constructor
  · intro k x hx
    obtain ⟨hpred, hstate⟩ := hall k x hx
    constructor
    · intro hk
      have hlt : k < (slotLetters condition mask).length := by
        rwa [slotLetters_length condition mask hmask]
      obtain ⟨hne, hletter, hid⟩ := slotLetters_slot condition mask hmask k hk
      rw [List.getD_eq_getElem?_getD, List.getElem?_eq_getElem hlt, Option.getD_some] at hletter hid
      exact ⟨_, List.getElem?_eq_getElem hlt, hletter, by rw [hpred hne, hid]⟩
    · intro hk
      rw [hstate, iterate_advance_eq_zero hmask hk]
      rfl
  · intro hk
    rw [hend.2, iterate_advance_eq_zero hmask hk]
    rfl

/-- Along the fall-through successors of an `it`, the predicates are the letters of its mnemonic:
the condition of the `it` for a `t`, the opposite one for an `e`. Behind the last slot there is no
ISA state. -/
theorem itBlock_predicates {tables : Tables} {engine : Engine} {code : List Byte}
    {address : BitVec 64} {prior inst : Inst} {state : Option DecodeState} {a : ControlAnalysis}
    {s t : DecodeState} {xs : List Analysed} (harch : engine.target.arch = .arm)
    (hmode : engine.config.mode = .armThumb)
    (hcode : load16le code &&& 0xff00 = 0xbf00 ∧ load16le code &&& 0x000f ≠ 0)
    (hdec : decodeOne tables engine code address prior = .ok inst)
    (ha : analyzeInstWithState engine inst state = .ok a)
    (hmem : ⟨.fallthrough, s⟩ ∈ a.successors) (hrun : Run (FallsThrough engine) s xs t) :
    let condition := itCondition (load16le code)
    let n := 4 - (itMask (load16le code)).ctz.toNat
    ∃ text, Text.armItMnemonic "it" inst = some text ∧ text[n + 1]? = some ' ' ∧
      (∀ k x, xs[k]? = some x →
        (k < n → ∃ letter, text[k + 1]? = some letter ∧ (letter = 't' ∨ letter = 'e') ∧
          x.analysis.predicate =
            { kind := .armCondition
              predicateId := (if letter = 't' then condition else condition ^^^ 1).setWidth 32 }) ∧
        (n ≤ k → x.state.isa = {})) ∧
      (n ≤ xs.length → t.isa = {}) := by
  have hmask := itMask_ne_zero hcode.2
  obtain rfl := decodeOne_of_it harch hmode hcode hdec
  obtain ⟨hthumb, hisa⟩ := analyze_it harch hmode ha hmem hmask
  obtain ⟨name, htext⟩ := armItMnemonic_it tables hmode address hmask
  obtain ⟨hall, hend⟩ := slots_of_run harch hmask hthumb hisa hrun
  have hlength := slotLetters_length (itCondition (load16le code)) _ hmask
  refine ⟨_, htext, ?_, ?_, hend⟩
  · rw [List.append_assoc, List.getElem?_append_right (by simp [hlength, blockLength])]
    simp [hlength, blockLength]
  · intro k x hx
    obtain ⟨hslot, hbehind⟩ := hall k x hx
    refine ⟨fun hk => ?_, hbehind⟩
    obtain ⟨letter, hletter, hpred⟩ := hslot hk
    refine ⟨letter, ?_, hpred⟩
    rw [List.cons_append, List.cons_append, List.getElem?_cons_succ, List.append_assoc,
      List.getElem?_append_left (hlength ▸ hk), hletter]

/-- `ite eq` and three instructions behind it. -/
theorem itBlock_predicates_ite : ∃ inst a xs t,
    decodeOne noTables armEngineThumb (store16le 0xbf0c) 0x1000 armEngineThumb.emptyInst = .ok inst ∧
    analyzeInstWithState armEngineThumb inst none = .ok a ∧
    ⟨.fallthrough, inBlock 0x0c⟩ ∈ a.successors ∧
    Run (FallsThrough armEngineThumb) (inBlock 0x0c) xs t ∧ xs.length = 3 ∧
    (∃ text, Text.armItMnemonic "it" inst = some text ∧ text[3]? = some ' ' ∧
      ∀ k x, xs[k]? = some x → k < 2 → ∃ letter, text[k + 1]? = some letter ∧
        x.analysis.predicate.predicateId = if letter = 't' then 0 else 1) ∧ t.isa = {} := by
  have hclass : (thumbInst 0x3001).instClass ≠ .armIt := by decide
  have hstep : ∀ {s t : DecodeState} {a : ControlAnalysis}, s.mode = .armThumb →
      analyzeInstWithState armEngineThumb (thumbInst 0x3001) (some s) = .ok a →
      ⟨.fallthrough, t⟩ ∈ a.successors →
      FallsThrough armEngineThumb s ⟨s, thumbInst 0x3001, a⟩ t :=
    fun _ ha hmem => ⟨rfl, rfl, rfl, hclass, ha, hmem⟩
  have hrun : Run (FallsThrough armEngineThumb) (inBlock 0x0c)
      [⟨_, thumbInst 0x3001, _⟩, ⟨_, thumbInst 0x3001, _⟩, ⟨_, thumbInst 0x3001, _⟩]
      { mode := .armThumb } :=
    .cons (t := inBlock 0x18) (hstep rfl rfl (by decide))
      (.cons (t := { mode := .armThumb }) (hstep rfl rfl (by decide))
        (.cons (hstep rfl rfl (by decide)) (.nil _)))
  have hcode : load16le (store16le 0xbf0c) &&& 0xff00 = 0xbf00 ∧
      load16le (store16le 0xbf0c) &&& 0x000f ≠ 0 := by decide
  have hdec : decodeOne noTables armEngineThumb (store16le 0xbf0c) 0x1000 armEngineThumb.emptyInst =
      .ok (thumbInst 0xbf0c) := rfl
  obtain ⟨a, ha, hmem⟩ : ∃ a, analyzeInstWithState armEngineThumb (thumbInst 0xbf0c) none = .ok a ∧
      ⟨.fallthrough, inBlock 0x0c⟩ ∈ a.successors := ⟨_, rfl, by decide⟩
  obtain ⟨text, htext, hend, hall, ht⟩ := itBlock_predicates rfl rfl hcode hdec ha hmem hrun
  refine ⟨_, a, _, _, hdec, ha, hmem, hrun, rfl, ⟨text, htext, hend, ?_⟩, ht (by decide)⟩
  intro k x hx hk
  obtain ⟨letter, hletter, -, hpred⟩ := (hall k x hx).1 hk
  refine ⟨letter, hletter, ?_⟩
  rw [hpred]
  by_cases hl : letter = 't'
  · rw [if_pos hl, if_pos hl]
    decide
  · rw [if_neg hl, if_neg hl]
    decide

end AsmKit
