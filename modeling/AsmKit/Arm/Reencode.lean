import AsmKit.Arm.Thumb
import AsmKit.Encode.Agree
import AsmKit.Relocate.ArmPc

/-!
# ARM branches encoded anew

`arm_encode` knows the target of `b` and of `bl` only: the condition field it writes is 14, and in
Thumb there is the 16-bit `b` alone.
-/

namespace AsmKit.Arm

open LittleEndian SignedField

/-! ## The emitted forms -/

section

variable {tables : Tables} {engine : Engine} {address : BitVec 64} {disp : BitVec 64}

theorem condition_relWordA32 (isCall : Bool) : relWordA32 isCall disp >>> 28 = 14 := by
  have hcond := cond_relWordA32 isCall disp
  have hlt : (relWordA32 isCall disp >>> 28).toNat < 2 ^ 4 := by
    rw [BitVec.toNat_ushiftRight, Nat.shiftRight_eq_div_pow]
    omega
  have hnat := congrArg BitVec.toNat hcond
  rw [Isa.A32.cond, field, BitVec.toNat_setWidth, Nat.mod_eq_of_lt hlt] at hnat
  exact BitVec.eq_of_toNat_eq hnat

theorem decodeOne_relA32 (hmode : engine.config.mode = .armA32) (isCall : Bool)
    (hfits : i64FitsI24Words4 disp = true) :
    ∃ inst, decodeOne tables engine (store32le (relWordA32 isCall disp)) address = .ok inst ∧
      inst.arch = .arm ∧ inst.mode = .armA32 ∧ load32le inst.bytes = relWordA32 isCall disp ∧
      inst.LeadsWith (disp + 8) ∧ inst.PlainForm (if isCall then Mnemonic.bl else Mnemonic.b)
        (if isCall then .directCall else .directBranch) [address + (disp + 8)] := by
  have hload := load32le_store32le (relWordA32 isCall disp) []
  rw [List.append_nil] at hload
  have hlinks : links (relWordA32 isCall disp) = isCall := by
    rw [links, relWordA32_eq_setField, setField_getLsbD _ _ _ _ _ (by omega), if_neg (by omega)]
    cases isCall <;> rfl
  have hgen : genDecodeOne tables engine (store32le (relWordA32 isCall disp)) address = .ok
      (decodeA32Branch engine (store32le (relWordA32 isCall disp)) address
        (load32le (store32le (relWordA32 isCall disp)))) := by
    apply genDecodeOne_branch hmode
    · rw [hload]
      exact isB_relWordA32 _ _
    · rw [store32le_length]
  rw [hload] at hgen
  refine ⟨decodeA32Branch engine (store32le (relWordA32 isCall disp)) address
    (relWordA32 isCall disp), ?_, rfl, hmode, hload, ⟨_, rfl, ?_⟩, ?_⟩
  · rw [decodeOne, hgen]
    exact congrArg Except.ok (mark_branch _)
  · exact a32BranchDisp_relWordA32 isCall hfits
  · rw [decodeA32Branch, ← links_eq, hlinks, a32BranchDisp_relWordA32 isCall hfits]
    cases isCall <;> exact ⟨rfl, rfl, rfl, rfl⟩

theorem decodeOne_relThumb (hmode : engine.config.mode = .armThumb) (hfits : fitsThumb disp = true) :
    ∃ inst, decodeOne tables engine (store16le (relWordThumb disp)) address = .ok inst ∧
      inst.arch = .arm ∧ inst.mode = .armThumb ∧ inst.LeadsWith (disp + 4) ∧
      inst.PlainForm Mnemonic.b .directBranch [address + (disp + 4)] := by
  have hload := load16le_store16le (relWordThumb disp) []
  rw [List.append_nil] at hload
  have hgen : genDecodeOne tables engine (store16le (relWordThumb disp)) address = .ok
      (finish engine (store16le (relWordThumb disp)) address 2 Id.thumbB .directBranch
        (InstFlag.pcRelative ||| InstFlag.direct ||| InstFlag.terminator)
        [pcOperand 0 (disp + 4) (address + (disp + 4)) 11]) := by
    rw [← thumbBranchDisp_relWordThumb hfits]
    exact genDecodeOne_thumbB hmode hload (by rw [store16le_length]) (relWordThumb_and disp)
  refine ⟨finish engine (store16le (relWordThumb disp)) address 2 Id.thumbB .directBranch
    (InstFlag.pcRelative ||| InstFlag.direct ||| InstFlag.terminator)
    [pcOperand 0 (disp + 4) (address + (disp + 4)) 11], ?_, rfl, hmode, ⟨_, rfl, rfl⟩, rfl, rfl, rfl, rfl⟩
  have hne : mnemonicId Id.thumbB ≠ Mnemonic.bx ∧ mnemonicId Id.thumbB ≠ Mnemonic.blx := by decide
  rw [decodeOne, hgen]
  exact congrArg Except.ok (mark_eq_of_ne hne.1 hne.2)

/-! ## The instructions that come back -/

/-- The mnemonics that `arm_encode` knows. -/
def ownMnemonics : List Nat := [Mnemonic.b, Mnemonic.bl]

def plainClass (mnemonic : Nat) : InstClass :=
  if mnemonic = Mnemonic.bl then .directCall else .directBranch

/-- An A32 word has no condition. -/
def AlwaysA32 (engine : Engine) (inst : Inst) : Prop :=
  engine.config.mode = .armA32 → 4 ≤ inst.size → (14 : BitVec 32) ≤ load32le inst.bytes >>> 28

/-- The branch of the class without a condition, its target held, and its word without one. -/
structure IsPlain (engine : Engine) (inst : Inst) : Prop where
  instClass : inst.instClass = plainClass inst.mnemonicId
  operands : inst.plainOperands = []
  targets : inst.HoldsTarget (directSize engine)
  always : AlwaysA32 engine inst

theorem predicateIn_a32 {inst : Inst} (harch : inst.arch = .arm) (hmode : inst.mode = .armA32)
    (state : DecodeState) :
    inst.predicateIn state =
      if 4 ≤ inst.size then conditionPredicate (load32le inst.bytes >>> 28) else {} := by
  simp [Inst.predicateIn, armApplyPredicate, harch, hmode]

theorem conditionPredicate_eq_always (condition : BitVec 32) :
    conditionPredicate condition = {} ↔ 14 ≤ condition := by
  unfold conditionPredicate
  split
  · rename_i hlt
    refine iff_of_false ?_ (BitVec.not_le.2 hlt)
    intro h
    cases h
  · rename_i hle
    exact iff_of_true rfl (BitVec.not_lt.1 hle)

theorem predicateIn_thumb {inst inst' : Inst} (harch : inst.arch = .arm) (harch' : inst'.arch = .arm)
    (hmode : inst.mode = .armThumb) (hmode' : inst'.mode = .armThumb)
    (hclass : inst.instClass = .directBranch) (hclass' : inst'.instClass = .directBranch)
    (state : DecodeState) : inst'.predicateIn state = inst.predicateIn state := by
  simp [Inst.predicateIn, armApplyPredicate, harch, harch', hmode, hmode', hclass, hclass']

end

section

variable {engine : Engine} {tables : AsmKit.Tables} {inst : Inst} {capacity : Nat} {out : EncodeOut}

theorem decodeOne_encodeOwn (hinst : inst.arch = .arm) (hmode : inst.mode = engine.config.mode)
    (hmnemonic : inst.mnemonicId ∈ ownMnemonics)
    (hown : encodeOwn engine inst capacity = some out) (hok : out.status = .ok) :
    ∃ inst' targets, decodeOne tables.arm engine out.code inst.address = .ok inst' ∧
      inst'.PlainForm inst.mnemonicId (plainClass inst.mnemonicId) targets ∧
      (inst.targetOperands.map (·.absTarget) = targets ↔ inst.HoldsTarget (directSize engine)) ∧
      (inst.instClass = plainClass inst.mnemonicId →
        ((∀ state, inst'.predicateIn state = inst.predicateIn state) ↔ AlwaysA32 engine inst)) := by
  have hzero : ∀ mnemonic ∈ ownMnemonics, mnemonic ≠ 0 := by decide
  have hbranch : inst.mnemonicId = Mnemonic.b ∨ inst.mnemonicId = Mnemonic.bl := by
    simpa [ownMnemonics] using hmnemonic
  rw [encodeOwn, instMnemonic, if_pos (hzero _ hmnemonic)] at hown
  simp only [if_pos hbranch, Option.map_eq_some_iff] at hown
  obtain ⟨o, hlead, hout⟩ := hown
  have hemit : (emitRel engine (inst.mnemonicId == Mnemonic.bl) inst.address
      (armBranchTarget inst o (directSize engine)) capacity).status = .ok := by
    rw [← hok, ← hout]
    rfl
  have hheld : inst.targetOperands.map (·.absTarget) = [armBranchTarget inst o (directSize engine)] ↔
      inst.HoldsTarget (directSize engine) := holdsTarget_iff hlead rfl
  rcases emitRel_of_ok hemit with ⟨ha32, hfits, heq⟩ | ⟨hthumb, hjump, hfits, heq⟩
  · have hback : inst.address + (relDispA32 inst.address
        (armBranchTarget inst o (directSize engine)) + 8) =
          armBranchTarget inst o (directSize engine) := by
      unfold relDispA32
      bv_omega
    obtain ⟨inst', hdec, harch', hmode', hword, -, hform⟩ :=
      decodeOne_relA32 ha32 (inst.mnemonicId == Mnemonic.bl) hfits
    rw [hback] at hform
    refine ⟨inst', _, ?_, ?_, hheld, ?_⟩
    · rw [← hout, EmitOut.encoded, heq]
      exact hdec
    · rcases hbranch with h | h <;> rw [h] at hform ⊢ <;> exact hform
    · intro _
      have hnone : ∀ state, inst'.predicateIn state = {} := by
        intro state
        rw [predicateIn_a32 harch' hmode', hword, condition_relWordA32]
        exact ite_self _
      simp only [hnone, predicateIn_a32 hinst (hmode.trans ha32), AlwaysA32,
        ← conditionPredicate_eq_always]
      constructor
      · intro hagree _ hsize
        rw [hagree (defaultDecodeState inst), if_pos hsize]
      · intro halways _
        split
        · rename_i hsize
          exact (halways ha32 hsize).symm
        · rfl
  · have hback : inst.address + (relDispThumb inst.address
        (armBranchTarget inst o (directSize engine)) + 4) =
          armBranchTarget inst o (directSize engine) := by
      unfold relDispThumb
      bv_omega
    obtain ⟨inst', hdec, harch', hmode', -, hform⟩ := decodeOne_relThumb hthumb hfits
    rw [hback] at hform
    have hb : inst.mnemonicId = Mnemonic.b := hbranch.resolve_right fun h => by simp [h] at hjump
    refine ⟨inst', _, ?_, ?_, hheld, ?_⟩
    · rw [← hout, EmitOut.encoded, heq]
      exact hdec
    · rw [hb]
      exact hform
    · intro hclass
      rw [hb] at hclass
      refine iff_of_true ?_ ?_
      · exact predicateIn_thumb hinst harch' (hmode.trans hthumb) hmode' hclass hform.instClass
      · intro ha32
        rw [hthumb] at ha32
        cases ha32

theorem decodesBack_iff (harch : engine.target.arch = .arm) (hinst : inst.arch = .arm)
    (hmode : inst.mode = engine.config.mode) (hmnemonic : inst.mnemonicId ∈ ownMnemonics)
    (hown : encodeOwn engine inst capacity = some out) (hok : out.status = .ok) (prior : Inst) :
    inst.DecodesBack tables engine out.code prior ↔ IsPlain engine inst := by
  obtain ⟨inst', targets, hdec, hform, htargets, halways⟩ :=
    decodeOne_encodeOwn hinst hmode hmnemonic hown hok
  have hdec' : AsmKit.decodeOne tables engine out.code inst.address prior =
      .ok (applyOperandMetadata tables inst') := by
    rw [AsmKit.decodeOne, targetDecodeOne, harch, hdec]
    rfl
  rw [Inst.decodesBack_iff hdec', (hform.withMetadata tables).agrees_iff]
  constructor
  · rintro ⟨h, hpredicate⟩
    exact ⟨h.instClass, h.operands, htargets.1 h.targets, (halways h.instClass).1 hpredicate⟩
  · intro h
    exact ⟨⟨rfl, h.instClass, h.operands, htargets.2 h.targets⟩, (halways h.instClass).2 h.always⟩

end

end AsmKit.Arm
