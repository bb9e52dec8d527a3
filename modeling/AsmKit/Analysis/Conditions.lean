import AsmKit.Analysis.ItRuns
import AsmKit.Analysis.Relations
import AsmKit.Lib.Pattern
import AsmKit.Text.Arm

/-!
# The conditions of ARM branches

Where a branch keeps its condition, and what the analyser, the formatter and the value analysis
make of it.
-/

namespace AsmKit

/-! ## Encodings -/

/-- The branches with a condition: `b` and `bl` of A32, the two forms of `b<cond>` of Thumb, and
`cbz` with `cbnz`. -/
inductive BranchEncoding where
  | a32 (w : BitVec 32)
  | narrow (h : BitVec 16)
  | wide (h1 h2 : BitVec 16)
  | compareZero (h : BitVec 16)
deriving DecidableEq, Repr

namespace BranchEncoding

/-- The condition field of the encoding, none where it tests a register. -/
def condition : BranchEncoding → Option (BitVec 4)
  | a32 w => some (w.extractLsb' 28 4)
  | narrow h => some (h.extractLsb' 8 4)
  | wide h1 _ => some (h1.extractLsb' 6 4)
  | compareZero _ => none

/-- The branch looks at the flags: its condition is neither AL nor the one behind it. -/
def DependsOnFlags (e : BranchEncoding) : Prop := ∃ c, e.condition = some c ∧ c.toNat < 14

/-- The code begins with the encoding. From 14 on, the condition field of the Thumb forms makes
another instruction of it. -/
def At (e : BranchEncoding) (mode : Mode) (code : List Byte) : Prop :=
  match e with
  | a32 w => mode = .armA32 ∧ load32le code = w ∧ Arm.isA32Branch w
  | narrow h => mode = .armThumb ∧ load16le code = h ∧ h &&& 0xf000 = 0xd000 ∧
      (h.extractLsb' 8 4).toNat < 14
  | wide h1 h2 => mode = .armThumb ∧ load16le code = h1 ∧ load16le (code.drop 2) = h2 ∧
      h1 &&& 0xf800 = 0xf000 ∧ h2 &&& 0xd000 = 0x8000 ∧ (h1.extractLsb' 6 4).toNat < 14
  | compareZero h => mode = .armThumb ∧ load16le code = h ∧ h &&& 0xf500 = 0xb100

/-- The instruction is decoded as the branch: the mnemonic, the class and the size are its own. -/
def DecodedAs (e : BranchEncoding) (inst : Inst) : Prop :=
  match e with
  | a32 _ => inst.size = 4 ∧
      ((inst.mnemonicId = Arm.Mnemonic.b ∧ inst.instClass = .directBranch) ∨
        (inst.mnemonicId = Arm.Mnemonic.bl ∧ inst.instClass = .directCall))
  | narrow _ => inst.size = 2 ∧ inst.mnemonicId = Arm.Mnemonic.b ∧ inst.instClass = .condBranch
  | wide _ _ => inst.size = 4 ∧ inst.mnemonicId = Arm.Mnemonic.b ∧ inst.instClass = .condBranch
  | compareZero _ => inst.size = 2 ∧
      (inst.mnemonicId = Arm.Mnemonic.cbz ∨ inst.mnemonicId = Arm.Mnemonic.cbnz) ∧
      inst.instClass = .condBranch

/-- The condition field lies where the analyser looks for it. -/
def FieldFound : BranchEncoding → Prop
  | a32 _ => True
  | narrow _ => True
  | wide h1 _ => h1.extractLsb' 8 4 = h1.extractLsb' 6 4
  | compareZero _ => False

end BranchEncoding

/-- The predicate is the condition of the encoding, the formatter prints it, and the relation is
what it means behind a `cmp`. -/
structure ConditionSound (e : BranchEncoding) (inst : Inst) (a : ControlAnalysis)
    (va : ValueAnalysis) : Prop where
  depends : a.predicate.kind = .armCondition ↔ e.DependsOnFlags
  field : a.predicate.kind = .armCondition →
    e.condition.map (·.setWidth 32) = some a.predicate.predicateId
  printed : ∀ mnemonic text, Text.armConditionalBranchMnemonic mnemonic inst = some text →
    a.predicate.kind = .armCondition ∧ ∃ name,
      Text.conditionName a.predicate.predicateId.toNat = some name ∧ text = mnemonic.toList ++ name
  taken : va.condition.takenRelation ≠ .none → ∀ c, e.condition = some c → ∀ x y : BitVec 32,
    va.condition.takenRelation.holds x y = (Isa.Nzcv.ofSub x y).holds c

/-! ## Fields -/

theorem getD_take {l : List Byte} {i n : Nat} (h : i < n) : (l.take n).getD i 0 = l.getD i 0 := by
  simp [List.getD_eq_getElem?_getD, h]

theorem load16le_take {code : List Byte} {n : Nat} (h : 2 ≤ n) :
    load16le (code.take n) = load16le code := by
  simp only [load16le, getD_take (show 0 < n by omega), getD_take (show 1 < n by omega)]

theorem load32le_take {code : List Byte} {n : Nat} (h : 4 ≤ n) :
    load32le (code.take n) = load32le code := by
  simp only [load32le, getD_take (show 0 < n by omega), getD_take (show 1 < n by omega),
    getD_take (show 2 < n by omega), getD_take (show 3 < n by omega)]

theorem topNibble_eq (w : BitVec 32) : w >>> 28 = (w.extractLsb' 28 4).setWidth 32 := by
  apply BitVec.eq_of_getLsbD_eq
  intro i hi
  simp only [BitVec.getLsbD_ushiftRight, BitVec.getLsbD_setWidth, BitVec.getLsbD_extractLsb', hi]
  by_cases h4 : i < 4
  · simp [h4]
  · simp [h4, BitVec.getLsbD_of_ge w (28 + i) (by omega)]

theorem nibble_setWidth_32 (h : BitVec 16) (k : Nat) :
    ((h >>> k) &&& 0x0f).setWidth 32 = (h.extractLsb' k 4).setWidth 32 := by
  have hwidth : ∀ c : BitVec 4, (c.setWidth 16).setWidth 32 = c.setWidth 32 := by decide
  rw [nibble_eq, hwidth]

theorem conditionPredicate_setWidth (c : BitVec 4) : conditionPredicate (c.setWidth 32) =
    if c.toNat < 14 then { kind := .armCondition, predicateId := c.setWidth 32 } else {} := by
  have hlt : ∀ c : BitVec 4, c.setWidth 32 < 0x0e#32 ↔ c.toNat < 14 := by decide
  unfold conditionPredicate
  simp only [BitVec.ofNat_eq_ofNat, hlt]

/-! ## What the analyser reads -/

namespace BranchEncoding

/-- The four bits the analyser takes for the condition. -/
def readField : BranchEncoding → BitVec 4
  | a32 w => w.extractLsb' 28 4
  | narrow h => h.extractLsb' 8 4
  | wide h1 _ => h1.extractLsb' 8 4
  | compareZero h => h.extractLsb' 8 4

end BranchEncoding

section

variable {e : BranchEncoding} {inst : Inst} {current : DecodeState} {code : List Byte}
  {a : ControlAnalysis} {va : ValueAnalysis}

theorem armApplyPredicate_branch (hat : e.At inst.mode code) (hdecoded : e.DecodedAs inst)
    (hbytes : inst.bytes = code.take inst.size)
    (hidle : current.isa.kind = .armIt → current.isa.armItstate = 0) :
    armApplyPredicate inst current = conditionPredicate (e.readField.setWidth 32) := by
  have hnoIt : ¬ (inst.mode = .armThumb ∧ current.isa.kind = .armIt ∧ current.isa.armItstate ≠ 0 ∧
      inst.instClass ≠ .armIt) := by
    rintro ⟨-, hkind, hne, -⟩
    exact hne (hidle hkind)
  rw [armApplyPredicate, if_neg hnoIt, hbytes]
  cases e with
  | a32 w =>
    obtain ⟨hmode, hw, -⟩ := hat
    have hsize : inst.size = 4 := hdecoded.1
    rw [if_neg (by simp [hmode]), if_pos ⟨hmode, by omega⟩, load32le_take (by omega), hw,
      topNibble_eq]
    rfl
  | narrow h =>
    obtain ⟨hmode, hh, -⟩ := hat
    obtain ⟨hsize, -, hclass⟩ := hdecoded
    rw [if_pos ⟨hmode, hclass, by omega⟩, load16le_take (by omega), hh, nibble_setWidth_32]
    rfl
  | wide h1 h2 =>
    obtain ⟨hmode, hh, -⟩ := hat
    obtain ⟨hsize, -, hclass⟩ := hdecoded
    rw [if_pos ⟨hmode, hclass, by omega⟩, load16le_take (by omega), hh, nibble_setWidth_32]
    rfl
  | compareZero h =>
    obtain ⟨hmode, hh, -⟩ := hat
    obtain ⟨hsize, -, hclass⟩ := hdecoded
    rw [if_pos ⟨hmode, hclass, by omega⟩, load16le_take (by omega), hh, nibble_setWidth_32]
    rfl

theorem armBranchCondition_eq (hat : e.At inst.mode code) (hdecoded : e.DecodedAs inst)
    (hbytes : inst.bytes = code.take inst.size) : Text.armBranchCondition inst =
      (e.condition.map (·.setWidth 32)).getD 0xff := by
  simp only [Text.armBranchCondition, hbytes]
  cases e with
  | a32 w =>
    obtain ⟨hmode, hw, -⟩ := hat
    have hsize : inst.size = 4 := hdecoded.1
    rw [if_pos ⟨hmode, by omega⟩, load32le_take (by omega), hw, topNibble_eq]
    rfl
  | narrow h =>
    obtain ⟨hmode, hh, hd, -⟩ := hat
    have hsize : inst.size = 2 := hdecoded.1
    rw [if_neg (by simp [hmode]), if_pos ⟨hmode, by omega⟩, load16le_take (by omega), hh, if_pos hd,
      nibble_setWidth_32]
    rfl
  | wide h1 h2 =>
    obtain ⟨hmode, hh1, hh2, hf, h8, -⟩ := hat
    have hsize : inst.size = 4 := hdecoded.1
    have hd : h1 &&& 0xf000 ≠ 0xd000 := BitPattern.and_ne_of_disjoint hf (by decide)
    have hh2' : load16le ((code.take inst.size).drop 2) = h2 := by
      rw [List.drop_take, load16le_take (by omega), hh2]
    rw [if_neg (by simp [hmode]), if_pos ⟨hmode, by omega⟩, load16le_take (by omega), hh1, hh2',
      if_neg hd, if_pos (by omega), if_pos ⟨hf, h8⟩, nibble_setWidth_32]
    rfl
  | compareZero h =>
    obtain ⟨hmode, hh, hb⟩ := hat
    have hsize : inst.size = 2 := hdecoded.1
    have hd : h &&& 0xf000 ≠ 0xd000 := BitPattern.and_ne_of_disjoint hb (by decide)
    rw [if_neg (by simp [hmode]), if_pos ⟨hmode, by omega⟩, load16le_take (by omega), hh, if_neg hd,
      if_neg (by omega)]
    rfl

theorem values_takenRelation {engine : Engine} (hinst : inst.arch = .arm)
    (hcmp : inst.mnemonicId ≠ Arm.Mnemonic.cmp) (hcbz : inst.mnemonicId ≠ Arm.Mnemonic.cbz)
    (hcbnz : inst.mnemonicId ≠ Arm.Mnemonic.cbnz)
    (hva : analyzeInstValues engine inst a = .ok va) :
    va.condition.takenRelation =
      if a.semantics.branch.isConditional ∧ a.predicate.kind = .armCondition then
        Arm.takenRelation a.predicate.predicateId
      else .none := by
  unfold analyzeInstValues at hva
  split at hva
  · cases hva
  · simp only [hinst] at hva
    cases hva
    simp only [Arm.values, Arm.useCondition, if_neg hcmp, if_neg hcbz, if_neg hcbnz]
    split
    · rfl
    · rw [Arm.valueEffects_condition]
      split <;> simp

theorem DecodedAs.mnemonic_ne (hdecoded : e.DecodedAs inst) (hflags : e.condition.isSome) :
    inst.mnemonicId ≠ Arm.Mnemonic.cmp ∧ inst.mnemonicId ≠ Arm.Mnemonic.cbz ∧
      inst.mnemonicId ≠ Arm.Mnemonic.cbnz := by
  have hb : inst.mnemonicId = Arm.Mnemonic.b ∨ inst.mnemonicId = Arm.Mnemonic.bl := by
    cases e with
    | a32 w => exact hdecoded.2.imp And.left And.left
    | narrow h => exact .inl hdecoded.2.1
    | wide h1 h2 => exact .inl hdecoded.2.1
    | compareZero h => cases hflags
  rcases hb with hb | hb <;> rw [hb] <;> decide

theorem printed_of_condition (hat : e.At inst.mode code) (hdecoded : e.DecodedAs inst)
    (hbytes : inst.bytes = code.take inst.size) {mnemonic : String} {text : List Char}
    (h : Text.armConditionalBranchMnemonic mnemonic inst = some text) :
    ∃ c, e.condition = some c ∧ c.toNat < 14 ∧ ∃ name,
      Text.conditionName (c.setWidth 32).toNat = some name ∧ text = mnemonic.toList ++ name := by
  simp only [Text.armConditionalBranchMnemonic, armBranchCondition_eq hat hdecoded hbytes] at h
  have hlt : ∀ c : BitVec 4, ¬ (0x0e : BitVec 32) ≤ c.setWidth 32 → c.toNat < 14 := by decide
  split at h
  · cases h
  split at h
  · cases h
  rename_i hle
  cases hc : e.condition with
  | none => rw [hc] at hle; exact absurd (by decide) hle
  | some c =>
    rw [hc] at h hle
    obtain ⟨name, hname, htext⟩ := Option.map_eq_some_iff.1 h
    exact ⟨c, rfl, hlt c hle, name, hname, htext.symm⟩

theorem conditionSound_of_field {engine : Engine} (hinst : inst.arch = .arm)
    (hat : e.At inst.mode code) (hdecoded : e.DecodedAs inst)
    (hbytes : inst.bytes = code.take inst.size) (hfield : e.condition = some e.readField)
    (hpred : a.predicate = conditionPredicate (e.readField.setWidth 32))
    (hva : analyzeInstValues engine inst a = .ok va) : ConditionSound e inst a va := by
  have hkind : a.predicate.kind = .armCondition ↔ e.readField.toNat < 14 := by
    rw [hpred, conditionPredicate_setWidth]
    split <;> simp [*]
  have hid : a.predicate.kind = .armCondition → a.predicate.predicateId = e.readField.setWidth 32 := by
    intro h
    rw [hpred, conditionPredicate_setWidth, if_pos (hkind.1 h)]
  constructor
  · rw [hkind, BranchEncoding.DependsOnFlags, hfield]
    simp
  · intro h
    rw [hid h, hfield, Option.map_some]
  · intro mnemonic text htext
    obtain ⟨c, hc, hlt, name, hname, htext⟩ := printed_of_condition hat hdecoded hbytes htext
    obtain rfl : e.readField = c := Option.some.inj (hfield.symm.trans hc)
    exact ⟨hkind.2 hlt, name, by rw [hid (hkind.2 hlt), hname], htext⟩
  · intro htaken c hc x y
    obtain rfl : e.readField = c := Option.some.inj (hfield.symm.trans hc)
    obtain ⟨hcmp, hcbz, hcbnz⟩ := DecodedAs.mnemonic_ne hdecoded (by simp [hfield])
    rw [values_takenRelation hinst hcmp hcbz hcbnz hva] at htaken ⊢
    split at htaken
    · rename_i hcond
      rw [if_pos hcond]
      rw [hid hcond.2] at htaken ⊢
      exact Arm.takenRelation_holds _ htaken x y
    · exact absurd rfl htaken

theorem readField_lt_of_thumb (hat : e.At .armThumb code)
    (he : (∃ h1 h2, e = .wide h1 h2) ∨ ∃ h, e = .compareZero h) : e.readField.toNat < 14 := by
  have hzero : ∀ c : BitVec 4, c.getLsbD 3 = false ∨ c.getLsbD 2 = false → c.toNat < 14 := by decide
  apply hzero
  rcases he with ⟨h1, h2, rfl⟩ | ⟨h, rfl⟩
  · left
    obtain ⟨-, -, -, hf, -, -⟩ := hat
    have hbit := congrArg (BitVec.getLsbD · 11) hf
    simpa [BranchEncoding.readField] using hbit
  · right
    obtain ⟨-, -, hb⟩ := hat
    have hbit := congrArg (BitVec.getLsbD · 10) hb
    simpa [BranchEncoding.readField] using hbit

end

/-! ## What the decoder makes of it -/

namespace BranchEncoding

/-- The encodings that the generated tables decode. The decoder knows the others by hand. -/
def ByTables : BranchEncoding → Prop
  | a32 _ => False
  | narrow _ => False
  | wide _ _ => True
  | compareZero _ => True

end BranchEncoding

section

variable {tables : Tables} {engine : Engine} {code : List Byte} {address : BitVec 64}
  {prior inst : Inst} {e : BranchEncoding}

theorem decodedAs_mark {inst0 : Inst} (h : e.DecodedAs inst0) :
    e.DecodedAs (applyOperandMetadata tables (Arm.markBlxTarget (Arm.markStateSwitch inst0))) := by
  obtain ⟨flags, operands, hmark⟩ := Arm.mark_eq inst0
  rw [hmark]
  cases e with
  | a32 w => exact h
  | narrow h => exact h
  | wide h1 h2 => exact h
  | compareZero h => exact h

theorem decodedAs_a32 {w : BitVec 32} (hat : BranchEncoding.At (.a32 w) .armA32 code)
    (h : Arm.decodeA32 tables.arm engine code address = .ok inst) :
    BranchEncoding.DecodedAs (.a32 w) inst := by
  obtain ⟨-, rfl, hbranch⟩ := hat
  unfold Arm.decodeA32 at h
  split at h
  · cases h
  · rw [if_pos hbranch] at h
    cases h
    refine ⟨rfl, ?_⟩
    simp only [Arm.decodeA32Branch, Arm.finish]
    split
    · exact .inr ⟨rfl, rfl⟩
    · exact .inl ⟨rfl, rfl⟩

theorem decodedAs_narrow {w : BitVec 16} (hat : BranchEncoding.At (.narrow w) .armThumb code)
    (h : Arm.decodeThumb tables.arm engine code address = .ok inst) :
    BranchEncoding.DecodedAs (.narrow w) inst := by
  obtain ⟨-, rfl, hd, hcond⟩ := hat
  have hlt : ∀ c : BitVec 4, c.toNat < 14 → c.setWidth 16 < 0x0e#16 := by decide
  have hcond' : (load16le code >>> 8) &&& 0x0f < 0x0e := by
    rw [nibble_eq]
    exact hlt _ hcond
  have hit : load16le code &&& 0xff00 ≠ 0xbf00 := BitPattern.and_ne_of_disjoint hd (by decide)
  have hb : load16le code &&& 0xf800 ≠ 0xe000 := BitPattern.and_ne_of_disjoint hd (by decide)
  unfold Arm.decodeThumb at h
  split at h
  · cases h
  · rw [if_neg (fun h => hit h.1), if_neg hb, if_pos ⟨hd, hcond'⟩] at h
    cases h
    exact ⟨rfl, rfl, rfl⟩

theorem decodedAs_of_decodeOne (harch : engine.target.arch = .arm)
    (hdec : decodeOne tables engine code address prior = .ok inst)
    (hat : e.At engine.config.mode code) (htables : e.ByTables → e.DecodedAs inst) :
    e.DecodedAs inst := by
  obtain ⟨inst0, harm, rfl⟩ := decodeOne_arm harch hdec
  obtain ⟨inst1, hgen, rfl⟩ := Arm.decodeOne_eq_ok harm
  unfold Arm.genDecodeOne at hgen
  cases e with
  | a32 w =>
    rw [hat.1] at hgen
    exact decodedAs_mark (decodedAs_a32 ⟨rfl, hat.2⟩ hgen)
  | narrow w =>
    rw [hat.1] at hgen
    exact decodedAs_mark (decodedAs_narrow ⟨rfl, hat.2⟩ hgen)
  | wide h1 h2 => exact htables trivial
  | compareZero h => exact htables trivial

/-- With no IT block active, `asmkit_analyze_inst_with_state` and `asmkit_analyze_inst_values` keep
the condition of every branch that has its field where the narrow one has it. `cbz` and `cbnz` are
given one they do not have. -/
theorem analyzeInstWithState_conditionSound_iff {state : Option DecodeState} {a : ControlAnalysis}
    {va : ValueAnalysis} (harch : engine.target.arch = .arm)
    (hdec : decodeOne tables engine code address prior = .ok inst)
    (hat : e.At engine.config.mode code) (htables : e.ByTables → e.DecodedAs inst)
    (hidle : (currentState inst state).isa.kind = .armIt →
      (currentState inst state).isa.armItstate = 0)
    (ha : analyzeInstWithState engine inst state = .ok a)
    (hva : analyzeInstValues engine inst a = .ok va) : ConditionSound e inst a va ↔ e.FieldFound := by
  have hdecoded := decodedAs_of_decodeOne harch hdec hat htables
  have hcode := decodeOne_arm_fromCode harch hdec
  obtain ⟨-, -, hpred, -⟩ := analyzeInstWithState_arm harch hcode.arch ha
  rw [← hcode.mode] at hat
  rw [armApplyPredicate_branch hat hdecoded hcode.bytes hidle] at hpred
  constructor
  · intro hsound
    cases e with
    | a32 w => trivial
    | narrow h => trivial
    | wide h1 h2 =>
      rw [hat.1] at hat
      have hread := readField_lt_of_thumb hat (.inl ⟨h1, h2, rfl⟩)
      have hkind : a.predicate.kind = .armCondition := hsound.depends.2 ⟨_, rfl, hat.2.2.2.2.2⟩
      have hfield := hsound.field hkind
      rw [hpred, conditionPredicate_setWidth, if_pos hread] at hfield
      have hinj : ∀ c d : BitVec 4, c.setWidth 32 = d.setWidth 32 → d = c := by decide
      exact hinj _ _ (Option.some.inj hfield)
    | compareZero h =>
      rw [hat.1] at hat
      have hread := readField_lt_of_thumb hat (.inr ⟨h, rfl⟩)
      rw [conditionPredicate_setWidth, if_pos hread] at hpred
      obtain ⟨c, hc, -⟩ := hsound.depends.1 (by rw [hpred])
      cases hc
  · intro hfound
    have hfield : e.condition = some e.readField := by
      cases e with
      | a32 w => rfl
      | narrow h => rfl
      | wide h1 h2 => exact congrArg some (Eq.symm hfound)
      | compareZero h => exact hfound.elim
    exact conditionSound_of_field hcode.arch hat hdecoded hcode.bytes hfield hpred hva

end

/-- `bne` of A32. -/
theorem analyzeInstWithState_conditionSound_bne : ∃ inst a va,
    decodeOne noTables armEngineA32 [0xfe, 0xff, 0xff, 0x1a] 0x1000 armEngineA32.emptyInst = .ok inst ∧
    analyzeInstWithState armEngineA32 inst none = .ok a ∧
    analyzeInstValues armEngineA32 inst a = .ok va ∧
    ConditionSound (.a32 0x1afffffe) inst a va := by
  refine ⟨_, _, _, rfl, rfl, rfl, ?_⟩
  exact (@analyzeInstWithState_conditionSound_iff noTables armEngineA32 [0xfe, 0xff, 0xff, 0x1a]
    0x1000 armEngineA32.emptyInst _ (.a32 0x1afffffe) none _ _ rfl rfl ⟨rfl, rfl, by decide⟩ nofun
    nofun rfl rfl).2 trivial

/-- The tables with the row of `b<cond>.w`. -/
def wideBranchTables : Tables :=
  let record : Arm.Record :=
    { id := 68502, mnemonicId := Arm.Mnemonic.b, mask := 0xf800d000, value := 0xf0008000, size := 4
      fixedBits := 8, priority := 0, decodeSpace := .default, instClass := .condBranch
      flags := InstFlag.direct ||| InstFlag.terminator ||| InstFlag.conditional |||
        InstFlag.pcRelative }
  { noTables with
    arm := { noTables.arm with
      thumbCandidates := fun size _ => if size = 4 then [(0, record)] else []
      decodeTdOperands := fun _ _ address => some [Arm.pcOperand 0 4 (address + 4) 21] } }

/-- `bne.w` with no displacement is analysed as if its condition were EQ. -/
theorem analyzeInstWithState_not_conditionSound : ∃ inst a va,
    decodeOne wideBranchTables armEngineThumb [0x40, 0xf0, 0x00, 0x80] 0x1000
      armEngineThumb.emptyInst = .ok inst ∧
    BranchEncoding.DecodedAs (.wide 0xf040 0x8000) inst ∧
    BranchEncoding.At (.wide 0xf040 0x8000) .armThumb [0x40, 0xf0, 0x00, 0x80] ∧
    analyzeInstWithState armEngineThumb inst none = .ok a ∧
    analyzeInstValues armEngineThumb inst a = .ok va ∧
    a.predicate.predicateId = 0 ∧ ¬ ConditionSound (.wide 0xf040 0x8000) inst a va := by
  refine ⟨_, _, _, rfl, ⟨rfl, rfl, rfl⟩, ⟨rfl, rfl, rfl, rfl, rfl, by decide⟩, rfl, rfl, rfl, ?_⟩
  intro hsound
  have hfield := hsound.field rfl
  revert hfield
  decide

end AsmKit
