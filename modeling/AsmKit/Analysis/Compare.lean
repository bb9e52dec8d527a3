import AsmKit.Analysis.Relations
import AsmKit.Decode.Block
import AsmKit.Lib.Places

/-!
# Comparisons of x86

The pair of values that `cmp`, `test` and `sub` are reported with, against the conditional jumps
behind them.
-/

namespace AsmKit

open Places Subtract Isa.X86

/-! ## Relations for all values -/

/-- Where a relation goes one way for every left side. -/
def CompareRelation.extreme {w : Nat} : CompareRelation → Option (BitVec w)
  | .ult | .uge => some 0
  | .ugt | .ule => some (BitVec.allOnes w)
  | .slt | .sge => some (BitVec.intMin w)
  | .sgt | .sle => some (BitVec.intMax w)
  | _ => Option.none

section

variable {w : Nat} {L : Type*} {a b : L} {c : Term L (BitVec w)}

theorem toNat_le_allOnes (v : BitVec w) : v.toNat ≤ (BitVec.allOnes w).toNat := by
  rw [BitVec.toNat_allOnes]
  exact Nat.le_sub_one_of_lt v.isLt

theorem toNat_zero_lt (hw : 2 ≤ w) : (0 : BitVec w).toNat < (BitVec.allOnes w).toNat := by
  have hpow : 2 ^ 1 < 2 ^ w := Nat.pow_lt_pow_right (by decide) (by omega)
  rw [BitVec.toNat_allOnes]
  simp
  omega

theorem toInt_intMin_lt (hw : 2 ≤ w) : (BitVec.intMin w).toInt < (BitVec.intMax w).toInt := by
  have hpow : (0 : Int) < 2 ^ (w - 1) := by positivity
  rw [BitVec.toInt_intMin_of_pos (by omega), BitVec.toInt_intMax]
  omega

theorem toInt_le_intMax (v : BitVec w) : v.toInt ≤ (BitVec.intMax w).toInt := by
  rw [BitVec.toInt_intMax]
  exact BitVec.toInt_le

theorem lt_dual_iff {K : Type*} [LinearOrder K] {key : BitVec w → K}
    (hinj : Function.Injective key) {bot top : BitVec w} (hbot : ∀ v, key bot ≤ key v)
    (htop : ∀ v, key v ≤ key top) (hne : key bot < key top) :
    (∀ env : L → BitVec w, key (env b) < key (env a) ↔ key (c.eval env) < key (env b)) ↔
      a = b ∧ (c = .place b ∨ c = .const top) :=
  @forall_lt_iff L (BitVec w) Kᵒᵈ a b c _ (fun v => OrderDual.toDual (key v))
    (fun _ _ h => hinj h) top bot htop hbot hne

/-- A relation of the first two values is that of the last two for all values: the places are one,
or the third makes the relation constant, or the relation is symmetric and the outer two are one. -/
theorem forall_holds_rotate_iff (hw : 2 ≤ w) {relation : CompareRelation} (hnone : relation ≠ .none)
    (hclear : relation ≠ .bitClear) (hset : relation ≠ .bitSet) :
    (∀ env : L → BitVec w,
      relation.holds (env a) (env b) = relation.holds (env b) (c.eval env)) ↔
      ((relation = .eq ∨ relation = .ne) ∧ c = .place a) ∨
        (a = b ∧ (c = .place b ∨ ∃ k, relation.extreme = some k ∧ c = .const k)) := by
  have hnontrivial : Nontrivial (BitVec w) :=
    ⟨⟨0, BitVec.allOnes w, fun h => absurd (congrArg BitVec.toNat h) (Nat.ne_of_lt (toNat_zero_lt hw))⟩⟩
  have heq : (∀ env : L → BitVec w, (env a == env b) = (env b == c.eval env)) ↔
      c = .place a ∨ a = b ∧ c = .place b := by
    simp only [beq_eq_decide, decide_eq_decide]
    rw [forall_eq_iff]
    constructor
    · exact .inl
    · rintro (h | ⟨rfl, h⟩) <;> exact h
  have hult : (∀ env : L → BitVec w, (env a).ult (env b) = (env b).ult (c.eval env)) ↔
      a = b ∧ (c = .place b ∨ c = .const 0) := by
    simp only [BitVec.ult_eq_decide, decide_eq_decide]
    exact forall_lt_iff (fun _ _ h => BitVec.eq_of_toNat_eq h) (fun v => by simp) toNat_le_allOnes
      (toNat_zero_lt hw)
  have hugt : (∀ env : L → BitVec w, (env b).ult (env a) = (c.eval env).ult (env b)) ↔
      a = b ∧ (c = .place b ∨ c = .const (BitVec.allOnes w)) := by
    simp only [BitVec.ult_eq_decide, decide_eq_decide]
    exact lt_dual_iff (fun _ _ h => BitVec.eq_of_toNat_eq h) (fun v => by simp) toNat_le_allOnes
      (toNat_zero_lt hw)
  have hslt : (∀ env : L → BitVec w, (env a).slt (env b) = (env b).slt (c.eval env)) ↔
      a = b ∧ (c = .place b ∨ c = .const (BitVec.intMin w)) := by
    simp only [BitVec.slt_eq_decide, decide_eq_decide]
    exact forall_lt_iff (fun _ _ h => BitVec.toInt_inj.1 h) BitVec.toInt_intMin_le toInt_le_intMax
      (toInt_intMin_lt hw)
  have hsgt : (∀ env : L → BitVec w, (env b).slt (env a) = (c.eval env).slt (env b)) ↔
      a = b ∧ (c = .place b ∨ c = .const (BitVec.intMax w)) := by
    simp only [BitVec.slt_eq_decide, decide_eq_decide]
    exact lt_dual_iff (fun _ _ h => BitVec.toInt_inj.1 h) BitVec.toInt_intMin_le toInt_le_intMax
      (toInt_intMin_lt hw)
  cases relation with
  | none => exact absurd rfl hnone
  | bitClear => exact absurd rfl hclear
  | bitSet => exact absurd rfl hset
  | eq => simpa [CompareRelation.holds, CompareRelation.extreme] using heq
  | ne => simpa [CompareRelation.holds, CompareRelation.extreme, bne] using heq
  | ult => simpa [CompareRelation.holds, CompareRelation.extreme] using hult
  | uge => simpa [holds_uge, CompareRelation.extreme] using hult
  | ugt => simpa [CompareRelation.holds, CompareRelation.extreme] using hugt
  | ule => simpa [CompareRelation.holds, BitVec.ule_eq_not_ult, CompareRelation.extreme] using hugt
  | slt => simpa [CompareRelation.holds, CompareRelation.extreme] using hslt
  | sge => simpa [holds_sge, CompareRelation.extreme] using hslt
  | sgt => simpa [CompareRelation.holds, CompareRelation.extreme] using hsgt
  | sle => simpa [CompareRelation.holds, BitVec.sle_eq_not_slt, CompareRelation.extreme] using hsgt

theorem exists_eval_eq (hw : 2 ≤ w) (c : Term L (BitVec w)) :
    c = .const 0 ∨ ∃ v : BitVec w, v ≠ 0 ∧ c.eval (fun _ => v) = v := by
  cases c with
  | place l => exact .inr ⟨1, by simp; omega, rfl⟩
  | const v =>
    by_cases hv : v = 0
    · exact .inl (by rw [hv])
    · exact .inr ⟨v, hv, rfl⟩

theorem one_ne (hw : 2 ≤ w) : (1 : BitVec w) ≠ 0 := by
  simp
  omega

theorem eq_and_zero_false (hw : 2 ≤ w) :
    ¬ ∀ env : L → BitVec w, (env a == c.eval env) = (env a &&& c.eval env == 0) := by
  intro h
  rcases exists_eval_eq hw c with rfl | ⟨v, hv, hc⟩
  · have hone : (1#w == 0#w) = (1#w &&& 0#w == 0#w) := h fun _ => 1#w
    rw [BitVec.and_zero, beq_self_eq_true, beq_iff_eq] at hone
    exact one_ne hw hone
  · have hv' := h fun _ => v
    rw [hc, beq_self_eq_true, BitVec.and_self] at hv'
    exact hv (beq_iff_eq.1 hv'.symm)

theorem ule_and_zero_false (hw : 2 ≤ w) :
    ¬ ∀ env : L → BitVec w, (env a).ule (c.eval env) = (env a &&& c.eval env == 0) := by
  intro h
  rcases exists_eval_eq hw c with rfl | ⟨v, hv, hc⟩
  · have hone : (1#w).ule 0#w = (1#w &&& 0#w == 0#w) := h fun _ => 1#w
    rw [BitVec.and_zero, beq_self_eq_true, BitVec.ule_iff_le, BitVec.le_zero_iff] at hone
    exact one_ne hw hone
  · have hv' := h fun _ => v
    rw [hc, BitVec.and_self, BitVec.ule_iff_le.2 (BitVec.le_refl v)] at hv'
    exact hv (beq_iff_eq.1 hv'.symm)

theorem slt_and_msb_false (hw : 2 ≤ w) :
    ¬ ∀ env : L → BitVec w, (env a).slt (c.eval env) = (env a &&& c.eval env).msb := by
  intro h
  have hself : ∀ v : BitVec w, v.msb = true → c.eval (fun _ => v) ≠ v := by
    intro v hv hc
    have hv' := h fun _ => v
    rw [hc, BitVec.and_self, hv, BitVec.slt_iff_toInt_lt] at hv'
    exact absurd hv' (lt_irrefl _)
  have hmin : (BitVec.intMin w).msb = true := by simp [BitVec.msb_intMin]; omega
  cases c with
  | place l => exact hself _ hmin rfl
  | const v =>
    by_cases hv : v.msb = true
    · exact hself v hv rfl
    · have hlt : (BitVec.intMin w).slt v = true := by
        rw [BitVec.msb_eq_toInt, decide_eq_true_eq] at hmin hv
        rw [BitVec.slt_iff_toInt_lt]
        omega
      have hsmall : (BitVec.intMin w).slt v = (BitVec.intMin w &&& v).msb := h fun _ => BitVec.intMin w
      rw [hlt, BitVec.msb_and, hmin, Bool.true_and] at hsmall
      exact hv hsmall.symm

theorem sle_and_sign_false (hw : 2 ≤ w) :
    ¬ ∀ env : L → BitVec w, (env a).sle (c.eval env) =
      (env a &&& c.eval env == 0 || (env a &&& c.eval env).msb) := by
  intro h
  have hself : ∀ v : BitVec w, v ≠ 0 → v.msb = false → c.eval (fun _ => v) ≠ v := by
    intro v hzero hv hc
    have hv' := h fun _ => v
    rw [hc, BitVec.and_self, hv, Bool.or_false, BitVec.sle_iff_toInt_le.2 (le_refl _)] at hv'
    exact hzero (beq_iff_eq.1 hv'.symm)
  have hone : (1 : BitVec w).msb = false := by simp; omega
  cases c with
  | place l => exact hself _ (one_ne hw) hone rfl
  | const v =>
    by_cases hzero : v = 0
    · subst hzero
      have hle : (1#w).sle 0#w = (1#w &&& 0#w == 0#w || (1#w &&& 0#w).msb) := h fun _ => 1#w
      rw [BitVec.and_zero, beq_self_eq_true, Bool.true_or, BitVec.sle_iff_toInt_le,
        BitVec.toInt_one (by omega), BitVec.toInt_zero] at hle
      omega
    · cases hv : v.msb with
      | false => exact hself v hzero hv rfl
      | true =>
        have hle : (0#w).sle v = (0#w &&& v == 0#w || (0#w &&& v).msb) := h fun _ => 0#w
        rw [BitVec.zero_and, beq_self_eq_true, Bool.true_or, BitVec.sle_iff_toInt_le,
          BitVec.toInt_zero] at hle
        rw [BitVec.msb_eq_toInt, decide_eq_true_eq] at hv
        omega

theorem ult_false_iff (hw : 2 ≤ w) :
    (∀ env : L → BitVec w, (env a).ult (c.eval env) = false) ↔ c = .place a ∨ c = .const 0 := by
  classical
  have hzero : ∀ v : BitVec w, (0 : BitVec w).ult v = false → v = 0 := by
    intro v hv
    simpa [BitVec.ult_eq_decide, BitVec.toNat_eq] using hv
  constructor
  · intro h
    cases c with
    | place l =>
      left
      by_contra hl
      have hla : l ≠ a := by simpa using hl
      have henv := h fun m => if m = a then 0 else 1
      simp only [Term.eval_place, if_true, if_neg hla] at henv
      exact one_ne hw (hzero 1 henv)
    | const v => exact .inr (congrArg _ (hzero v (h fun _ => 0)))
  · rintro (rfl | rfl) env
    · simp [BitVec.ult_eq_decide]
    · simp [BitVec.ult_eq_decide]

/-- A relation of two values is what a jump finds in their conjunction for all values only where the
carry decides: never below, because the values are one or the second is zero. -/
theorem forall_holds_and_iff (hw : 2 ≤ w) {relation : CompareRelation} (hnone : relation ≠ .none)
    (hclear : relation ≠ .bitClear) (hset : relation ≠ .bitSet) :
    (∀ env : L → BitVec w, relation.holds (env a) (c.eval env) =
      X86.flagsTest relation (Flags.ofAnd (env a) (c.eval env))) ↔
      (relation = .ult ∨ relation = .uge) ∧ (c = .place a ∨ c = .const 0) := by
  cases relation with
  | none => exact absurd rfl hnone
  | bitClear => exact absurd rfl hclear
  | bitSet => exact absurd rfl hset
  | eq => simpa [CompareRelation.holds, X86.flagsTest, Flags.ofAnd] using eq_and_zero_false hw
  | ne => simpa [CompareRelation.holds, X86.flagsTest, Flags.ofAnd, bne] using eq_and_zero_false hw
  | ult => simpa [CompareRelation.holds, X86.flagsTest, Flags.ofAnd] using ult_false_iff hw
  | uge => simpa [holds_uge, X86.flagsTest, Flags.ofAnd] using ult_false_iff hw
  | ugt => simpa [holds_ugt, ult_or_beq, X86.flagsTest, Flags.ofAnd] using ule_and_zero_false hw
  | ule => simpa [CompareRelation.holds, X86.flagsTest, Flags.ofAnd] using ule_and_zero_false hw
  | slt => simpa [CompareRelation.holds, X86.flagsTest, Flags.ofAnd] using slt_and_msb_false hw
  | sge => simpa [holds_sge, X86.flagsTest, Flags.ofAnd] using slt_and_msb_false hw
  | sgt => simpa [holds_sgt, slt_or_beq, X86.flagsTest, Flags.ofAnd] using sle_and_sign_false hw
  | sle => simpa [CompareRelation.holds, X86.flagsTest, Flags.ofAnd] using sle_and_sign_false hw

end

/-! ## Operands -/

/-- Where an operand keeps its value. -/
inductive Location where
  | reg (id : Nat)
  | mem (operand : MemoryOperand)
deriving DecidableEq, Repr

/-- An operand of `w` bits. A register or a memory operand may hold any value. -/
def Operand.term (w : Nat) (o : Operand) : Term Location (BitVec w) :=
  match o.kind with
  | .reg => .place (.reg o.reg)
  | .mem => .place (.mem o.mem)
  | _ => .const (o.imm.setWidth w)

def Inst.term (inst : Inst) (w i : Nat) : Term Location (BitVec w) :=
  (inst.operands.getD i .empty).term w

def ValueRef.term (inst : Inst) (w : Nat) (ref : ValueRef) : Term Location (BitVec w) :=
  match ref.kind with
  | .operand => inst.term w ref.operandIndex
  | _ => .const (ref.immediate.setWidth w)

namespace X86

/-- The operands of `cmp`, `test` and `sub`: the first is a register or in memory, and so is the
second of three. -/
structure CompareForm (inst : Inst) : Prop where
  width : inst.operand0.width ∈ [8, 16, 32, 64]
  first : (inst.operands.getD 0 .empty).kind = .reg ∨ (inst.operands.getD 0 .empty).kind = .mem
  second : 3 ≤ inst.operands.length →
    (inst.operands.getD 1 .empty).kind = .reg ∨ (inst.operands.getD 1 .empty).kind = .mem

/-- The flags behind `cmp`, `test` or `sub`. With three operands the first one is written alone, and
the form without flags leaves them as they are. -/
def flagsAfter (inst : Inst) {w : Nat} (env : Location → BitVec w) (f : Flags) : Flags :=
  let value i := (inst.term w i).eval env
  if hasFlag inst.attributes Attr.x86Nf then f
  else if inst.mnemonicId = Mnemonic.test then .ofAnd (value 0) (value 1)
  else if inst.mnemonicId = Mnemonic.sub ∧ 3 ≤ inst.operands.length then .ofSub (value 1) (value 2)
  else .ofSub (value 0) (value 1)

/-- The relation of the pair is whether a jump with the opcode is taken behind the instruction, for
all values and flags before it. -/
def PairSound (inst : Inst) (condition : ConditionInfo) (relation : CompareRelation)
    (opcode : Byte) : Prop :=
  let w := inst.operand0.width
  ∀ (env : Location → BitVec w) (f : Flags),
    relation.holds ((condition.left.term inst w).eval env) ((condition.right.term inst w).eval env) =
      (flagsAfter inst env f).holds (opcode.setWidth 4)

/-- The flags are those of the difference of the first two operands, or it makes no difference. -/
def PairDecides (inst : Inst) (relation : CompareRelation) : Prop :=
  let t := inst.term inst.operand0.width
  ¬ hasFlag inst.attributes Attr.x86Nf ∧
    (inst.mnemonicId = Mnemonic.cmp ∨
      (inst.mnemonicId = Mnemonic.sub ∧ inst.operands.length = 2) ∨
      (inst.mnemonicId = Mnemonic.test ∧ (relation = .ult ∨ relation = .uge) ∧
        (t 1 = t 0 ∨ t 1 = .const 0)) ∨
      (inst.mnemonicId = Mnemonic.sub ∧ 3 ≤ inst.operands.length ∧
        (((relation = .eq ∨ relation = .ne) ∧ t 2 = t 0) ∨
          (t 0 = t 1 ∧ (t 2 = t 1 ∨ ∃ k, relation.extreme = some k ∧ t 2 = .const k)))))

end X86

theorem Operand.term_place {o : Operand} (h : o.kind = .reg ∨ o.kind = .mem) (w : Nat) :
    ∃ l, o.term w = .place l := by
  unfold Operand.term
  rcases h with h | h
  · exact ⟨_, by rw [h]⟩
  · exact ⟨_, by rw [h]⟩

/-! ## What the analysis reports -/

section

variable {engine : Engine} {inst : Inst} {control : ControlAnalysis} {va : ValueAnalysis}

theorem analyzeInstValues_x86 (harch : inst.arch = .x86)
    (h : analyzeInstValues engine inst control = .ok va) :
    ∃ va0 : ValueAnalysis, va0.condition = {} ∧
      va = X86.useCondition inst (X86.defineCondition inst va0) := by
  unfold analyzeInstValues at h
  split at h
  · cases h
  · simp only [harch] at h
    cases h
    refine ⟨_, ?_, rfl⟩
    rw [X86.valueEffects_condition]
    split
    · rw [emitMemoryEffect_condition]
    · rfl

theorem useCondition_condition (inst : Inst) (va : ValueAnalysis) :
    (X86.useCondition inst va).condition.takenRelation = X86.takenRelation inst.mnemonicId ∧
      (X86.useCondition inst va).condition.definesCondition = va.condition.definesCondition ∧
      (X86.useCondition inst va).condition.left = va.condition.left ∧
      (X86.useCondition inst va).condition.right = va.condition.right := by
  simp only [X86.useCondition]
  split
  · exact ⟨rfl, rfl, rfl, rfl⟩
  · exact ⟨rfl, rfl, rfl, rfl⟩

theorem condition_pair (harch : inst.arch = .x86)
    (h : analyzeInstValues engine inst control = .ok va)
    (hdefines : va.condition.definesCondition = true) (hleft : va.condition.left.kind ≠ .none) :
    X86.isCompare inst.mnemonicId = true ∧ 2 ≤ inst.operands.length ∧
      va.condition.left = valueOperand inst (some 0) ∧
      va.condition.right = valueOperand inst (some 1) := by
  obtain ⟨va0, hva0, rfl⟩ := analyzeInstValues_x86 harch h
  obtain ⟨-, hdef, hl, hr⟩ := useCondition_condition inst (X86.defineCondition inst va0)
  rw [hdef] at hdefines
  rw [hl] at hleft ⊢
  rw [hr]
  unfold X86.defineCondition at hdefines hleft ⊢
  by_cases hcompare : X86.isCompare inst.mnemonicId = true
  · rw [if_pos hcompare] at hdefines ⊢
    by_cases hlen : inst.operands.length < 2
    · simp [emitCompare, hlen, hva0] at hdefines
    · exact ⟨hcompare, by omega, by simp [emitCompare, hlen], by simp [emitCompare, hlen]⟩
  · rw [if_neg hcompare] at hleft
    split at hleft <;> simp [hva0] at hleft

theorem term_valueOperand {i : Nat} (hi : i < inst.operands.length) (w : Nat) :
    (valueOperand inst (some i)).term inst w = inst.term w i := by
  simp [valueOperand, ValueRef.term, List.getElem?_eq_getElem hi]

theorem takenRelation_eq (harch : inst.arch = .x86)
    (h : analyzeInstValues engine inst control = .ok va) :
    va.condition.takenRelation = X86.takenRelation inst.mnemonicId := by
  obtain ⟨va0, -, rfl⟩ := analyzeInstValues_x86 harch h
  exact (useCondition_condition inst _).1

end

theorem X86.takenRelation_ne (opcode : Byte) :
    X86.takenRelation (X86.jccMnemonicId opcode) ≠ .bitClear ∧
      X86.takenRelation (X86.jccMnemonicId opcode) ≠ .bitSet := by
  revert opcode
  decide

theorem X86.exists_flagsTest_ne {relation : CompareRelation} (hnone : relation ≠ .none)
    (hclear : relation ≠ .bitClear) (hset : relation ≠ .bitSet) (b : Bool) :
    ∃ f, X86.flagsTest relation f ≠ b := by
  have hall : X86.flagsTest relation ⟨false, false, false, false, false⟩ ≠
      X86.flagsTest relation ⟨true, true, true, true, false⟩ := by
    cases relation with
    | none => exact absurd rfl hnone
    | bitClear => exact absurd rfl hclear
    | bitSet => exact absurd rfl hset
    | _ => exact nofun
  by_contra hno
  rw [not_exists] at hno
  exact hall ((not_ne_iff.1 (hno _)).trans (not_ne_iff.1 (hno _)).symm)

/-- Behind the instruction, a jump with the relation of the flags goes where the pair says, just
when the flags are those of the pair or it makes no difference. -/
theorem flagsTest_flagsAfter_iff {inst : Inst} {relation : CompareRelation}
    (hform : X86.CompareForm inst) (hcompare : X86.isCompare inst.mnemonicId = true)
    (hlength : 2 ≤ inst.operands.length) (hnone : relation ≠ .none) (hclear : relation ≠ .bitClear)
    (hset : relation ≠ .bitSet) :
    (∀ (env : Location → BitVec inst.operand0.width) (f : Flags),
      relation.holds ((inst.term _ 0).eval env) ((inst.term _ 1).eval env) =
        X86.flagsTest relation (X86.flagsAfter inst env f)) ↔ X86.PairDecides inst relation := by
  have hw : 2 ≤ inst.operand0.width := by
    have hwidth := hform.width
    simp only [List.mem_cons, List.not_mem_nil, or_false] at hwidth
    omega
  obtain ⟨a, ha⟩ := Operand.term_place hform.first inst.operand0.width
  have ha0 : inst.term inst.operand0.width 0 = .place a := ha
  have hmnemonic : inst.mnemonicId = X86.Mnemonic.cmp ∨ inst.mnemonicId = X86.Mnemonic.test ∨
      inst.mnemonicId = X86.Mnemonic.sub := by
    simpa [X86.isCompare, or_assoc] using hcompare
  have hdrop : ∀ P : (Location → BitVec inst.operand0.width) → Prop,
      (∀ env (_ : Flags), P env) ↔ ∀ env, P env :=
    fun P => ⟨fun h env => h env ⟨false, false, false, false, false⟩, fun h env _ => h env⟩
  simp only [X86.PairDecides]
  by_cases hnf : hasFlag inst.attributes Attr.x86Nf = true
  · simp only [X86.flagsAfter, hnf, if_true, not_true, false_and, iff_false]
    intro h
    obtain ⟨f, hf⟩ := X86.exists_flagsTest_ne hnone hclear hset
      (relation.holds ((inst.term inst.operand0.width 0).eval fun _ => 0)
        ((inst.term inst.operand0.width 1).eval fun _ => 0))
    exact hf (h (fun _ => 0) f).symm
  rcases hmnemonic with hm | hm | hm
  · have hsub : ¬ (inst.mnemonicId = X86.Mnemonic.sub ∧ 3 ≤ inst.operands.length) := by
      rintro ⟨hm', -⟩
      exact absurd (hm.symm.trans hm') (by decide)
    refine iff_of_true (fun env f => ?_) ⟨hnf, .inl hm⟩
    rw [X86.flagsAfter, if_neg hnf, if_neg (by rw [hm]; decide), if_neg hsub]
    exact (X86.flagsTest_ofSub _ _ hclear hset).symm
  · have hcmp : X86.Mnemonic.test ≠ X86.Mnemonic.cmp := by decide
    have hsub : X86.Mnemonic.test ≠ X86.Mnemonic.sub := by decide
    simp only [X86.flagsAfter, hnf, hm, Bool.false_eq_true, if_true, if_false, ha0, Term.eval_place]
    rw [hdrop, forall_holds_and_iff hw hnone hclear hset]
    simp [hcmp, hsub]
  · have hcmp : X86.Mnemonic.sub ≠ X86.Mnemonic.cmp := by decide
    have htest : X86.Mnemonic.sub ≠ X86.Mnemonic.test := by decide
    by_cases h3 : 3 ≤ inst.operands.length
    · obtain ⟨b, hb⟩ := Operand.term_place (hform.second h3) inst.operand0.width
      have hb1 : inst.term inst.operand0.width 1 = .place b := hb
      have hlen : inst.operands.length ≠ 2 := by omega
      simp only [X86.flagsAfter, hnf, hm, htest, h3, Bool.false_eq_true, if_true, if_false, and_self,
        ha0, hb1, Term.eval_place, X86.flagsTest_ofSub _ _ hclear hset]
      rw [hdrop, forall_holds_rotate_iff hw hnone hclear hset]
      simp [hcmp, hlen]
    · refine iff_of_true (fun env f => ?_) ⟨hnf, .inr (.inl ⟨hm, by omega⟩)⟩
      rw [X86.flagsAfter, if_neg hnf, if_neg (by rw [hm]; exact htest), if_neg (fun h => h3 h.2)]
      exact (X86.flagsTest_ofSub _ _ hclear hset).symm

/-- `cmp eax, 5`, made by hand. -/
def cmpEax5 : Inst :=
  { arch := .x86, mode := .x86_64, mnemonicId := X86.Mnemonic.cmp
    operands := [Operand.ofReg 69 32, (Operand.ofImm 5 32).atIndex 1] }

/-- `test eax, ecx`, made by hand. -/
def testEaxEcx : Inst :=
  { arch := .x86, mode := .x86_64, mnemonicId := X86.Mnemonic.test
    operands := [Operand.ofReg 69 32, (Operand.ofReg 71 32).atIndex 1] }

/-- A conditional jump, made by hand. -/
def jccInst (opcode : Byte) : Inst :=
  { arch := .x86, mode := .x86_64, mnemonicId := X86.jccMnemonicId opcode }

end AsmKit
