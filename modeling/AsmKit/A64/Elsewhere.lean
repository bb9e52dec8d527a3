import AsmKit.A64.RelocatePcRel
import AsmKit.Isa.A64Words

/-!
# A word at another address

Where a word stands decides the targets of its operands and nothing else: whether it is decoded, and
as what, is the same everywhere.
-/

namespace AsmKit.A64

open SignedField
open Isa.A64 (OffsetKind)

/-! ## Decoding at another address -/

/-- The same instruction, but for the address and the operands. -/
structure SameForm (inst inst' : Inst) : Prop where
  instClass : inst'.instClass = inst.instClass
  flags : inst'.flags = inst.flags
  size : inst'.size = inst.size
  bytes : inst'.bytes = inst.bytes

theorem foldlM_isSome {α β : Type} {step step' : β → α → Option β}
    (h : ∀ b b' a, (step b a).isSome = (step' b' a).isSome) (as : List α) (b b' : β) :
    (as.foldlM step b).isSome = (as.foldlM step' b').isSome := by
  induction as generalizing b b' with
  | nil => rfl
  | cons a as ih =>
    have hfirst := h b b' a
    rw [List.foldlM_cons, List.foldlM_cons]
    cases hstep : step b a with
    | none =>
      rw [hstep] at hfirst
      rw [Option.not_isSome_iff_eq_none.1 (ne_true_of_eq_false hfirst.symm)]
      rfl
    | some c =>
      rw [hstep] at hfirst
      obtain ⟨c', hstep'⟩ := Option.isSome_iff_exists.1 hfirst.symm
      rw [hstep']
      exact ih c c'

theorem decodeTdOperands_isSome (record : Record) (w : BitVec 32) (address address' : BitVec 64) :
    (decodeTdOperands record w address').isSome = (decodeTdOperands record w address).isSome := by
  have hoperand (desc : OperandDesc) :
      (decodeTdOperand record w address' desc).isSome = (decodeTdOperand record w address desc).isSome := by
    unfold decodeTdOperand
    cases desc.kind <;> rfl
  unfold decodeTdOperands
  split
  · rfl
  split
  · rfl
  · refine foldlM_isSome (fun ops ops' desc => ?_) _ _ _
    have hdesc := hoperand desc
    cases h' : decodeTdOperand record w address' desc <;> cases h : decodeTdOperand record w address desc <;>
      simp_all

section

variable {tables : Tables} {engine : Engine} {code code' : List Byte} {address address' : BitVec 64}
  {inst : Inst}

theorem finishTd_elsewhere {record : Record} (hcode : code'.take 4 = code.take 4)
    (h : finishTd tables engine code address record = .ok inst) :
    ∃ inst', finishTd tables engine code' address' record = .ok inst' ∧ SameForm inst inst' := by
  have hload : load32le code' = load32le code := by rw [load32le_eq, load32le_eq, hcode]
  have hsome := decodeTdOperands_isSome record (load32le code) address address'
  simp only [finishTd, hload] at h ⊢
  cases hops : decodeTdOperands record (load32le code) address with
  | none =>
    rw [hops] at h
    cases h
  | some operands =>
    rw [hops] at h hsome
    cases h
    obtain ⟨operands', hops'⟩ := Option.isSome_iff_exists.1 hsome
    rw [hops']
    exact ⟨_, rfl, rfl, rfl, rfl, hcode⟩

theorem SameForm.finish {id : Nat} {instClass : InstClass} {flags : BitVec 32} {operands operands' : List Operand}
    (hcode : code'.take 4 = code.take 4) :
    SameForm (finish engine code address id instClass flags operands)
      (finish engine code' address' id instClass flags operands') :=
  ⟨rfl, rfl, rfl, hcode⟩

theorem SameForm.ite {c : Prop} [Decidable c] {a b a' b' : Inst} (ha : SameForm a a') (hb : SameForm b b') :
    SameForm (if c then a else b) (if c then a' else b') := by
  split
  · exact ha
  · exact hb

theorem decodeFallback_elsewhere (hcode : code'.take 4 = code.take 4) (w : BitVec 32) :
    SameForm (decodeFallback engine code address w) (decodeFallback engine code' address' w) := by
  unfold decodeFallback
  repeat' first | exact SameForm.finish hcode | apply SameForm.ite

theorem decodeOne_elsewhere (address' : BitVec 64) (hcode : code'.take 4 = code.take 4)
    (h : decodeOne tables engine code address = .ok inst) :
    ∃ inst', decodeOne tables engine code' address' = .ok inst' ∧ SameForm inst inst' := by
  have hload : load32le code' = load32le code := by rw [load32le_eq, load32le_eq, hcode]
  have hlength : code'.length < 4 ↔ code.length < 4 := by
    have htake := congrArg List.length hcode
    rw [List.length_take, List.length_take] at htake
    omega
  unfold decodeOne at h ⊢
  simp only [hload, hlength] at h ⊢
  split at h
  · cases h
  next hready =>
  rw [if_neg hready]
  split at h
  · next hbti =>
    rw [if_pos hbti]
    split at h
    · cases h
    next henabled =>
    cases h
    rw [if_neg henabled]
    exact ⟨_, rfl, .finish hcode⟩
  next hbti =>
  rw [if_neg hbti]
  cases hfind : findTdRecord tables engine (load32le code) true with
  | some record =>
    rw [hfind] at h
    exact finishTd_elsewhere hcode h
  | none =>
    rw [hfind] at h
    dsimp only at h ⊢
    split at h
    · cases h
    next hknown =>
    cases h
    rw [if_neg hknown]
    exact ⟨_, rfl, decodeFallback_elsewhere hcode _⟩

end

/-! ## Words with one target -/

section

variable {row : PcRelRow} {w w' : BitVec 32} {address address' relocatedAddress : BitVec 64}
  {inst inst' : Inst} {capacity : Nat}

theorem relocate_jump (hmem : row ∈ pcRelRows) (hw : w &&& row.mask = row.value)
    (h : DecodedAs row w address inst) (hkind : row.kind = .imm26) :
    relocate inst relocatedAddress capacity =
      let isCall := row.instClass == .directCall
      let rel := emitRel isCall relocatedAddress (row.kind.target w address) capacity
      if rel.status = .ok ∨ rel.status = .outputTooSmall then rel
      else emitAbs isCall (row.kind.target w address) capacity := by
  have hjump : (row.kind == .imm26) = true := beq_iff_eq.2 hkind
  rw [relocate, h.findPcRelOperand hmem]
  simp only [h.isUnconditional hmem hw, hjump, if_true, h.isCall hmem]
  rw [operandTarget_eq h (by simp [hkind])]

theorem relocate_field (hmem : row ∈ pcRelRows) (hw : w &&& row.mask = row.value)
    (h : DecodedAs row w address inst) (hkind : row.kind ≠ .imm26) :
    relocate inst relocatedAddress capacity =
      let disp := distance row.kind (row.kind.target w address) relocatedAddress
      if row.kind.InRange disp then emitBytes { size := 4 } (store32le (row.kind.setOffset w disp)) capacity
      else if row.isConditional then expandConditionalAbs inst (row.kind.target w address) capacity
      else { status := .branchOutOfRange } := by
  dsimp only
  split
  · next hrange =>
    have hfield : (row.kind == .imm26) = false := beq_eq_false_iff_ne.2 hkind
    have hin := (range_row hmem hw h hkind _ rfl).not.2 (not_not.2 hrange)
    rw [relocate, h.findPcRelOperand hmem]
    simp only [h.isUnconditional hmem hw, hfield, h.has_pcRelative hmem, relocDisp_row hmem hw h, if_neg hin,
      h.load, patchWord_row hmem hw hkind]
    rfl
  · next hrange => rw [relocate_of_not_inRange hmem hw h hrange, if_neg hkind]

theorem invertConditionalToSkip_congr (hconditional : row.isConditional = true) (hmem : row ∈ pcRelRows)
    (hw : w &&& row.mask = row.value) (hw' : w' &&& row.mask = row.value)
    (hsame : Isa.A64.SameOutside row.kind w w')
    (h : load32le inst.bytes = w) (h' : load32le inst'.bytes = w') :
    invertConditionalToSkip inst' = invertConditionalToSkip inst := by
  have hrow : ∀ row ∈ pcRelRows, row.isConditional = true →
      (wordIsBCond row.value || wordIsCbzCbnz row.value) = (row.kind == .imm19) ∧
        (row.kind = .imm19 ∨ row.kind = .imm14) := by decide
  obtain ⟨hnear, hkind⟩ := hrow row hmem hconditional
  have hxor (h : w' &&& 0x0f = w &&& 0x0f) : (w' ^^^ 1) &&& 0x0f = (w ^^^ 1) &&& 0x0f := by
    apply BitVec.eq_of_getLsbD_eq
    intro i hi
    have hbit := congrArg (BitVec.getLsbD · i) h
    simp only [BitVec.getLsbD_and, BitVec.getLsbD_xor] at hbit ⊢
    revert hbit
    cases w'.getLsbD i <;> cases w.getLsbD i <;> simp +contextual
  unfold invertConditionalToSkip
  simp only [h, h', wordIsBCond_row hmem hw, wordIsBCond_row hmem hw', wordIsCbzCbnz_row hmem hw,
    wordIsCbzCbnz_row hmem hw']
  rcases hkind with hkind | hkind
  · rw [hkind] at hsame
    rw [hsame.and (by decide), hsame.and (by decide), hxor (hsame.and (by decide))]
    have hcb : wordIsBCond row.value = true ∨ wordIsCbzCbnz row.value = true := by
      rwa [hkind, beq_self_eq_true, Bool.or_eq_true] at hnear
    split
    · rfl
    · next hcond => rw [if_pos (hcb.resolve_left hcond), if_pos (hcb.resolve_left hcond)]
  · rw [hkind] at hsame hnear
    obtain ⟨hcond, hcb⟩ := Bool.or_eq_false_iff.1 hnear
    rw [hcond, hcb, if_neg Bool.false_ne_true, if_neg Bool.false_ne_true, if_neg Bool.false_ne_true,
      if_neg Bool.false_ne_true, hsame.and (by decide)]

theorem relocate_congr (hmem : row ∈ pcRelRows) (hw : w &&& row.mask = row.value)
    (hw' : w' &&& row.mask = row.value) (hsame : Isa.A64.SameOutside row.kind w w')
    (htarget : row.kind.target w' address' = row.kind.target w address)
    (h : DecodedAs row w address inst) (h' : DecodedAs row w' address' inst') :
    relocate inst' relocatedAddress capacity = relocate inst relocatedAddress capacity := by
  by_cases hkind : row.kind = .imm26
  · rw [relocate_jump hmem hw h hkind, relocate_jump hmem hw' h' hkind, htarget]
  · rw [relocate_field hmem hw h hkind, relocate_field hmem hw' h' hkind, htarget]
    dsimp only
    split
    · rw [hsame.setOffset]
    split
    · next hconditional =>
      rw [expandConditionalAbs, expandConditionalAbs,
        invertConditionalToSkip_congr hconditional hmem hw hw' hsame h.load h'.load]
    · rfl

/-! ## A word in its own place -/

theorem relocate_self (hmem : row ∈ pcRelRows) (hw : w &&& row.mask = row.value)
    (h : DecodedAs row w address inst) : relocate inst address capacity = copyInst inst capacity := by
  have hdistance : distance row.kind (row.kind.target w address) address = row.kind.offset w := by
    rw [distance, OffsetKind.target, BitVec.add_comm, BitVec.add_sub_cancel]
  have hholds := Isa.A64.holds_offset row.kind w
  rw [copyInst, h.size, h.bytes]
  by_cases hkind : row.kind = .imm26
  · have hrel : relDisp address (row.kind.target w address) = row.kind.offset w := by
      rw [← hdistance, hkind]
      rfl
    have hfits : i64FitsI26Words4 (relDisp address (row.kind.target w address)) = true := by
      rw [hrel, hkind]
      rw [hkind] at hholds
      exact (i64FitsI26Words4_iff _).2 ⟨hholds.1, hholds.fits⟩
    rw [relocate_jump hmem hw h hkind]
    simp only [emitRel, hfits, if_true]
    rw [hrel, relWord_eq_setOffset hmem hw hkind, Isa.A64.setOffset_offset]
    unfold emitBytes
    split <;> rfl
  · rw [relocate_field hmem hw h hkind]
    dsimp only
    rw [hdistance, if_pos hholds.2, Isa.A64.setOffset_offset]

/-! ## What the analysis says -/

theorem analyze_hazardFlags_congr (hclass : inst'.instClass = inst.instClass) (hflags : inst'.flags = inst.flags)
    (hfind : inst.has InstFlag.pcRelative = true →
      (findPcRelOperand inst').isSome = (findPcRelOperand inst).isSome) :
    (analyze inst').hazardFlags = (analyze inst).hazardFlags := by
  have hhas (flag : BitVec 32) : inst'.has flag = inst.has flag := by rw [Inst.has, hflags, Inst.has]
  unfold analyze analyzeTransfer
  simp only [hclass, hhas]
  cases hflag : inst.has InstFlag.pcRelative with
  | false =>
    simp only [Bool.false_eq_true, not_false_eq_true, if_true]
    cases findPcRelOperand inst' <;> cases findPcRelOperand inst <;> rfl
  | true =>
    have hsome := hfind hflag
    cases hfind' : findPcRelOperand inst' <;> cases hfind : findPcRelOperand inst <;> simp_all

end

end AsmKit.A64
