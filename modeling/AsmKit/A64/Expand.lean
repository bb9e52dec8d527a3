import AsmKit.A64.RelocatePcRel

/-!
# What an expanded conditional branch does

The inverted branch skips the absolute stub. It is the negation of the original one, but for the
condition codes 14 and 15, which both always hold.
-/

namespace AsmKit.A64

open LittleEndian SignedField BitPattern
open Isa.A64 (Cpu Insn decode machine scaled)

/-! ## The inverted branch -/

/-- A conditional branch word. -/
def isConditional (w : BitVec 32) : Bool :=
  Isa.A64.isBCond w || Isa.A64.isCb w || Isa.A64.isTb w

/-- `b.al` and `b.nv`. -/
def alwaysTaken (w : BitVec 32) : Bool := Isa.A64.isBCond w && 14 ≤ (Isa.A64.cond w).toNat

/-- The branch a conditional branch word is, with the condition negated and the offset that skips
the stub. -/
def skipInsn (w : BitVec 32) : Insn :=
  if Isa.A64.isBCond w then .bCond (Isa.A64.cond w ^^^ 1) 5
  else if Isa.A64.isCb w then .cb (w.getLsbD 31) (!w.getLsbD 24) 5 (Isa.A64.rt w)
  else .tb (!w.getLsbD 24) (Isa.A64.testBit w) 5 (Isa.A64.rt w)

/-- The bit that tells a compare or test branch from its negation. -/
def polarity : BitVec 32 := 0x01000000

theorem polarity_getLsbD (i : Nat) : polarity.getLsbD i = decide (i = 24) := by
  have htwo : polarity = BitVec.twoPow 32 24 := rfl
  rw [htwo, BitVec.getLsbD_twoPow]
  by_cases h : i = 24 <;> simp [h, eq_comm]

theorem field_xor_polarity {n s : Nat} (w : BitVec 32) (h : s + n ≤ 24 ∨ 25 ≤ s) :
    field n s (w ^^^ polarity) = field n s w := by
  apply BitVec.eq_of_getLsbD_eq
  intro i hi
  have hne : ¬ s + i = 24 := by omega
  rw [field_getLsbD, field_getLsbD, BitVec.getLsbD_xor, polarity_getLsbD]
  simp [hne]

theorem xor_polarity_and (w m : BitVec 32) (h : polarity &&& m = 0#32) :
    (w ^^^ polarity) &&& m = w &&& m := by
  apply BitVec.eq_of_getLsbD_eq
  intro i hi
  have hbit : (polarity &&& m).getLsbD i = false := by rw [h, BitVec.getLsbD_zero]
  rw [BitVec.getLsbD_and] at hbit
  rw [BitVec.getLsbD_and, BitVec.getLsbD_and, BitVec.getLsbD_xor]
  cases hm : m.getLsbD i
  · simp
  · rw [hm, Bool.and_true] at hbit
    simp [hbit]

theorem clear_flip_set (w : BitVec 32) (n : Nat) (hn : n ≤ 19) :
    ((w &&& ~~~(mask 32 n <<< 5)) ^^^ polarity) ||| ((5#32 &&& mask 32 n) <<< 5) =
      setField n 5 (w ^^^ polarity) 5#32 := by
  apply BitVec.eq_of_getLsbD_eq
  intro i hi
  simp only [setField, BitVec.getLsbD_or, BitVec.getLsbD_and, BitVec.getLsbD_xor, BitVec.getLsbD_not,
    BitVec.getLsbD_shiftLeft, mask_getLsbD, polarity_getLsbD]
  by_cases h24 : i = 24
  · simp [h24, Nat.not_lt.2 hn]
  · simp [h24]

theorem decode_setField19 {w : BitVec 32} (hcb : Isa.A64.isCb w = true) :
    decode (setField 19 5 (w ^^^ polarity) 5#32) =
      some (.cb (w.getLsbD 31) (!w.getLsbD 24) 5 (Isa.A64.rt w)) := by
  have hpattern : setField 19 5 (w ^^^ polarity) 5#32 &&& 0x7e000000 = 0x34000000 := by
    rw [setField_and _ _ _ _ _ (by rfl), xor_polarity_and _ _ (by rfl)]
    exact beq_iff_eq.1 hcb
  have h31 : (setField 19 5 (w ^^^ polarity) 5#32).getLsbD 31 = w.getLsbD 31 := by
    rw [setField_getLsbD _ _ _ _ _ (by decide), if_neg (by decide), BitVec.getLsbD_xor,
      polarity_getLsbD]
    simp
  have h24 : (setField 19 5 (w ^^^ polarity) 5#32).getLsbD 24 = !w.getLsbD 24 := by
    rw [setField_getLsbD _ _ _ _ _ (by decide), if_neg (by decide), BitVec.getLsbD_xor,
      polarity_getLsbD]
    simp
  rw [Isa.A64.decode_of_isCb (beq_iff_eq.2 hpattern), h31, h24, Isa.A64.off19, Isa.A64.rt,
    field_setField _ _ _ _ (by decide), field_setField_of_disjoint _ _ _ _ (by decide) (by decide),
    field_xor_polarity _ (by decide)]
  rfl

theorem decode_setField14 {w : BitVec 32} (htb : Isa.A64.isTb w = true) :
    decode (setField 14 5 (w ^^^ polarity) 5#32) =
      some (.tb (!w.getLsbD 24) (Isa.A64.testBit w) 5 (Isa.A64.rt w)) := by
  have hpattern : setField 14 5 (w ^^^ polarity) 5#32 &&& 0x7e000000 = 0x36000000 := by
    rw [setField_and _ _ _ _ _ (by rfl), xor_polarity_and _ _ (by rfl)]
    exact beq_iff_eq.1 htb
  have h24 : (setField 14 5 (w ^^^ polarity) 5#32).getLsbD 24 = !w.getLsbD 24 := by
    rw [setField_getLsbD _ _ _ _ _ (by decide), if_neg (by decide), BitVec.getLsbD_xor,
      polarity_getLsbD]
    simp
  rw [Isa.A64.decode_of_isTb (beq_iff_eq.2 hpattern), h24, Isa.A64.testBit, Isa.A64.off14, Isa.A64.rt,
    field_setField _ _ _ _ (by decide), field_setField_of_disjoint _ _ _ _ (by decide) (by decide),
    field_setField_of_disjoint _ _ _ _ (by decide) (by decide),
    field_setField_of_disjoint _ _ _ _ (by decide) (by decide), field_xor_polarity _ (by decide),
    field_xor_polarity _ (by decide), field_xor_polarity _ (by decide)]
  rfl

theorem decode_setField_cond {w : BitVec 32} (hcond : Isa.A64.isBCond w = true) :
    decode (setField 19 5 (setField 4 0 w (w ^^^ 1#32)) 5#32) =
      some (.bCond (Isa.A64.cond w ^^^ 1) 5) := by
  have hpattern :
      setField 19 5 (setField 4 0 w (w ^^^ 1#32)) 5#32 &&& 0xff000010 = 0x54000000 := by
    rw [setField_and _ _ _ _ _ (by rfl), setField_and _ _ _ _ _ (by rfl)]
    exact beq_iff_eq.1 hcond
  have hb : Isa.A64.isB (setField 19 5 (setField 4 0 w (w ^^^ 1#32)) 5#32) = false :=
    beq_eq_false_iff_ne.2 (and_ne_of_disjoint hpattern (by decide))
  have hflip : (w ^^^ 1#32).setWidth 4 = Isa.A64.cond w ^^^ 1 := by
    rw [BitVec.setWidth_xor, Isa.A64.cond, field, BitVec.ushiftRight_zero]
    rfl
  rw [decode, hb, show Isa.A64.isBCond (setField 19 5 (setField 4 0 w (w ^^^ 1#32)) 5#32) = true from
    beq_iff_eq.2 hpattern, Isa.A64.off19, field_setField _ _ _ _ (by decide)]
  rw [Isa.A64.cond, field_setField_of_disjoint _ _ _ _ (by decide) (by decide),
    field_setField _ _ _ _ (by decide), hflip]
  rfl

theorem decode_invert {inst : Inst} {w : BitVec 32} (hload : load32le inst.bytes = w)
    (hcond : isConditional w = true) :
    decode (invertConditionalToSkip inst) = some (skipInsn w) := by
  rw [invertConditionalToSkip, hload]
  simp only [skipInsn]
  by_cases hb : Isa.A64.isBCond w = true
  · rw [if_pos (show wordIsBCond w = true from hb), if_pos hb, ← decode_setField_cond hb]
    congr 1
    have h15 : (0x0f : BitVec 32) = mask 32 4 := rfl
    have h19 : 0x7ffff#32 = mask 32 19 := rfl
    have h5 : (5#32 <<< 5) = ((5#32 &&& mask 32 19) <<< 5) := by rfl
    rw [h15, h19, h5, setField, setField, BitVec.shiftLeft_zero, BitVec.shiftLeft_zero]
    apply BitVec.eq_of_getLsbD_eq
    intro i hi
    simp only [BitVec.getLsbD_or, BitVec.getLsbD_and, BitVec.getLsbD_not, BitVec.getLsbD_shiftLeft,
      mask_getLsbD]
    interval_cases i <;> simp
  · rw [if_neg (show ¬ wordIsBCond w = true from hb), if_neg hb]
    by_cases hcb : Isa.A64.isCb w = true
    · rw [if_pos (show wordIsCbzCbnz w = true from hcb), if_pos hcb, ← decode_setField19 hcb,
        ← clear_flip_set w 19 (by decide)]
      rfl
    · have htb : Isa.A64.isTb w = true := by simpa [isConditional, hb, hcb] using hcond
      rw [if_neg (show ¬ wordIsCbzCbnz w = true from hcb), if_neg hcb, ← decode_setField14 htb,
        ← clear_flip_set w 14 (by decide)]
      rfl

/-! ## The negated condition -/

theorem decode_conditional {w : BitVec 32} (hcond : isConditional w = true) :
    decode w = some (if Isa.A64.isBCond w then .bCond (Isa.A64.cond w) (Isa.A64.off19 w)
      else if Isa.A64.isCb w then
        .cb (w.getLsbD 31) (w.getLsbD 24) (Isa.A64.off19 w) (Isa.A64.rt w)
      else .tb (w.getLsbD 24) (Isa.A64.testBit w) (Isa.A64.off14 w) (Isa.A64.rt w)) := by
  have hb : Isa.A64.isB w = false := by
    simp only [isConditional, Bool.or_eq_true] at hcond
    rcases hcond with (h | h) | h <;>
      exact beq_eq_false_iff_ne.2 (and_ne_of_disjoint (beq_iff_eq.1 h) (by decide))
  rw [decode, hb, if_neg (by simp)]
  split
  · rfl
  split
  · rfl
  · have htb : Isa.A64.isTb w = true := by simp_all [isConditional]
    rw [if_pos htb]

/-- The conditional branch is taken. -/
def branchTaken (w : BitVec 32) (s : Cpu) : Bool := (decode w).any (·.taken s)

theorem skipInsn_taken {w : BitVec 32} (hcond : isConditional w = true) (s : Cpu) :
    (skipInsn w).taken s = if alwaysTaken w then true else !branchTaken w s := by
  rw [branchTaken, decode_conditional hcond, Option.any_some, skipInsn, alwaysTaken]
  by_cases hb : Isa.A64.isBCond w = true
  · simp only [hb, if_true, Bool.true_and, Insn.taken]
    by_cases halways : 14 ≤ (Isa.A64.cond w).toNat
    · have hflip : 14 ≤ (Isa.A64.cond w ^^^ 1).toNat := by
        have hlt := (Isa.A64.cond w).isLt
        have hcases : Isa.A64.cond w = 14#4 ∨ Isa.A64.cond w = 15#4 := by
          have hval : (Isa.A64.cond w).toNat = 14 ∨ (Isa.A64.cond w).toNat = 15 := by omega
          exact hval.imp (fun h => BitVec.eq_of_toNat_eq h) (fun h => BitVec.eq_of_toNat_eq h)
        rcases hcases with h | h <;> rw [h] <;> decide
      rw [if_pos (by simpa using halways)]
      exact s.nzcv.holds_always _ hflip
    · rw [if_neg (by simpa using halways)]
      exact s.nzcv.holds_flip _ (Nat.lt_of_not_le halways)
  · simp only [hb, Bool.false_and, Bool.false_eq_true, if_false]
    by_cases hcb : Isa.A64.isCb w = true
    · simp only [hcb, if_true]
      cases w.getLsbD 31 <;> simp [Insn.taken]
    · simp only [hcb, Bool.false_eq_true, if_false, Insn.taken]
      cases w.getLsbD 24 <;> simp

theorem branchTaken_of_alwaysTaken {w : BitVec 32} (h : alwaysTaken w = true) (s : Cpu) :
    branchTaken w s = true := by
  simp only [alwaysTaken, Bool.and_eq_true, decide_eq_true_eq] at h
  have hcond : isConditional w = true := by simp [isConditional, h.1]
  rw [branchTaken, decode_conditional hcond, if_pos h.1, Option.any_some, Insn.taken]
  exact s.nzcv.holds_always _ h.2

/-! ## The expanded sequence -/

variable {inst : Inst} {w : BitVec 32} {relocatedAddress target : BitVec 64} {capacity : Nat}

def expandedCode (inst : Inst) (target : BitVec 64) : List Byte :=
  store32le (invertConditionalToSkip inst) ++ absCode false target

@[simp] theorem expandedCode_length (inst : Inst) (target : BitVec 64) :
    (expandedCode inst target).length = 20 := rfl

theorem expandConditionalAbs_ok (hcapacity : 20 ≤ capacity) :
    expandConditionalAbs inst target capacity =
      { status := .ok, result := { size := 20, clobberMaskLo := x16Mask }
        code := expandedCode inst target } := by
  have hstub : emitAbs false target (capacity - 4) =
      { status := .ok, result := absResult, code := absCode false target } :=
    emitBytes_ok (show 16 ≤ capacity - 4 by omega)
  rw [expandConditionalAbs, hstub]
  simp only [if_neg (Nat.not_lt.2 hcapacity)]
  rfl

/-- The sequence at an address branches to the target when the branch is taken, and else runs to
its own end with every register as it was. -/
def ExpandsTo (w : BitVec 32) (relocatedAddress target : BitVec 64) (out : EmitOut) : Prop :=
  machine.Runs (stop relocatedAddress out.code) (At relocatedAddress out.code) fun s s' =>
    if branchTaken w s then s'.pc = target
    else s'.pc = stop relocatedAddress out.code ∧ s'.x = s.x ∧ s'.nzcv = s.nzcv

theorem step_skip (hload : load32le inst.bytes = w) (hcond : isConditional w = true) {s : Cpu}
    (hs : At relocatedAddress (expandedCode inst target) s) :
    Isa.A64.step s = some (
      if (skipInsn w).taken s then
        (.branch, { s with pc := stop relocatedAddress (expandedCode inst target) })
      else (.next, s.skip)) := by
  obtain ⟨hpc, hmem⟩ := hs
  have hfirst := hmem.left
  rw [store32le_eq] at hfirst
  rw [Isa.A64.step_of_loaded hfirst (decode_invert hload hcond), stop, expandedCode_length]
  have hoff19 : scaled 5#19 = 20#64 := by decide
  have hoff14 : scaled 5#14 = 20#64 := by decide
  simp only [skipInsn]
  split
  · simp [Isa.A64.exec, Insn.links, Insn.target, hoff19, hpc]
  split
  · simp [Isa.A64.exec, Insn.links, Insn.target, hoff19, hpc]
  · simp [Isa.A64.exec, Insn.links, Insn.target, hoff14, hpc]

theorem leaves_skipped (hload : load32le inst.bytes = w) (hcond : isConditional w = true) {s : Cpu}
    (hs : At relocatedAddress (expandedCode inst target) s) (hskip : (skipInsn w).taken s = true) :
    machine.Leaves (stop relocatedAddress (expandedCode inst target)) s
      { s with pc := stop relocatedAddress (expandedCode inst target) } := by
  have hstep := step_skip hload hcond hs
  rw [if_pos hskip] at hstep
  exact .branch hstep

theorem leaves_stub (hload : load32le inst.bytes = w) (hcond : isConditional w = true) {s : Cpu}
    (hs : At relocatedAddress (expandedCode inst target) s) (hskip : (skipInsn w).taken s = false) :
    ∃ s', machine.Leaves (stop relocatedAddress (expandedCode inst target)) s s' ∧ s'.pc = target := by
  have hstep := step_skip hload hcond hs
  rw [hskip, if_neg (by simp)] at hstep
  have hstub : At (relocatedAddress + 4) (absCode false target) s.skip := by
    refine ⟨by rw [Isa.A64.skip_pc, hs.1], ?_⟩
    have hrest := hs.2.right
    rwa [store32le_length] at hrest
  have hstop : stop (relocatedAddress + 4) (absCode false target) =
      stop relocatedAddress (expandedCode inst target) := by
    rw [stop, stop, absCode_length, expandedCode_length, BitVec.add_assoc]
    rfl
  have hne : s.skip.pc ≠ stop relocatedAddress (expandedCode inst target) := by
    rw [Isa.A64.skip_pc, hs.1, stop, expandedCode_length, ne_eq, BitVec.add_right_inj]
    decide
  have hleaves := leaves_absCode hstub
  rw [hstop] at hleaves
  exact ⟨_, .next hstep hne hleaves, rfl⟩

theorem expandsTo_of_not_alwaysTaken (hload : load32le inst.bytes = w)
    (hcond : isConditional w = true) (halways : alwaysTaken w = false) (status : Status)
    (result : EmitResult) :
    ExpandsTo w relocatedAddress target ⟨status, result, expandedCode inst target⟩ := by
  intro s hs
  have htaken := skipInsn_taken hcond s
  rw [halways, if_neg (by simp)] at htaken
  by_cases hbranch : branchTaken w s = true
  · rw [hbranch] at htaken
    obtain ⟨s', hleaves, hpc⟩ := leaves_stub hload hcond hs htaken
    exact ⟨s', hleaves, (if_pos hbranch).mpr hpc⟩
  · have hskip : (skipInsn w).taken s = true := by simpa [hbranch] using htaken
    exact ⟨_, leaves_skipped hload hcond hs hskip, (if_neg hbranch).mpr ⟨rfl, rfl, rfl⟩⟩

/-- `b.al` and `b.nv` always skip their own stub. -/
theorem not_expandsTo_of_alwaysTaken (hload : load32le inst.bytes = w)
    (halways : alwaysTaken w = true) (htarget : target ≠ relocatedAddress + 20)
    (status : Status) (result : EmitResult) :
    ¬ ExpandsTo w relocatedAddress target ⟨status, result, expandedCode inst target⟩ := by
  intro h
  have hcond : isConditional w = true := by
    rw [alwaysTaken, Bool.and_eq_true] at halways
    simp [isConditional, halways.1]
  let s : Cpu :=
    { x := fun _ => 0, nzcv := ⟨false, false, false, false⟩, pc := relocatedAddress
      mem := store (fun _ => 0) relocatedAddress (expandedCode inst target) }
  have hs : At relocatedAddress (expandedCode inst target) s := ⟨rfl, loaded_store _ _ _ (by simp)⟩
  have hskip : (skipInsn w).taken s = true := by rw [skipInsn_taken hcond, if_pos halways]
  have hpost := h.post_of_leaves hs (leaves_skipped hload hcond hs hskip)
  rw [if_pos (branchTaken_of_alwaysTaken halways s)] at hpost
  exact htarget hpost.symm

theorem expandsTo_iff (hload : load32le inst.bytes = w) (hcond : isConditional w = true)
    (htarget : target ≠ relocatedAddress + 20) (status : Status) (result : EmitResult) :
    ExpandsTo w relocatedAddress target ⟨status, result, expandedCode inst target⟩ ↔
      alwaysTaken w = false := by
  constructor
  · intro h
    by_contra halways
    exact not_expandsTo_of_alwaysTaken hload (by simpa using halways) htarget status result h
  · intro halways
    exact expandsTo_of_not_alwaysTaken hload hcond halways status result

end AsmKit.A64
