import AsmKit.Isa.A64PcRel
import AsmKit.Lib.OffsetRange

/-!
# Words of A64 apart from where they stand

What a word does depends on its place only through the address it refers to. The state beside the
pc, and most of what the words do to it, are open: code is moved without knowing either.
-/

namespace AsmKit.Isa.A64

open SignedField LittleEndian BitPattern

/-- How a word is left: to the next one, or for a target, with a return address or without. -/
inductive Exit where
  | next
  | jump (target : BitVec 64)
  | call (target : BitVec 64)
deriving DecidableEq, Repr

/-- The address a word refers to: the one its offset names, or its own. -/
def reference (w : BitVec 32) (address : BitVec 64) : BitVec 64 :=
  match offsetKind w with
  | some kind => kind.target w address
  | none => address

/-- The words are the same outside the offset field. -/
def SameOutside (kind : OffsetKind) (w w' : BitVec 32) : Prop :=
  w' &&& ~~~kind.fieldMask = w &&& ~~~kind.fieldMask

/-- What the words do to everything but the pc, given the address they refer to. -/
structure Words (σ : Type) where
  exec : BitVec 32 → BitVec 64 → σ → Option (σ × Exit)
  /-- The return address of a call is left behind. -/
  link : BitVec 64 → σ → σ
  /-- An offset counts for nothing but the address it names. -/
  exec_offset : ∀ kind w w', offsetKind w = some kind → SameOutside kind w w' → exec w' = exec w
  exec_b : ∀ w target s, isB w = true → w.getLsbD 31 = false → exec w target s = some (s, .jump target)
  /-- The fourth SIMD literal is not allocated. -/
  exec_unallocated : ∀ w target s, w &&& 0xff000000 = 0xdc000000 → exec w target s = none

/-- The processor that runs the words of a memory. -/
def Words.machine {σ : Type} (words : Words σ) (image : BitVec 64 → BitVec 32) : Machine where
  State := σ × BitVec 64
  Addr := BitVec 64
  pc := Prod.snd
  step s := (words.exec (image s.2) (reference (image s.2) s.2) s.1).map fun out =>
    match out.2 with
    | .next => (.next, (out.1, s.2 + 4))
    | .jump target => (.branch, (out.1, target))
    | .call target => (.branch, (words.link (s.2 + 4) out.1, target))

/-- The word does not look at the pc. -/
def Words.Plain {σ : Type} (words : Words σ) (w : BitVec 32) : Prop :=
  ∀ r r', words.exec w r = words.exec w r'

/-- A word does at its address what another one does at its own. -/
def Words.Carries {σ : Type} (words : Words σ) (w' : BitVec 32) (address' : BitVec 64) (w : BitVec 32)
    (address : BitVec 64) : Prop :=
  words.exec w' (reference w' address') = words.exec w (reference w address)

/-! ## The offset of a word -/

theorem holds_offset (kind : OffsetKind) (w : BitVec 32) : kind.Holds (kind.offset w) := by
  have hfield {n : Nat} (s : Nat) (f : BitVec n) (hn : 0 < n) (h : n + s ≤ 64) :
      (2 ^ s : Int) ∣ (f.signExtend 64 <<< s).toInt ∧ InSpan n s (f.signExtend 64 <<< s) :=
    (expressible_iff hn h).1 ⟨f, rfl⟩
  cases kind with
  | imm26 => exact hfield 2 (off26 w) (by decide) (by decide)
  | imm19 => exact hfield 2 (off19 w) (by decide) (by decide)
  | imm14 => exact hfield 2 (off14 w) (by decide) (by decide)
  | adr =>
    have hadr := hfield 0 (off21 w) (by decide) (by decide)
    rwa [BitVec.shiftLeft_zero] at hadr
  | adrp => exact hfield 12 (off21 w) (by decide) (by decide)

theorem setOffset_offset (kind : OffsetKind) (w : BitVec 32) : kind.setOffset w (kind.offset w) = w := by
  have hbits {n lo j : Nat} (s : Nat) (hj : j < n) (hn : n ≤ 32) (h : n + s ≤ 64) :
      ((((field n lo w).signExtend 64 <<< s).sshiftRight s).setWidth 32).getLsbD j = w.getLsbD (lo + j) := by
    rw [BitVec.getLsbD_setWidth, getLsbD_signExtend_scaled _ hj h, field_getLsbD]
    simp [hj, show j < 32 by omega]
  have h21 (v : BitVec 32) (hv : ∀ j < 21, v.getLsbD j = (off21 w).getLsbD j) :
      setField 19 5 (setField 2 29 w v) (v >>> 2) = w := by
    have hlow : setField 2 29 w v = w := by
      refine setField_self 2 29 w v fun j hj => ?_
      rw [hv j (by omega), off21, BitVec.getLsbD_append, if_pos hj, field_getLsbD, decide_eq_true hj,
        Bool.true_and]
    rw [hlow]
    refine setField_self 19 5 w _ fun j hj => ?_
    rw [BitVec.getLsbD_ushiftRight, hv _ (by omega), off21, BitVec.getLsbD_append, if_neg (by omega),
      Nat.add_sub_cancel_left, field_getLsbD, decide_eq_true hj, Bool.true_and]
  cases kind with
  | imm26 =>
    refine setField_self 26 0 w _ fun j hj => ?_
    exact hbits 2 hj (by decide) (by decide)
  | imm19 => exact setField_self 19 5 w _ fun j hj => hbits 2 hj (by decide) (by decide)
  | imm14 => exact setField_self 14 5 w _ fun j hj => hbits 2 hj (by decide) (by decide)
  | adr =>
    refine h21 _ fun j hj => ?_
    rw [OffsetKind.offset, BitVec.getLsbD_setWidth, BitVec.getLsbD_signExtend]
    simp [hj, show j < 32 by omega, show j < 64 by omega]
  | adrp =>
    refine h21 _ fun j hj => ?_
    rw [OffsetKind.offset, BitVec.getLsbD_setWidth, getLsbD_signExtend_scaled _ hj (by decide)]
    simp [show j < 32 by omega]

/-! ## Words that differ in the offset -/

section

variable {kind : OffsetKind} {w w' : BitVec 32}

theorem SameOutside.getLsbD (h : SameOutside kind w w') {i : Nat} (hi : kind.fieldMask.getLsbD i = false) :
    w'.getLsbD i = w.getLsbD i := by
  by_cases hlt : i < 32
  · have hbit := congrArg (BitVec.getLsbD · i) h
    simp only [BitVec.getLsbD_and, BitVec.getLsbD_not, hi, hlt, decide_true, Bool.not_false,
      Bool.and_true] at hbit
    exact hbit
  · rw [BitVec.getLsbD_of_ge _ _ (Nat.le_of_not_lt hlt), BitVec.getLsbD_of_ge _ _ (Nat.le_of_not_lt hlt)]

theorem SameOutside.field (h : SameOutside kind w w') {n lo : Nat}
    (hfree : ∀ i < n, kind.fieldMask.getLsbD (lo + i) = false) : field n lo w' = field n lo w := by
  apply BitVec.eq_of_getLsbD_eq
  intro i hi
  rw [field_getLsbD, field_getLsbD, h.getLsbD (hfree i hi)]

theorem SameOutside.and (h : SameOutside kind w w') {m : BitVec 32} (hm : m &&& ~~~kind.fieldMask = m) :
    w' &&& m = w &&& m := by
  rw [← hm, BitVec.and_comm m, ← BitVec.and_assoc, ← BitVec.and_assoc, h]

theorem SameOutside.setOffset (h : SameOutside kind w w') (disp : BitVec 64) :
    kind.setOffset w' disp = kind.setOffset w disp := by
  have h21 (h : SameOutside .adr w w') (v : BitVec 32) :
      setField 19 5 (setField 2 29 w' v) (v >>> 2) = setField 19 5 (setField 2 29 w v) (v >>> 2) := by
    apply BitVec.eq_of_getLsbD_eq
    intro i hi
    simp only [setField_getLsbD _ _ _ _ _ hi]
    split
    · rfl
    split
    · rfl
    · refine h.getLsbD ?_
      change (mask 32 2 <<< 29 ||| mask 32 19 <<< 5).getLsbD i = false
      simp only [BitVec.getLsbD_or, BitVec.getLsbD_shiftLeft, mask_getLsbD]
      simp
      omega
  cases kind with
  | imm26 =>
    refine setField_congr 26 0 _ ?_
    rw [BitVec.shiftLeft_zero]
    exact h
  | imm19 => exact setField_congr 19 5 _ h
  | imm14 => exact setField_congr 14 5 _ h
  | adr => exact h21 h _
  | adrp => exact h21 h _

theorem offsetKind_of_isAdr (h : isAdr w = true) : offsetKind w = some .adr := by
  have hw : w &&& 0x9f000000 = 0x10000000 := beq_iff_eq.1 h
  have hliteral : isLiteral w = false := by
    rw [isLiteral, beq_eq_false_iff_ne.2 (and_ne_of_disjoint hw (by decide)), Bool.false_and]
  rw [offsetKind, isB, isBCond, isCb, isTb, hliteral, h,
    beq_eq_false_iff_ne.2 (and_ne_of_disjoint hw (by decide)),
    beq_eq_false_iff_ne.2 (and_ne_of_disjoint hw (by decide)),
    beq_eq_false_iff_ne.2 (and_ne_of_disjoint hw (by decide)),
    beq_eq_false_iff_ne.2 (and_ne_of_disjoint hw (by decide))]
  rfl

theorem offsetKind_of_isAdrp (h : isAdrp w = true) : offsetKind w = some .adrp := by
  have hw : w &&& 0x9f000000 = 0x90000000 := beq_iff_eq.1 h
  have hliteral : isLiteral w = false := by
    rw [isLiteral, beq_eq_false_iff_ne.2 (and_ne_of_disjoint hw (by decide)), Bool.false_and]
  rw [offsetKind, isB, isBCond, isCb, isTb, isAdr, hliteral, h,
    beq_eq_false_iff_ne.2 (and_ne_of_disjoint hw (by decide)),
    beq_eq_false_iff_ne.2 (and_ne_of_disjoint hw (by decide)),
    beq_eq_false_iff_ne.2 (and_ne_of_disjoint hw (by decide)),
    beq_eq_false_iff_ne.2 (and_ne_of_disjoint hw (by decide)),
    beq_eq_false_iff_ne.2 (and_ne_of_disjoint hw (by decide))]
  rfl

theorem offsetKind_of_isTb (h : isTb w = true) : offsetKind w = some .imm14 := by
  have hw : w &&& 0x7e000000 = 0x36000000 := beq_iff_eq.1 h
  have hliteral : isLiteral w = false := by
    rw [isLiteral, beq_eq_false_iff_ne.2 (and_ne_of_disjoint hw (by decide)), Bool.false_and]
  rw [offsetKind, isB, isBCond, isCb, hliteral, h,
    beq_eq_false_iff_ne.2 (and_ne_of_disjoint hw (by decide)),
    beq_eq_false_iff_ne.2 (and_ne_of_disjoint hw (by decide)),
    beq_eq_false_iff_ne.2 (and_ne_of_disjoint hw (by decide))]
  rfl

theorem isLiteral_of_isLdrLit (h : isLdrLit w = true) : isLiteral w = true := by
  have hw : w &&& 0xff000000 = 0x58000000 := beq_iff_eq.1 h
  rw [isLiteral, and_eq_of_refines hw (by decide : 0xff000000 &&& 0x3b000000 = 0x3b000000#32)
    (by decide : 0x58000000 &&& 0x3b000000 = 0x18000000#32), hw]
  rfl

theorem isB_of_offsetKind (h : offsetKind w = some .imm26) : isB w = true := by
  unfold offsetKind at h
  split at h
  · assumption
  · split_ifs at h <;> cases h

theorem isAdr_of_offsetKind (h : offsetKind w = some .adr) : isAdr w = true := by
  unfold offsetKind at h
  split_ifs at h <;> first | assumption | cases h

theorem isAdrp_of_offsetKind (h : offsetKind w = some .adrp) : isAdrp w = true := by
  unfold offsetKind at h
  split_ifs at h <;> first | assumption | cases h

theorem SameOutside.offsetKind (h : SameOutside kind w w') (hkind : offsetKind w = some kind) :
    offsetKind w' = some kind := by
  cases kind with
  | imm26 =>
    have hb := isB_of_offsetKind hkind
    rw [isB, ← h.and (by decide)] at hb
    exact if_pos hb
  | imm19 | imm14 =>
    rw [← hkind]
    unfold A64.offsetKind isB isBCond isCb isLiteral isTb isAdr isAdrp
    rw [h.and (by decide), h.and (by decide), h.and (by decide), h.and (by decide), h.and (by decide),
      h.and (by decide)]
  | adr =>
    have hadr := isAdr_of_offsetKind hkind
    rw [isAdr, ← h.and (by decide)] at hadr
    exact offsetKind_of_isAdr hadr
  | adrp =>
    have hadrp := isAdrp_of_offsetKind hkind
    rw [isAdrp, ← h.and (by decide)] at hadrp
    exact offsetKind_of_isAdrp hadrp

/-- A word with another offset does at its place what the first does at the other, where both name
the same address. -/
theorem Words.carries_sameOutside {σ : Type} (words : Words σ) (hkind : A64.offsetKind w = some kind)
    (h : SameOutside kind w w') {address address' : BitVec 64}
    (htarget : kind.target w' address' = kind.target w address) :
    words.Carries w' address' w address := by
  rw [Words.Carries, words.exec_offset kind w w' hkind h, reference, reference, h.offsetKind hkind, hkind]
  exact congrArg (words.exec w) htarget

end

/-! ## The branches -/

/-- The state beside the pc. -/
structure Regs where
  x : BitVec 5 → BitVec 64
  nzcv : Nzcv
  mem : BitVec 64 → Byte

def Regs.at (s : Regs) (pc : BitVec 64) : Cpu := ⟨s.x, s.nzcv, pc, s.mem⟩

def Cpu.regs (s : Cpu) : Regs := ⟨s.x, s.nzcv, s.mem⟩

/-- What a branch or literal load does, given its target. -/
def Insn.run (i : Insn) (target : BitVec 64) (s : Regs) : Regs × Exit :=
  match i with
  | .ldrLit _ rt => (((s.at 0).set rt (readWord 64 s.mem target 8)).regs, .next)
  | .br link rn => (s, if link then .call ((s.at 0).get rn) else .jump ((s.at 0).get rn))
  | i => (s, if i.taken (s.at 0) then if i.links then .call target else .jump target else .next)

/-- The instruction without its offset. -/
def Insn.clear : Insn → Insn
  | .b link _ => .b link 0
  | .bCond cond _ => .bCond cond 0
  | .cb sf nonzero _ rt => .cb sf nonzero 0 rt
  | .tb nonzero bit _ rt => .tb nonzero bit 0 rt
  | .ldrLit _ rt => .ldrLit 0 rt
  | .br link rn => .br link rn

theorem Insn.run_clear (i : Insn) : i.clear.run = i.run := by
  cases i with
  | cb sf => cases sf <;> rfl
  | b | bCond | tb | ldrLit | br => rfl

theorem offsetKind_of_isBr {w : BitVec 32} (h : isBr w = true) : offsetKind w = none := by
  have hw : w &&& 0xffdffc1f = 0xd61f0000 := beq_iff_eq.1 h
  have hliteral : isLiteral w = false := by
    rw [isLiteral, beq_eq_false_iff_ne.2 (and_ne_of_disjoint hw (by decide)), Bool.false_and]
  rw [offsetKind, isB, isBCond, isCb, isTb, isAdr, isAdrp, hliteral,
    beq_eq_false_iff_ne.2 (and_ne_of_disjoint hw (by decide)),
    beq_eq_false_iff_ne.2 (and_ne_of_disjoint hw (by decide)),
    beq_eq_false_iff_ne.2 (and_ne_of_disjoint hw (by decide)),
    beq_eq_false_iff_ne.2 (and_ne_of_disjoint hw (by decide)),
    beq_eq_false_iff_ne.2 (and_ne_of_disjoint hw (by decide)),
    beq_eq_false_iff_ne.2 (and_ne_of_disjoint hw (by decide))]
  rfl

theorem isBr_of_offsetKind {kind : OffsetKind} {w : BitVec 32} (h : offsetKind w = some kind) :
    isBr w = false := by
  by_contra hbr
  rw [offsetKind_of_isBr (Bool.eq_true_of_not_eq_false hbr)] at h
  cases h

theorem decode_of_isAdr {w : BitVec 32} (h : isAdr w = true ∨ isAdrp w = true) : decode w = none := by
  have hbr : isBr w = false := h.elim (fun h => isBr_of_offsetKind (offsetKind_of_isAdr h))
    fun h => isBr_of_offsetKind (offsetKind_of_isAdrp h)
  rw [decode, hbr]
  rcases h with h | h
  all_goals
    have hw := beq_iff_eq.1 h
    rw [isB, isBCond, isCb, isTb, isLdrLit, beq_eq_false_iff_ne.2 (and_ne_of_disjoint hw (by decide)),
      beq_eq_false_iff_ne.2 (and_ne_of_disjoint hw (by decide)),
      beq_eq_false_iff_ne.2 (and_ne_of_disjoint hw (by decide)),
      beq_eq_false_iff_ne.2 (and_ne_of_disjoint hw (by decide)),
      beq_eq_false_iff_ne.2 (and_ne_of_disjoint hw (by decide))]
    rfl

theorem decode_clear {kind : OffsetKind} {w w' : BitVec 32} (hkind : offsetKind w = some kind)
    (h : SameOutside kind w w') : (decode w').map Insn.clear = (decode w).map Insn.clear := by
  have hbr := isBr_of_offsetKind hkind
  have hkind' := h.offsetKind hkind
  have hbr' := isBr_of_offsetKind hkind'
  cases kind with
  | imm26 =>
    have h31 : w'.getLsbD 31 = w.getLsbD 31 := h.getLsbD (by decide)
    rw [decode, decode, if_pos (isB_of_offsetKind hkind), if_pos (isB_of_offsetKind hkind'), h31]
    rfl
  | adr =>
    rw [decode_of_isAdr (.inl (isAdr_of_offsetKind hkind)),
      decode_of_isAdr (.inl (isAdr_of_offsetKind hkind'))]
  | adrp =>
    rw [decode_of_isAdr (.inr (isAdrp_of_offsetKind hkind)),
      decode_of_isAdr (.inr (isAdrp_of_offsetKind hkind'))]
  | imm19 =>
    have h31 : w'.getLsbD 31 = w.getLsbD 31 := h.getLsbD (by decide)
    have h24 : w'.getLsbD 24 = w.getLsbD 24 := h.getLsbD (by decide)
    have hcond : cond w' = cond w := h.field (by decide)
    have hrt : rt w' = rt w := h.field (by decide)
    have htb : ¬ isTb w = true := by
      intro htb
      rw [offsetKind_of_isTb htb] at hkind
      cases hkind
    have htests : isB w' = isB w ∧ isBCond w' = isBCond w ∧ isCb w' = isCb w ∧ isTb w' = isTb w ∧
        isLdrLit w' = isLdrLit w := by
      unfold isB isBCond isCb isTb isLdrLit
      rw [h.and (by decide), h.and (by decide), h.and (by decide), h.and (by decide)]
      exact ⟨rfl, rfl, rfl, rfl, rfl⟩
    obtain ⟨hb, hbCond, hcb, htb', hlit⟩ := htests
    rw [decode, decode, hbr, hbr', hb, hbCond, hcb, htb', hlit, hcond, hrt, h31, h24, if_neg htb, if_neg htb,
      if_neg Bool.false_ne_true, if_neg Bool.false_ne_true]
    split_ifs <;> rfl
  | imm14 =>
    have htb : isTb w = true := by
      unfold offsetKind at hkind
      split_ifs at hkind <;> first | assumption | cases hkind
    have htb' : isTb w' = true := by
      rw [isTb, h.and (by decide)]
      exact htb
    have h24 : w'.getLsbD 24 = w.getLsbD 24 := h.getLsbD (by decide)
    have hrt : rt w' = rt w := h.field (by decide)
    have hbit : testBit w' = testBit w := by rw [testBit, testBit, h.field (by decide), h.field (by decide)]
    rw [decode_of_isTb htb, decode_of_isTb htb', h24, hrt, hbit]
    rfl

/-- The branches and the literal load, on registers, flags and memory. -/
def branchWords : Words Regs where
  exec w target s := (decode w).map fun i => i.run target s
  link address s := ((s.at 0).set 30#5 address).regs
  exec_offset kind w w' hkind h := by
    have hrun (w : BitVec 32) (target : BitVec 64) (s : Regs) :
        ((decode w).map fun i => i.run target s) =
          ((decode w).map Insn.clear).map fun i => i.run target s := by
      rw [Option.map_map]
      congr 1
      funext i
      rw [Function.comp_apply, Insn.run_clear]
    funext target s
    rw [hrun, decode_clear hkind h, ← hrun]
  exec_b w target s hb hlink := by
    rw [decode, if_pos hb, hlink]
    rfl
  exec_unallocated w target s h := by
    rw [decode, isB, isBCond, isCb, isTb, isLdrLit, isBr,
      beq_eq_false_iff_ne.2 (and_ne_of_disjoint h (by decide)),
      beq_eq_false_iff_ne.2 (and_ne_of_disjoint h (by decide)),
      beq_eq_false_iff_ne.2 (and_ne_of_disjoint h (by decide)),
      beq_eq_false_iff_ne.2 (and_ne_of_disjoint h (by decide)),
      beq_eq_false_iff_ne.2 (and_ne_of_disjoint h (by decide)),
      beq_eq_false_iff_ne.2 (and_ne_of_disjoint h (by decide))]
    rfl

theorem branchWords_plain {w : BitVec 32} (h : offsetKind w = none) : branchWords.Plain w := by
  unfold offsetKind at h
  split_ifs at h with hb h19 htb
  simp only [Bool.or_eq_true, not_or] at h19
  obtain ⟨⟨hcond, hcb⟩, hlit⟩ := h19
  intro r r'
  funext s
  change (decode w).map _ = (decode w).map _
  rw [decode, if_neg hb, if_neg hcond, if_neg hcb, if_neg htb, if_neg (mt isLiteral_of_isLdrLit hlit)]
  split <;> rfl

theorem target_of_decode {w : BitVec 32} {i : Insn} (h : decode w = some i) (s : Cpu) :
    (∃ link rn, i = .br link rn) ∨ i.target s = reference w s.pc := by
  unfold decode at h
  unfold reference offsetKind
  by_cases hb : isB w = true
  · rw [if_pos hb, Option.some_inj] at h
    rw [if_pos hb, ← h]
    exact .inr rfl
  rw [if_neg hb] at h ⊢
  by_cases hcond : isBCond w = true
  · rw [if_pos hcond, Option.some_inj] at h
    rw [hcond, ← h]
    exact .inr rfl
  rw [if_neg hcond] at h
  by_cases hcb : isCb w = true
  · rw [if_pos hcb, Option.some_inj] at h
    rw [hcb, Bool.or_true, ← h]
    exact .inr rfl
  rw [if_neg hcb] at h
  by_cases htb : isTb w = true
  · have hkind := offsetKind_of_isTb htb
    unfold offsetKind at hkind
    rw [if_neg hb] at hkind
    rw [if_pos htb, Option.some_inj] at h
    rw [hkind, ← h]
    exact .inr rfl
  rw [if_neg htb] at h
  by_cases hlit : isLdrLit w = true
  · rw [if_pos hlit, Option.some_inj] at h
    rw [isLiteral_of_isLdrLit hlit, Bool.or_true, ← h]
    exact .inr rfl
  rw [if_neg hlit] at h
  split at h
  · rw [Option.some_inj] at h
    exact .inl ⟨_, _, h.symm⟩
  · cases h

theorem taken_at (i : Insn) (s : Cpu) (pc : BitVec 64) : i.taken (s.regs.at pc) = i.taken s := by
  cases i with
  | cb sf => cases sf <;> rfl
  | b | bCond | tb | ldrLit | br => rfl

theorem exec_eq_run {i : Insn} {s : Cpu} {target : BitVec 64}
    (h : (∃ link rn, i = .br link rn) ∨ i.target s = target) :
    exec s i = match i.run target s.regs with
      | (t, .next) => (.next, t.at (s.pc + 4))
      | (t, .jump target) => (.branch, t.at target)
      | (t, .call target) => (.branch, (branchWords.link (s.pc + 4) t).at target) := by
  cases i with
  | ldrLit off rt =>
    have htarget := h.resolve_left (by rintro ⟨link, rn, hbr⟩; cases hbr)
    unfold exec Insn.run
    simp only [htarget]
    unfold Cpu.set
    split <;> rfl
  | br link rn =>
    cases link <;> rfl
  | b link off =>
    have htarget := h.resolve_left (by rintro ⟨link, rn, hbr⟩; cases hbr)
    cases link
    all_goals
      unfold exec Insn.run
      simp only [htarget]
      rfl
  | bCond | cb | tb =>
    have htarget := h.resolve_left (by rintro ⟨link, rn, hbr⟩; cases hbr)
    unfold exec Insn.run
    simp only [htarget, taken_at, Insn.links]
    split_ifs <;> rfl

/-- The words of memory, run one at a time, are what the processor runs. -/
theorem step_eq_branchWords (s : Cpu) :
    step s = ((branchWords.machine fun p => readWord 32 s.mem p 4).step (s.regs, s.pc)).map
      fun out => (out.1, out.2.1.at out.2.2) := by
  unfold step Words.machine
  simp only [branchWords]
  cases hdec : decode (readWord 32 s.mem s.pc 4) with
  | none => rfl
  | some i =>
    simp only [Option.map_some]
    rw [exec_eq_run (target_of_decode hdec s)]
    generalize i.run (reference (readWord 32 s.mem s.pc 4) s.pc) s.regs = out
    obtain ⟨t, exit⟩ := out
    cases exit <;> rfl

end AsmKit.Isa.A64
