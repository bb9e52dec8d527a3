import AsmKit.A64.Branches
import AsmKit.A64.PcRelDecode

/-!
# Relocating the pc-relative words

A pc-relative word keeps its target when the offset field holds the new distance. Otherwise `b` and
`bl` become the absolute stub, a conditional branch is expanded, and the rest is refused.
-/

namespace AsmKit.A64

open SignedField BitPattern
open Isa.A64 (OffsetKind offsetKind)

variable {row : PcRelRow} {w : BitVec 32} {address relocatedAddress : BitVec 64} {inst : Inst}
  {capacity : Nat}

/-! ## What the word tests say about a row -/

theorem test_row (hmem : row ∈ pcRelRows) (hw : w &&& row.mask = row.value) (m v : BitVec 32)
    (hd : ∀ row ∈ pcRelRows, row.mask &&& m = m ∨ row.mask &&& m &&& (row.value ^^^ v) ≠ 0#32) :
    (w &&& m == v) = (row.value &&& m == v) :=
  and_beq_congr hw (hd row hmem)

theorem wordIsBCond_row (hmem : row ∈ pcRelRows) (hw : w &&& row.mask = row.value) :
    wordIsBCond w = wordIsBCond row.value :=
  test_row hmem hw _ _ (by decide)

theorem wordIsCbzCbnz_row (hmem : row ∈ pcRelRows) (hw : w &&& row.mask = row.value) :
    wordIsCbzCbnz w = wordIsCbzCbnz row.value :=
  test_row hmem hw _ _ (by decide)

theorem wordIsTbzTbnz_row (hmem : row ∈ pcRelRows) (hw : w &&& row.mask = row.value) :
    wordIsTbzTbnz w = wordIsTbzTbnz row.value :=
  test_row hmem hw _ _ (by decide)

theorem wordHasOff19_row (hmem : row ∈ pcRelRows) (hw : w &&& row.mask = row.value) :
    wordHasOff19 w = (row.kind == .imm19) := by
  have hrow : ∀ row ∈ pcRelRows, wordHasOff19 row.value = (row.kind == .imm19) := by decide
  rw [← hrow row hmem, wordHasOff19, wordHasOff19, wordIsBCond_row hmem hw,
    wordIsCbzCbnz_row hmem hw,
    show wordIsLdrLiteral w = wordIsLdrLiteral row.value from test_row hmem hw _ _ (by decide),
    show wordIsPrfmLiteral w = wordIsPrfmLiteral row.value from test_row hmem hw _ _ (by decide)]

theorem wordIsTbzTbnz_eq (hmem : row ∈ pcRelRows) (hw : w &&& row.mask = row.value) :
    wordIsTbzTbnz w = (row.kind == .imm14) := by
  have hrow : ∀ row ∈ pcRelRows, wordIsTbzTbnz row.value = (row.kind == .imm14) := by decide
  rw [← hrow row hmem, wordIsTbzTbnz_row hmem hw]

theorem wordIsAdr_eq (hmem : row ∈ pcRelRows) (hw : w &&& row.mask = row.value) :
    wordIsAdr w = (row.kind == .adr) := by
  have hrow : ∀ row ∈ pcRelRows, wordIsAdr row.value = (row.kind == .adr) := by decide
  rw [← hrow row hmem]
  exact test_row hmem hw _ _ (by decide)

theorem wordIsAdrp_eq (hmem : row ∈ pcRelRows) (hw : w &&& row.mask = row.value) :
    wordIsAdrp w = (row.kind == .adrp) := by
  have hrow : ∀ row ∈ pcRelRows, wordIsAdrp row.value = (row.kind == .adrp) := by decide
  rw [← hrow row hmem]
  exact test_row hmem hw _ _ (by decide)

theorem wordIsUnconditionalBBl_eq (hmem : row ∈ pcRelRows) (hw : w &&& row.mask = row.value) :
    wordIsUnconditionalBBl w = (row.kind == .imm26) := by
  have hrow : ∀ row ∈ pcRelRows, wordIsUnconditionalBBl row.value = (row.kind == .imm26) := by
    decide
  rw [← hrow row hmem, wordIsUnconditionalBBl, wordIsUnconditionalBBl,
    test_row hmem hw _ _ (by decide), test_row hmem hw 0xfc000000 0x94000000 (by decide)]

/-- The conditional branches among the rows. -/
def PcRelRow.isConditional (row : PcRelRow) : Bool :=
  wordIsBCond row.value || wordIsCbzCbnz row.value || wordIsTbzTbnz row.value

/-! ## What the overlay makes of a decoded row -/

theorem findPcRelOperand_append {lead : List Operand} {o : Operand} (hops : inst.operands = lead ++ [o])
    (hkinds : ∀ operand ∈ lead, operand.kind ≠ .pcRel) (hkind : o.kind = .pcRel)
    (hlen : lead.length < maxOperands) : findPcRelOperand inst = some o := by
  have hnone : lead.find? (·.kind == .pcRel) = none := by
    rw [List.find?_eq_none]
    intro operand hop
    simpa using hkinds operand hop
  rw [findPcRelOperand, hops, List.take_of_length_le (by simp; omega), List.find?_append, hnone,
    Option.none_or]
  simp [hkind]

namespace DecodedAs

theorem findPcRelOperand (hmem : row ∈ pcRelRows) (h : DecodedAs row w address inst) :
    findPcRelOperand inst = some ((targetOperand row.kind w address).atIndex row.lead.length) := by
  obtain ⟨lead, hlen, hkinds, hops⟩ := h.operands
  have hshort : ∀ row ∈ pcRelRows, row.lead.length < maxOperands := by decide
  exact findPcRelOperand_append hops hkinds rfl (by rw [hlen]; exact hshort row hmem)

theorem instWord (h : DecodedAs row w address inst) : instWord inst = w := by
  have hload := load32le_store32le w []
  rw [List.append_nil] at hload
  rw [A64.instWord, h.size, if_pos (Nat.le_refl 4), h.bytes, hload]

theorem load (h : DecodedAs row w address inst) : load32le inst.bytes = w := by
  have hload := load32le_store32le w []
  rwa [List.append_nil, ← h.bytes] at hload

theorem instMnemonic (hmem : row ∈ pcRelRows) (h : DecodedAs row w address inst) :
    instMnemonic inst = row.mnemonicId := by
  have hne : ∀ row ∈ pcRelRows, row.mnemonicId ≠ 0 := by decide
  rw [A64.instMnemonic, h.mnemonicId, if_pos (hne row hmem)]

theorem has_pcRelative (hmem : row ∈ pcRelRows) (h : DecodedAs row w address inst) :
    inst.has InstFlag.pcRelative = true := by
  have hflag : ∀ row ∈ pcRelRows, hasFlag row.flags InstFlag.pcRelative = true := by decide
  rw [Inst.has, h.flags, hflag row hmem]

theorem isUnconditional (hmem : row ∈ pcRelRows) (hw : w &&& row.mask = row.value)
    (h : DecodedAs row w address inst) :
    isUnconditionalPcBranchOrCall inst = (row.kind == .imm26) := by
  have hrow : ∀ row ∈ pcRelRows, ((row.mnemonicId == Mnemonic.b && row.instClass == .directBranch) ||
      (row.mnemonicId == Mnemonic.bl && row.instClass == .directCall)) = (row.kind == .imm26) := by
    decide
  rw [isUnconditionalPcBranchOrCall, h.has_pcRelative hmem, h.instMnemonic hmem, h.instClass,
    h.instWord, wordIsUnconditionalBBl_eq hmem hw, hrow row hmem, Bool.or_self, Bool.true_and]

theorem isCall (hmem : row ∈ pcRelRows) (h : DecodedAs row w address inst) :
    isCall inst = (row.instClass == .directCall) := by
  have hrow : ∀ row ∈ pcRelRows, (row.mnemonicId == Mnemonic.bl || row.instClass == .directCall) =
      (row.instClass == .directCall) := by decide
  rw [A64.isCall, h.instMnemonic hmem, h.instClass, hrow row hmem]

theorem isAdrp (hmem : row ∈ pcRelRows) (hw : w &&& row.mask = row.value)
    (h : DecodedAs row w address inst) : isAdrp inst = (row.kind == .adrp) := by
  have hrow : ∀ row ∈ pcRelRows, (row.mnemonicId == Mnemonic.adrp) = (row.kind == .adrp) := by decide
  rw [A64.isAdrp, h.instMnemonic hmem, h.instWord, wordIsAdrp_eq hmem hw, hrow row hmem, Bool.or_self]

theorem isAddressMaterialization (hmem : row ∈ pcRelRows) (hw : w &&& row.mask = row.value)
    (h : DecodedAs row w address inst) :
    isAddressMaterialization inst = (row.kind == .adr || row.kind == .adrp) := by
  have hrow : ∀ row ∈ pcRelRows, (row.mnemonicId == Mnemonic.adr || row.mnemonicId == Mnemonic.adrp ||
      row.kind == .adr || row.kind == .adrp) = (row.kind == .adr || row.kind == .adrp) := by decide
  rw [A64.isAddressMaterialization, h.instMnemonic hmem, h.instWord, wordIsAdr_eq hmem hw,
    wordIsAdrp_eq hmem hw, hrow row hmem]

theorem isConditional (hmem : row ∈ pcRelRows) (hw : w &&& row.mask = row.value)
    (h : DecodedAs row w address inst) : isConditionalPcBranch inst = row.isConditional := by
  have hrow : ∀ row ∈ pcRelRows, (row.instClass == .condBranch && row.isConditional) =
      row.isConditional := by decide
  rw [isConditionalPcBranch, h.instWord, h.has_pcRelative hmem, h.instClass, Bool.and_true,
    wordIsBCond_row hmem hw, wordIsCbzCbnz_row hmem hw, wordIsTbzTbnz_row hmem hw]
  exact hrow row hmem

end DecodedAs

/-! ## The distance to encode -/

theorem dvd_offset (kind : OffsetKind) (w : BitVec 32) : 2 ^ kind.scale ∣ (kind.offset w).toNat := by
  cases kind with
  | imm26 | imm19 | imm14 => exact dvd_shiftLeft _ 2 (by decide)
  | adr => exact Nat.one_dvd _
  | adrp => exact dvd_shiftLeft _ 12 (by decide)

theorem base_target (kind : OffsetKind) (w : BitVec 32) (address : BitVec 64) :
    kind.base (kind.target w address) = kind.target w address := by
  cases kind with
  | imm26 | imm19 | imm14 | adr => rfl
  | adrp =>
    refine and_not_mask_of_dvd _ 12 (by decide) ?_
    exact dvd_add _ _ 12 (by decide) (dvd_and_not_mask _ 12 (by decide)) (dvd_offset .adrp w)

theorem base_add_offset (kind : OffsetKind) (w : BitVec 32) (address : BitVec 64) :
    kind.base (address + kind.offset w) = kind.target w address := by
  cases kind with
  | imm26 | imm19 | imm14 | adr => rfl
  | adrp => exact add_and_not_mask _ _ 12 (by decide) (dvd_offset .adrp w)

theorem base_operandTarget (h : DecodedAs row w address inst) :
    row.kind.base (operandTarget inst ((targetOperand row.kind w address).atIndex row.lead.length)) =
      row.kind.target w address := by
  rw [operandTarget, Operand.atIndex_absTarget, Operand.atIndex_imm, h.address]
  split
  · exact base_target row.kind w address
  · exact base_add_offset row.kind w address

/-- The distance from the relocated address, or from its page, to the target. -/
def distance (kind : OffsetKind) (target relocatedAddress : BitVec 64) : BitVec 64 :=
  target - kind.base relocatedAddress

theorem dvd_page_distance (w : BitVec 32) (address relocatedAddress : BitVec 64) :
    2 ^ 12 ∣ (distance .adrp (OffsetKind.adrp.target w address) relocatedAddress).toNat :=
  dvd_sub _ _ 12 (by decide)
    (dvd_add _ _ 12 (by decide) (dvd_and_not_mask _ 12 (by decide)) (dvd_offset .adrp w))
    (dvd_and_not_mask _ 12 (by decide))

theorem dvd_distance (haddress : 4 ∣ address.toNat) (hrelocated : 4 ∣ relocatedAddress.toNat)
    (kind : OffsetKind) (w : BitVec 32) :
    (2 ^ kind.scale : Int) ∣ (distance kind (kind.target w address) relocatedAddress).toInt := by
  have hscale : kind.scale ≤ 64 := by cases kind <;> decide
  have hbase (a : BitVec 64) (ha : 4 ∣ a.toNat) : 2 ^ kind.scale ∣ (kind.base a).toNat := by
    cases kind with
    | imm26 | imm19 | imm14 => exact ha
    | adr => exact Nat.one_dvd _
    | adrp => exact dvd_and_not_mask _ 12 (by decide)
  rw [dvd_toInt_iff_toNat _ _ hscale]
  refine dvd_sub _ _ _ hscale (dvd_add _ _ _ hscale (hbase _ haddress) ?_) (hbase _ hrelocated)
  exact dvd_offset kind w

/-- The distance the overlay encodes: the one in bytes, and the one in pages for `adrp`. -/
theorem relocDisp_row (hmem : row ∈ pcRelRows) (hw : w &&& row.mask = row.value)
    (h : DecodedAs row w address inst) :
    relocDisp inst
        (operandTarget inst ((targetOperand row.kind w address).atIndex row.lead.length))
        relocatedAddress =
      some (if row.kind = .adrp then
        (distance row.kind (row.kind.target w address) relocatedAddress).sshiftRight 12
        else distance row.kind (row.kind.target w address) relocatedAddress) := by
  have htarget := base_operandTarget h
  rw [relocDisp, h.isAdrp hmem hw]
  cases hkind : row.kind with
  | imm26 | imm19 | imm14 | adr =>
    rw [hkind] at htarget
    rw [if_neg (by simp), if_neg (by simp), ← htarget]
    rfl
  | adrp =>
    rw [hkind] at htarget
    have hpages : distance .adrp (OffsetKind.adrp.target w address) relocatedAddress &&& 0xfff = 0#64 :=
      (and_mask_eq_zero_iff _ 12 (by decide)).2 (dvd_page_distance w address relocatedAddress)
    have hdisp : (operandTarget inst ((targetOperand .adrp w address).atIndex row.lead.length) &&&
        ~~~0xfff) - (relocatedAddress &&& ~~~0xfff) =
          distance .adrp (OffsetKind.adrp.target w address) relocatedAddress := by
      rw [← htarget]
      rfl
    simp only [beq_self_eq_true, if_true]
    rw [hdisp, if_neg (by simpa using hpages)]

theorem range_row (hmem : row ∈ pcRelRows) (hw : w &&& row.mask = row.value)
    (h : DecodedAs row w address inst) (hkind : row.kind ≠ .imm26) (disp : BitVec 64)
    (hdisp : disp = if row.kind = .adrp then
        (distance row.kind (row.kind.target w address) relocatedAddress).sshiftRight 12
        else distance row.kind (row.kind.target w address) relocatedAddress) :
    (disp.toInt < rangeMin inst ∨ rangeMax inst < disp.toInt) ↔
      ¬ row.kind.InRange (distance row.kind (row.kind.target w address) relocatedAddress) := by
  rw [rangeMin, rangeMax, h.instWord, wordHasOff19_row hmem hw, wordIsTbzTbnz_eq hmem hw,
    h.isAddressMaterialization hmem hw, OffsetKind.InRange]
  cases hk : row.kind with
  | imm26 => exact absurd hk hkind
  | imm19 | imm14 | adr =>
    rw [hk] at hdisp
    rw [hdisp]
    simp only [OffsetKind.scale, OffsetKind.bits]
    simp
    omega
  | adrp =>
    rw [hk] at hdisp
    have hdvd := (dvd_toInt_iff_toNat _ 12 (by decide)).2 (dvd_page_distance w address relocatedAddress)
    rw [hdisp]
    simp only [OffsetKind.scale, OffsetKind.bits, if_true, BitVec.toInt_sshiftRight,
      Int.shiftRight_eq_div_pow]
    simp
    omega

theorem inRange_iff_holds (haddress : 4 ∣ address.toNat) (hrelocated : 4 ∣ relocatedAddress.toNat)
    (kind : OffsetKind) (w : BitVec 32) :
    kind.InRange (distance kind (kind.target w address) relocatedAddress) ↔
      kind.Holds (distance kind (kind.target w address) relocatedAddress) :=
  ⟨fun h => ⟨dvd_distance haddress hrelocated kind w, h⟩, fun h => h.2⟩

/-! ## The patched word -/

theorem patch21_eq (w v : BitVec 32) :
    ((w &&& ~~~((0x3#32 <<< 29) ||| (0x7ffff#32 <<< 5))) |||
      (((v &&& 0x1fffff) &&& 0x3#32) <<< 29) ||| ((((v &&& 0x1fffff) >>> 2) &&& 0x7ffff#32) <<< 5)) =
      setField 19 5 (setField 2 29 w v) (v >>> 2) := by
  have h21 : (0x1fffff : BitVec 32) = mask 32 21 := rfl
  have h2 : 0x3#32 = mask 32 2 := rfl
  have h19 : 0x7ffff#32 = mask 32 19 := rfl
  rw [h21, h2, h19]
  apply BitVec.eq_of_getLsbD_eq
  intro i hi
  rw [setField_getLsbD _ _ _ _ _ hi, setField_getLsbD _ _ _ _ _ hi]
  simp only [BitVec.getLsbD_or, BitVec.getLsbD_and, BitVec.getLsbD_not, BitVec.getLsbD_shiftLeft,
    BitVec.getLsbD_ushiftRight, mask_getLsbD]
  interval_cases i <;> simp

theorem patchWord_row (hmem : row ∈ pcRelRows) (hw : w &&& row.mask = row.value)
    (hkind : row.kind ≠ .imm26) (disp : BitVec 64) :
    patchWord w (if row.kind = .adrp then disp.sshiftRight 12 else disp) =
      some (row.kind.setOffset w disp) := by
  rw [patchWord]
  simp only [wordHasOff19_row hmem hw, wordIsTbzTbnz_eq hmem hw, wordIsAdr_eq hmem hw,
    wordIsAdrp_eq hmem hw]
  cases hk : row.kind with
  | imm26 => exact absurd hk hkind
  | imm19 => rfl
  | imm14 => rfl
  | adr => exact congrArg some (patch21_eq w (disp.setWidth 32))
  | adrp => exact congrArg some (patch21_eq w ((disp.sshiftRight 12).setWidth 32))

/-! ## Relocation -/

theorem operandTarget_eq (h : DecodedAs row w address inst) (hkind : row.kind ≠ .adrp) :
    operandTarget inst ((targetOperand row.kind w address).atIndex row.lead.length) =
      row.kind.target w address := by
  have hbase := base_operandTarget h
  cases hk : row.kind with
  | imm26 | imm19 | imm14 | adr =>
    rw [hk] at hbase
    exact hbase
  | adrp => exact absurd hk hkind

theorem relWord_eq_setOffset (hmem : row ∈ pcRelRows) (hw : w &&& row.mask = row.value)
    (hkind : row.kind = .imm26) (disp : BitVec 64) :
    relWord (row.instClass == .directCall) disp = row.kind.setOffset w disp := by
  have hrow : ∀ row ∈ pcRelRows, row.kind = .imm26 → row.mask = 0xfc000000 ∧
      (if row.instClass == .directCall then 0x94000000#32 else 0x14000000#32) = row.value := by decide
  obtain ⟨hmask, hvalue⟩ := hrow row hmem hkind
  rw [relWord_eq_setField, hkind]
  apply setField_congr
  rw [show (if row.instClass == .directCall then 0x94000000 else 0x14000000) = row.value from hvalue,
    ← hw, hmask, BitVec.and_assoc]
  rfl

theorem relocate_of_holds (hmem : row ∈ pcRelRows) (hw : w &&& row.mask = row.value)
    (h : DecodedAs row w address inst) (hcapacity : 4 ≤ capacity)
    (hholds : row.kind.Holds (distance row.kind (row.kind.target w address) relocatedAddress)) :
    relocate inst relocatedAddress capacity =
      { status := .ok, result := { size := 4 }
        code := store32le
          (row.kind.setOffset w (distance row.kind (row.kind.target w address) relocatedAddress)) } := by
  rw [relocate, h.findPcRelOperand hmem]
  simp only [h.isUnconditional hmem hw, h.has_pcRelative hmem]
  by_cases hkind : row.kind = .imm26
  · have htarget := operandTarget_eq h (by simp [hkind])
    have hfits : i64FitsI26Words4 (relDisp relocatedAddress (row.kind.target w address)) = true := by
      rw [hkind] at hholds ⊢
      exact (i64FitsI26Words4_iff _).2 ⟨hholds.1, hholds.fits⟩
    have hrel : emitRel (isCall inst) relocatedAddress (row.kind.target w address) capacity =
        { status := .ok, result := { size := 4 }
          code := store32le
            (row.kind.setOffset w (distance row.kind (row.kind.target w address) relocatedAddress)) } := by
      simp only [emitRel, hfits, if_true]
      rw [h.isCall hmem, relWord_eq_setOffset hmem hw hkind, hkind]
      exact emitBytes_ok hcapacity
    rw [htarget, hrel, if_pos (by simp [hkind]), if_pos (.inl rfl)]
  · rw [if_neg (by simpa using hkind), if_pos trivial, relocDisp_row hmem hw h]
    have hrange := (range_row hmem hw h hkind _ rfl).not.2 (not_not.2 hholds.2)
    simp only [if_neg hrange, if_neg (Nat.not_lt.2 hcapacity), h.load,
      patchWord_row hmem hw hkind]

theorem relocate_of_not_inRange (hmem : row ∈ pcRelRows) (hw : w &&& row.mask = row.value)
    (h : DecodedAs row w address inst)
    (hnot : ¬ row.kind.InRange (distance row.kind (row.kind.target w address) relocatedAddress)) :
    relocate inst relocatedAddress capacity =
      if row.kind = .imm26 then
        emitAbs (row.instClass == .directCall) (row.kind.target w address) capacity
      else if row.isConditional then
        expandConditionalAbs inst (row.kind.target w address) capacity
      else { status := .branchOutOfRange } := by
  rw [relocate, h.findPcRelOperand hmem]
  simp only [h.isUnconditional hmem hw, h.has_pcRelative hmem]
  by_cases hkind : row.kind = .imm26
  · have htarget := operandTarget_eq h (by simp [hkind])
    have hfits : ¬ i64FitsI26Words4 (relDisp relocatedAddress (row.kind.target w address)) = true := by
      rw [hkind] at hnot ⊢
      intro hfits
      obtain ⟨hdvd, hlo, hhi⟩ := (i64FitsI26Words4_iff _).1 hfits
      apply hnot
      simp only [OffsetKind.InRange, OffsetKind.bits, OffsetKind.scale, distance, OffsetKind.base]
      simp only [relDisp] at hdvd hlo hhi
      omega
    rw [htarget, emitRel]
    simp [hkind, hkind ▸ hfits, h.isCall hmem]
  · have hrange := (range_row hmem hw h hkind _ rfl).2 hnot
    rw [if_neg (by simpa using hkind), if_pos trivial, relocDisp_row hmem hw h, if_neg hkind]
    simp only [if_pos hrange, h.isConditional hmem hw]
    split
    · next hcond =>
      have hnotAdrp : ∀ row ∈ pcRelRows, row.isConditional = true → row.kind ≠ .adrp := by decide
      rw [operandTarget_eq h (hnotAdrp row hmem hcond)]
    · rfl

end AsmKit.A64
