import AsmKit.A64.ForeignRows
import AsmKit.Relocate.A64
import AsmKit.Relocate.Forms

/-!
# A64 words carried to another address

A word that is relocated without a scratch register does at its new address what it did at the old
one: it names the same address, and it is the same word but for the offset.
-/

namespace AsmKit

open SignedField BitPattern
open Isa.A64 (offsetKind reference SameOutside Words)

variable {σ : Type} {words : Words σ} {tables : Tables} {engine : Engine} {code : List Byte}
  {address relocatedAddress : BitVec 64} {prior inst : Inst} {capacity : Nat}

namespace A64

/-! ## Copies -/

theorem take_eq_store32le (h : 4 ≤ code.length) : code.take 4 = store32le (load32le code) := by
  rw [store32le_eq, load32le_eq, LittleEndian.bytesOf_wordOf 4 _ (by simp [h]) (by decide)]

theorem relocate_of_not_pcRelative (h : inst.has InstFlag.pcRelative = false) :
    relocate inst relocatedAddress capacity = copyInst inst capacity := by
  have hunconditional : isUnconditionalPcBranchOrCall inst = false := by
    rw [isUnconditionalPcBranchOrCall, h, Bool.false_and]
  unfold relocate
  simp only [hunconditional, h]
  split <;> rfl

/-! ## The literal load that is not allocated -/

theorem relocate_unallocated {w : BitVec 32} (hw : w &&& 0xff000000 = 0xdc000000)
    (hmnemonic : inst.mnemonicId = Mnemonic.ldr) (hsize : inst.size = 4) (hbytes : inst.bytes = store32le w)
    (hok : (relocate inst relocatedAddress capacity).status = .ok) :
    ∃ w', (relocate inst relocatedAddress capacity).code = store32le w' ∧
      (relocate inst relocatedAddress capacity).result.size = 4 ∧ w' &&& 0xff000000 = 0xdc000000 := by
  have hload : load32le inst.bytes = w := by
    rw [hbytes, ← List.append_nil (store32le w), load32le_store32le]
  have hword : instWord inst = w := by rw [instWord, hsize, if_pos (Nat.le_refl 4), hload]
  have hno (m v : BitVec 32) (hd : 0xff000000#32 &&& m &&& (0xdc000000 ^^^ v) ≠ 0#32) : (w &&& m == v) = false :=
    beq_eq_false_iff_ne.2 (and_ne_of_disjoint hw hd)
  have hunconditional : isUnconditionalPcBranchOrCall inst = false := by
    rw [isUnconditionalPcBranchOrCall, hword, wordIsUnconditionalBBl, hno _ _ (by decide), hno _ _ (by decide),
      instMnemonic, hmnemonic, if_pos (by decide),
      show (Mnemonic.ldr == Mnemonic.b) = false from rfl, show (Mnemonic.ldr == Mnemonic.bl) = false from rfl]
    simp
  have hconditional : isConditionalPcBranch inst = false := by
    unfold isConditionalPcBranch wordIsBCond wordIsCbzCbnz wordIsTbzTbnz
    simp only [hword, hno 0xff000010 0x54000000 (by decide), hno 0x7e000000 0x34000000 (by decide),
      hno 0x7e000000 0x36000000 (by decide), Bool.or_self, Bool.and_false]
  have hcopy : copyInst inst capacity = emitBytes { size := 4 } (store32le w) capacity := by
    rw [copyInst, hsize, hbytes]
  have hoff : wordHasOff19 w = true := by
    have hldr : wordIsLdrLiteral w = true := beq_iff_eq.2 (and_eq_of_refines hw (by decide) (by decide))
    rw [wordHasOff19, hldr, Bool.or_true, Bool.true_or]
  have hpatch (disp : BitVec 64) :
      patchWord w disp = some (setField 19 5 w ((disp.sshiftRight 2).setWidth 32)) := by
    rw [patchWord, if_pos hoff]
    rfl
  have htop (v : BitVec 32) : setField 19 5 w v &&& 0xff000000 = 0xdc000000 := by
    rw [setField_and 19 5 w v _ (by decide), hw]
  unfold relocate at hok ⊢
  simp only [hunconditional, hconditional, hcopy, hload, hpatch] at hok ⊢
  cases hfind : findPcRelOperand inst with
  | none =>
    simp only [hfind, Bool.false_eq_true, if_false] at hok ⊢
    rw [emitBytes_eq_of_ok hok]
    exact ⟨w, rfl, rfl, hw⟩
  | some operand =>
    simp only [hfind, Bool.false_eq_true, if_false] at hok ⊢
    cases hflag : inst.has InstFlag.pcRelative with
    | false =>
      simp only [hflag, Bool.false_eq_true, if_false] at hok ⊢
      rw [emitBytes_eq_of_ok hok]
      exact ⟨w, rfl, rfl, hw⟩
    | true =>
      simp only [hflag, if_true] at hok ⊢
      cases hdisp : relocDisp inst (operandTarget inst operand) relocatedAddress with
      | none =>
        rw [hdisp] at hok
        cases hok
      | some disp =>
        simp only [hdisp] at hok ⊢
        split_ifs at hok ⊢
        exact ⟨_, rfl, rfl, htop _⟩

end A64

/-! ## A relocated word -/

theorem emitAbs_clobbers {isCall : Bool} {target : BitVec 64} :
    (A64.emitAbs isCall target capacity).result.clobberMaskLo &&& A64.x16Mask ≠ 0 := by
  rw [A64.emitAbs, emitBytes_result]
  decide

theorem expandConditionalAbs_clobbers {target : BitVec 64} :
    (A64.expandConditionalAbs inst target capacity).result.clobberMaskLo &&& A64.x16Mask ≠ 0 := by
  have hx16 : A64.x16Mask &&& A64.x16Mask ≠ 0 := by decide
  unfold A64.expandConditionalAbs
  simp only
  split_ifs
  · exact hx16
  · exact hx16
  · dsimp only
    rw [A64.emitAbs, emitBytes_result]
    decide

/-- A word with an offset is relocated without a scratch register just by another offset, for the
same target. -/
theorem relocateInst_offset (hrows : A64.PcRelRows tables.a64) (harch : engine.target.arch = .aarch64)
    {kind : Isa.A64.OffsetKind} (hkind : offsetKind (load32le code) = some kind)
    (haddress : 4 ∣ address.toNat) (hrelocated : 4 ∣ relocatedAddress.toNat)
    (hdec : decodeOne tables engine code address prior = .ok inst)
    (hok : (relocateInst engine inst relocatedAddress capacity).status = .ok)
    (hclobber : (relocateInst engine inst relocatedAddress capacity).result.clobberMaskLo &&&
      A64.x16Mask = 0) :
    ∃ w', (relocateInst engine inst relocatedAddress capacity).code = store32le w' ∧
      (relocateInst engine inst relocatedAddress capacity).result.size = 4 ∧
      SameOutside kind (load32le code) w' ∧
      kind.target w' relocatedAddress = kind.target (load32le code) address := by
  obtain ⟨row, hmem, rfl, hw, -, inst0, hdecoded, rfl⟩ := decodeOne_pcRel hrows harch hkind hdec
  have hout (capacity : Nat) : relocateInst engine (applyOperandMetadata tables inst0) relocatedAddress capacity =
      A64.relocate inst0 relocatedAddress capacity := by
    simp only [relocateInst, harch, A64.relocate_metadata]
  have hlength : (applyOperandMetadata tables inst0).bytes.length = (applyOperandMetadata tables inst0).size := by
    change inst0.bytes.length = inst0.size
    rw [hdecoded.bytes, hdecoded.size, store32le_length]
  have hsteady : Steady (relocateInst engine (applyOperandMetadata tables inst0) relocatedAddress) :=
    relocateInst_steady hlength
  have hroom := hsteady.eq_of_ok hok (le_max_left _ 4)
  rw [← hroom] at hok hclobber ⊢
  rw [hout] at hok hclobber ⊢
  by_cases hrange : row.kind.InRange (A64.distance row.kind (row.kind.target (load32le code) address)
      relocatedAddress)
  · have hholds := (A64.inRange_iff_holds haddress hrelocated row.kind (load32le code)).1 hrange
    rw [A64.relocate_of_holds hmem hw hdecoded (le_max_right _ 4) hholds]
    exact ⟨_, rfl, rfl, Isa.A64.setOffset_and_not_fieldMask _ _ _, target_setOffset _ _ _ _ hholds⟩
  · rw [A64.relocate_of_not_inRange hmem hw hdecoded hrange] at hok hclobber
    split at hclobber
    · exact absurd hclobber emitAbs_clobbers
    next hnot =>
    split at hclobber
    · exact absurd hclobber expandConditionalAbs_clobbers
    next hconditional =>
    rw [if_neg hnot, if_neg hconditional] at hok
    cases hok

/-- A word that is relocated without a scratch register is carried to its new address. -/
theorem relocateInst_carries (hrows : A64.OffsetRows tables.a64) (harch : engine.target.arch = .aarch64)
    (haddress : 4 ∣ address.toNat) (hrelocated : 4 ∣ relocatedAddress.toNat)
    (hdec : decodeOne tables engine code address prior = .ok inst)
    (hplain : inst.has InstFlag.pcRelative = false → words.Plain (load32le code))
    (hok : (relocateInst engine inst relocatedAddress capacity).status = .ok)
    (hclobber : (relocateInst engine inst relocatedAddress capacity).result.clobberMaskLo &&&
      A64.x16Mask = 0) :
    ∃ w', (relocateInst engine inst relocatedAddress capacity).code = store32le w' ∧
      (relocateInst engine inst relocatedAddress capacity).result.size = 4 ∧
      words.Carries w' relocatedAddress (load32le code) address := by
  cases hkind : offsetKind (load32le code) with
  | some kind =>
    obtain ⟨w', hcode, hsize, hsame, htarget⟩ :=
      relocateInst_offset hrows.known harch hkind haddress hrelocated hdec hok hclobber
    exact ⟨w', hcode, hsize, words.carries_sameOutside hkind hsame htarget⟩
  | none =>
    obtain ⟨inst0, hdec0, rfl⟩ := decodeOne_aarch64 harch hdec
    have hfrom := A64.decodeOne_fromCode hdec0
    have hbytes : inst0.bytes = store32le (load32le code) := by
      rw [hfrom.bytes, A64.take_eq_store32le (A64.length_of_decodeOne hdec0)]
    have hout : relocateInst engine (applyOperandMetadata tables inst0) relocatedAddress capacity =
        A64.relocate inst0 relocatedAddress capacity := by
      simp only [relocateInst, harch, A64.relocate_metadata]
    rw [hout] at hok ⊢
    cases hflag : inst0.has InstFlag.pcRelative with
    | false =>
      rw [A64.relocate_of_not_pcRelative hflag, copyInst, hfrom.size, hbytes] at hok ⊢
      rw [emitBytes_eq_of_ok hok]
      exact ⟨load32le code, rfl, rfl, hplain hflag _ _⟩
    | true =>
      obtain ⟨htop, hmnemonic⟩ := A64.unallocated_of_relocate hrows hdec0 hflag hkind hok
      obtain ⟨w', hcode, hsize, htop'⟩ :=
        A64.relocate_unallocated htop hmnemonic hfrom.size hbytes hok
      refine ⟨w', hcode, hsize, ?_⟩
      funext s
      rw [words.exec_unallocated _ _ _ htop, words.exec_unallocated _ _ _ htop']

end AsmKit
