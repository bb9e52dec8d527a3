import AsmKit.A64.Expand
import AsmKit.Relocate.Metadata

/-!
# Relocating A64 words

`asmkit_relocate_inst` on the pc-relative words of A64, as `asmkit_decode_one` hands them out.
-/

namespace AsmKit

open SignedField
open Isa.A64 (OffsetKind offsetKind)

/-! ## A decoded word -/

section

variable {tables : Tables} {engine : Engine} {code : List Byte} {kind : OffsetKind}
  {address relocatedAddress : BitVec 64} {prior inst : Inst} {capacity : Nat}

theorem decodeOne_pcRel (hrows : A64.PcRelRows tables.a64) (harch : engine.target.arch = .aarch64)
    (hkind : offsetKind (load32le code) = some kind)
    (hdec : decodeOne tables engine code address prior = .ok inst) :
    ∃ row ∈ A64.pcRelRows, row.kind = kind ∧ load32le code &&& row.mask = row.value ∧
      A64.featuresMatch engine row.featureBits = true ∧
      ∃ inst0, A64.DecodedAs row (load32le code) address inst0 ∧
        inst = applyOperandMetadata tables inst0 := by
  obtain ⟨row, hmem, hrow, hw⟩ := A64.exists_row hkind
  obtain ⟨inst0, htarget, rfl⟩ := decodeOne_eq_ok hdec
  simp only [targetDecodeOne, harch] at htarget
  have hdecoded := A64.decodeOne_row hrows hmem hw (engine.mode_of_aarch64 harch)
    (A64.length_of_decodeOne htarget) address
  split at hdecoded
  · next hfeatures =>
    obtain ⟨inst1, hok, hdecoded⟩ := hdecoded
    rw [htarget] at hok
    cases hok
    exact ⟨row, hmem, hrow, hw, hfeatures, inst0, hdecoded, rfl⟩
  · rw [htarget] at hdecoded
    cases hdecoded

/-- The instruction at the start of the code names the target. -/
def DecodesToTarget (tables : Tables) (engine : Engine) (code : List Byte)
    (address target : BitVec 64) : Prop :=
  ∀ rest prior, ∃ inst operand, decodeOne tables engine (code ++ rest) address prior = .ok inst ∧
    A64.findPcRelOperand inst = some operand ∧ operand.absTarget = target

theorem decodesToTarget_row (hrows : A64.PcRelRows tables.a64)
    (harch : engine.target.arch = .aarch64) {row : A64.PcRelRow} (hmem : row ∈ A64.pcRelRows)
    {w : BitVec 32} (hw : w &&& row.mask = row.value)
    (hfeatures : A64.featuresMatch engine row.featureBits = true) (address : BitVec 64) :
    DecodesToTarget tables engine (store32le w) address (row.kind.target w address) := by
  intro rest prior
  have hload := load32le_store32le w rest
  have hdecoded := @A64.decodeOne_row tables.a64 engine hrows row hmem (store32le w ++ rest) (by rwa [hload])
    (engine.mode_of_aarch64 harch) (by simp) address
  rw [if_pos hfeatures, hload] at hdecoded
  obtain ⟨inst, hok, hdecoded⟩ := hdecoded
  have hfind := A64.findPcRelOperand_metadata tables inst
  rw [hdecoded.findPcRelOperand hmem, Option.map_some] at hfind
  refine ⟨applyOperandMetadata tables inst, _, ?_, hfind, ?_⟩
  · simp only [decodeOne, targetDecodeOne, harch, hok]
    rfl
  · rw [Operand.withInfos_absTarget]
    rfl

/-! ## Tables with nothing but the rows -/

def pcRelTables : Tables := { noTables with a64 := A64.pcRelTables }

theorem exists_decodeOne_pcRel {row : A64.PcRelRow} (hmem : row ∈ A64.pcRelRows) {w : BitVec 32}
    (hw : w &&& row.mask = row.value) (address : BitVec 64) :
    ∃ inst, decodeOne pcRelTables aarch64Engine (store32le w) address aarch64Engine.emptyInst = .ok inst := by
  have hfeatures : ∀ row ∈ A64.pcRelRows,
      A64.featuresMatch aarch64Engine row.featureBits = true := by decide
  obtain ⟨inst, -, hdec, -⟩ := @decodesToTarget_row pcRelTables aarch64Engine A64.pcRelTables_rows
    rfl row hmem w hw (hfeatures row hmem) address [] aarch64Engine.emptyInst
  rw [List.append_nil] at hdec
  exact ⟨inst, hdec⟩

/-! ## Keeping the target -/

/-- The word of a branch with link has bit 31. -/
def isBl (w : BitVec 32) : Bool := w &&& 0x80000000 == 0x80000000

theorem isBl_row {row : A64.PcRelRow} (hmem : row ∈ A64.pcRelRows) (hkind : row.kind = .imm26)
    {w : BitVec 32} (hw : w &&& row.mask = row.value) :
    isBl w = (row.instClass == .directCall) := by
  have hrow : ∀ row ∈ A64.pcRelRows, row.kind = .imm26 →
      (row.value &&& 0x80000000 == 0x80000000) = (row.instClass == .directCall) := by decide
  rw [isBl, A64.test_row hmem hw _ _ (by decide)]
  exact hrow row hmem hkind

theorem isConditional_row {row : A64.PcRelRow} (hmem : row ∈ A64.pcRelRows) {w : BitVec 32}
    (hw : w &&& row.mask = row.value) : A64.isConditional w = row.isConditional := by
  have hcond : A64.isConditional w =
      (A64.wordIsBCond w || A64.wordIsCbzCbnz w || A64.wordIsTbzTbnz w) := rfl
  rw [hcond, A64.wordIsBCond_row hmem hw, A64.wordIsCbzCbnz_row hmem hw,
    A64.wordIsTbzTbnz_row hmem hw]
  rfl

/-- The word at the relocated address names the old target, and it is the old word outside the
offset field. -/
structure KeepsTarget (tables : Tables) (engine : Engine) (kind : OffsetKind) (w : BitVec 32)
    (relocatedAddress target : BitVec 64) (out : EmitOut) : Prop where
  status : out.status = .ok
  size : out.result.size = 4
  word : ∃ w', out.code = store32le w' ∧ w' &&& ~~~kind.fieldMask = w &&& ~~~kind.fieldMask
  target : DecodesToTarget tables engine out.code relocatedAddress target

theorem target_setOffset (kind : OffsetKind) (w : BitVec 32) (relocatedAddress target : BitVec 64)
    (hholds : kind.Holds (A64.distance kind target relocatedAddress)) :
    kind.target (kind.setOffset w (A64.distance kind target relocatedAddress)) relocatedAddress =
      target := by
  rw [OffsetKind.target, Isa.A64.offset_setOffset kind w hholds, A64.distance, BitVec.add_comm,
    BitVec.sub_add_cancel]

/-- A pc-relative word keeps its target where the field holds the new distance. Elsewhere no word
with a cut offset comes out: a jump or call goes through the absolute stub, a conditional branch is
expanded, and everything else is refused. -/
theorem relocateInst_pcRel (hrows : A64.PcRelRows tables.a64)
    (harch : engine.target.arch = .aarch64) (hkind : offsetKind (load32le code) = some kind)
    (haddress : 4 ∣ address.toNat) (hrelocated : 4 ∣ relocatedAddress.toNat)
    (hdec : decodeOne tables engine code address prior = .ok inst) :
    if kind.Holds
        (A64.distance kind (kind.target (load32le code) address) relocatedAddress) then
      4 ≤ capacity →
        KeepsTarget tables engine kind (load32le code) relocatedAddress
          (kind.target (load32le code) address)
          (relocateInst engine inst relocatedAddress capacity)
    else
      relocateInst engine inst relocatedAddress capacity =
        if kind = .imm26 then
          A64.emitAbs (isBl (load32le code)) (kind.target (load32le code) address) capacity
        else if A64.isConditional (load32le code) then
          A64.expandConditionalAbs inst (kind.target (load32le code) address) capacity
        else { status := .branchOutOfRange } := by
  obtain ⟨row, hmem, rfl, hw, hfeatures, inst0, hdecoded, rfl⟩ :=
    decodeOne_pcRel hrows harch hkind hdec
  have hout : relocateInst engine (applyOperandMetadata tables inst0) relocatedAddress capacity =
      A64.relocate inst0 relocatedAddress capacity := by
    simp only [relocateInst, harch, A64.relocate_metadata]
  rw [hout]
  split
  · next hholds =>
    intro hcapacity
    have hdisjoint : ∀ row ∈ A64.pcRelRows, row.mask &&& ~~~row.kind.fieldMask = row.mask := by decide
    have hw' := (Isa.A64.setOffset_and_of_disjoint row.kind (load32le code)
      (A64.distance row.kind (row.kind.target (load32le code) address) relocatedAddress)
      (hdisjoint row hmem)).trans hw
    have htarget := decodesToTarget_row hrows harch hmem hw' hfeatures relocatedAddress
    rw [target_setOffset _ _ _ _ hholds] at htarget
    rw [A64.relocate_of_holds hmem hw hdecoded hcapacity hholds]
    exact ⟨rfl, rfl, ⟨_, rfl, Isa.A64.setOffset_and_not_fieldMask _ _ _⟩, htarget⟩
  · next hholds =>
    have hnot := mt (A64.inRange_iff_holds haddress hrelocated row.kind (load32le code)).1 hholds
    rw [A64.relocate_of_not_inRange hmem hw hdecoded hnot, isConditional_row hmem hw]
    split
    · next himm26 => rw [isBl_row hmem himm26 hw]
    · rfl

def ldrRow : A64.PcRelRow :=
  A64.literalRow 68994 A64.Mnemonic.ldr 0x58000000 (A64.regDesc .gpr 64) .load 0

/-- `ldr x0, [pc, #8]` at `0x1000`, moved to `0x2000`. -/
theorem relocateInst_pcRel_ldr :
    ∃ inst, decodeOne pcRelTables aarch64Engine (store32le 0x58000040) 0x1000 aarch64Engine.emptyInst = .ok inst ∧
      KeepsTarget pcRelTables aarch64Engine .imm19 0x58000040 0x2000 0x1008
        (relocateInst aarch64Engine inst 0x2000 4) := by
  have hrow : ldrRow ∈ A64.pcRelRows := by decide
  obtain ⟨inst, hdec⟩ := exists_decodeOne_pcRel hrow
    (by decide : 0x58000040 &&& ldrRow.mask = ldrRow.value) 0x1000
  have hkeeps := @relocateInst_pcRel pcRelTables aarch64Engine _ .imm19 0x1000 0x2000 _ _ 4
    A64.pcRelTables_rows rfl (by decide) (by decide) (by decide) hdec
  exact ⟨inst, hdec, (if_pos (by decide)).mp hkeeps (Nat.le_refl 4)⟩

/-! ## Expanding a conditional branch -/

theorem target_ne_of_not_inRange (hcond : A64.isConditional (load32le code) = true)
    (hkind : offsetKind (load32le code) = some kind) {target : BitVec 64}
    (hout : ¬ kind.InRange (A64.distance kind target relocatedAddress)) :
    target ≠ relocatedAddress + 20 := by
  obtain ⟨row, hmem, rfl, hw⟩ := A64.exists_row hkind
  rw [isConditional_row hmem hw] at hcond
  have hnear : ∀ row ∈ A64.pcRelRows, row.isConditional = true →
      row.kind ≠ .adrp ∧ row.kind.InRange 20 := by decide
  obtain ⟨hpage, hreach⟩ := hnear row hmem hcond
  rintro rfl
  apply hout
  have hbase : row.kind.base relocatedAddress = relocatedAddress := by
    cases hk : row.kind with
    | imm26 | imm19 | imm14 | adr => rfl
    | adrp => exact absurd hk hpage
  rwa [A64.distance, hbase, BitVec.add_comm, BitVec.add_sub_cancel]

theorem relocateInst_conditional (hrows : A64.PcRelRows tables.a64)
    (harch : engine.target.arch = .aarch64) (hkind : offsetKind (load32le code) = some kind)
    (hcond : A64.isConditional (load32le code) = true)
    (hdec : decodeOne tables engine code address prior = .ok inst)
    (hout : ¬ kind.InRange
      (A64.distance kind (kind.target (load32le code) address) relocatedAddress))
    (hcapacity : 20 ≤ capacity) :
    load32le inst.bytes = load32le code ∧
      relocateInst engine inst relocatedAddress capacity =
        { status := .ok, result := { size := 20, clobberMaskLo := A64.x16Mask }
          code := A64.expandedCode inst (kind.target (load32le code) address) } := by
  obtain ⟨row, hmem, rfl, hw, -, inst0, hdecoded, rfl⟩ := decodeOne_pcRel hrows harch hkind hdec
  have hbranch : ∀ row ∈ A64.pcRelRows, row.isConditional = true → row.kind ≠ .imm26 := by decide
  have hrow : row.isConditional = true := (isConditional_row hmem hw).symm.trans hcond
  refine ⟨hdecoded.load, ?_⟩
  simp only [relocateInst, harch, A64.relocate_metadata]
  rw [A64.relocate_of_not_inRange hmem hw hdecoded hout, if_neg (hbranch row hmem hrow), if_pos hrow]
  exact A64.expandConditionalAbs_ok hcapacity

/-- The 20 bytes do what the branch did, unless its condition is one of the two that always hold. -/
theorem relocateInst_expandsTo_iff (hrows : A64.PcRelRows tables.a64)
    (harch : engine.target.arch = .aarch64) (hkind : offsetKind (load32le code) = some kind)
    (hcond : A64.isConditional (load32le code) = true)
    (hdec : decodeOne tables engine code address prior = .ok inst)
    (hout : ¬ kind.InRange
      (A64.distance kind (kind.target (load32le code) address) relocatedAddress))
    (hcapacity : 20 ≤ capacity) :
    (relocateInst engine inst relocatedAddress capacity).status = .ok ∧
      (relocateInst engine inst relocatedAddress capacity).code.length = 20 ∧
      (A64.ExpandsTo (load32le code) relocatedAddress (kind.target (load32le code) address)
          (relocateInst engine inst relocatedAddress capacity) ↔
        A64.alwaysTaken (load32le code) = false) := by
  have htarget := target_ne_of_not_inRange hcond hkind hout
  obtain ⟨hload, heq⟩ := relocateInst_conditional hrows harch hkind hcond hdec hout hcapacity
  rw [heq]
  exact ⟨rfl, rfl, A64.expandsTo_iff hload hcond htarget _ _⟩

/-- `b.eq` to itself at `0x1000`, moved out of range. -/
theorem relocateInst_expandsTo_iff_beq :
    ∃ inst, decodeOne pcRelTables aarch64Engine (store32le 0x54000000) 0x1000 aarch64Engine.emptyInst = .ok inst ∧
      A64.ExpandsTo 0x54000000 0x40000000 0x1000 (relocateInst aarch64Engine inst 0x40000000 20) := by
  have hrow : A64.bCondRow ∈ A64.pcRelRows := by decide
  obtain ⟨inst, hdec⟩ := exists_decodeOne_pcRel hrow
    (by decide : 0x54000000 &&& A64.bCondRow.mask = A64.bCondRow.value) 0x1000
  obtain ⟨-, -, hiff⟩ := @relocateInst_expandsTo_iff pcRelTables aarch64Engine _ .imm19 0x1000
    0x40000000 _ _ 20 A64.pcRelTables_rows rfl (by decide) (by decide) hdec (by decide)
    (Nat.le_refl 20)
  exact ⟨inst, hdec, hiff.2 (by decide)⟩

/-- `b.al` to itself at `0x1000`: the inverted branch is `b.nv`, which is taken as well. -/
theorem relocateInst_not_expandsTo :
    ∃ inst, decodeOne pcRelTables aarch64Engine (store32le 0x5400000e) 0x1000 aarch64Engine.emptyInst = .ok inst ∧
      (relocateInst aarch64Engine inst 0x40000000 20).status = .ok ∧
      ¬ A64.ExpandsTo 0x5400000e 0x40000000 0x1000 (relocateInst aarch64Engine inst 0x40000000 20) := by
  have hrow : A64.bCondRow ∈ A64.pcRelRows := by decide
  obtain ⟨inst, hdec⟩ := exists_decodeOne_pcRel hrow
    (by decide : 0x5400000e &&& A64.bCondRow.mask = A64.bCondRow.value) 0x1000
  obtain ⟨hload, heq⟩ := @relocateInst_conditional pcRelTables aarch64Engine _ .imm19 0x1000
    0x40000000 _ _ 20 A64.pcRelTables_rows rfl (by decide) (by decide) hdec (by decide)
    (Nat.le_refl 20)
  refine ⟨inst, hdec, by rw [heq], ?_⟩
  rw [heq]
  exact A64.not_expandsTo_of_alwaysTaken hload (by decide) (by decide) _ _

end

end AsmKit
