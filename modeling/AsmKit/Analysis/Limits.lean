import AsmKit.A64.BranchRows
import AsmKit.Analysis.Inst
import AsmKit.Core.Target
import AsmKit.Relocate.A64
import AsmKit.Relocate.Forms
import AsmKit.X86.DirectRows

/-!
# The limits of a branch

Whether the interval that the analysis reports for a direct branch is the one its own encoding
reaches, and the one the relocation goes by.
-/

namespace AsmKit

open SignedField LittleEndian
open Isa.A64 (branchPlace)

/-! ## What an encoding reaches -/

def Inst.relativeOperand (arch : Arch) (inst : Inst) : Option Operand :=
  match arch with
  | .x86 => X86.pcRelOperand inst
  | .aarch64 => A64.findPcRelOperand inst
  | _ => none

/-- What the displacement is added to. -/
def Operand.pcBase (o : Operand) : BitVec 64 := o.absTarget - o.imm

/-- The bytes of a displacement on x86. -/
def X86.offsetSize (width : Nat) : Nat :=
  match width with
  | 8 => 1
  | 16 => 2
  | _ => 4

/-- The bytes are those of the instruction but for its offset, which is the last of it on x86. -/
def SameOpcode (arch : Arch) (address : BitVec 64) (o : Operand) (code code' : List Byte) : Prop :=
  code'.length = code.length ∧
    match arch with
    | .aarch64 => code'.drop 4 = code.drop 4 ∧ ∃ place, branchPlace (load32le code) = some place ∧
        place.SameOpcode (load32le code) (load32le code')
    | _ => ∀ k, k + X86.offsetSize o.width < (o.pcBase - address).toNat ∨ (o.pcBase - address).toNat ≤ k →
        code'.getD k 0 = code.getD k 0

/-- With another offset in its field, the instruction leads to the target. -/
def Reaches (tables : Tables) (engine : Engine) (code : List Byte) (address : BitVec 64) (prior inst : Inst)
    (o : Operand) (target : BitVec 64) : Prop :=
  ∃ code' inst' o', SameOpcode engine.target.arch address o code code' ∧
    decodeOne tables engine code' address prior = .ok inst' ∧ inst'.id = inst.id ∧
    inst'.relativeOperand engine.target.arch = some o' ∧ o'.absTarget = target

/-- The displacement lies in the reported interval. -/
def BranchInfo.Covers (branch : BranchInfo) (disp : BitVec 64) : Prop :=
  branch.minDisp ≤ disp.toInt ∧ disp.toInt ≤ branch.maxDisp

/-- `a64_relocate` keeps the form of a branch that far away; otherwise it expands it or gives up. -/
def A64.keepsForm (inst : Inst) (disp : BitVec 64) : Bool :=
  if isUnconditionalPcBranchOrCall inst then i64FitsI26Words4 disp
  else rangeMin inst ≤ disp.toInt && disp.toInt ≤ rangeMax inst

/-- The reported interval is what the encoding reaches and what the relocation goes by. -/
structure LimitsExact (tables : Tables) (engine : Engine) (code : List Byte) (address : BitVec 64)
    (prior inst : Inst) (branch : BranchInfo) : Prop where
  reaches : ∃ o, inst.relativeOperand engine.target.arch = some o ∧ ∀ target, Aligned engine target →
    (Reaches tables engine code address prior inst o target ↔ branch.Covers (target - o.pcBase))
  relocates : engine.target.arch = .aarch64 → ∀ disp : BitVec 64, 4 ∣ disp.toNat →
    (A64.keepsForm inst disp = true ↔ branch.Covers disp)
  /-- A branch that is relocated is one word again just where the interval has the distance. -/
  oneWord : engine.target.arch = .aarch64 → ∀ relocatedAddress capacity o,
    A64.findPcRelOperand inst = some o →
    4 ∣ (A64.operandTarget inst o - relocatedAddress).toNat →
    let out := relocateInst engine inst relocatedAddress capacity
    out.status = .ok →
      (out.result.size = 4 ↔ branch.Covers (A64.operandTarget inst o - relocatedAddress))

/-- The tables hold the rows of the direct branches. -/
def Tables.DirectRows (tables : Tables) (arch : Arch) : Prop :=
  match arch with
  | .x86 => X86.DirectRows tables.x86
  | .aarch64 => A64.DirectRows tables.a64
  | _ => False

theorem analyzeTransfer_hasTarget (inst : Inst) : (analyzeTransfer inst).2.hasTarget = false := by
  unfold analyzeTransfer
  split <;> rfl

/-! ## AArch64 -/

namespace A64

theorem form_size_iff {engine : Engine} {inst : Inst} {o : Operand} {relocatedAddress : BitVec 64}
    {result : EmitResult} (harch : engine.target.arch = .aarch64) (hop : findPcRelOperand inst = some o)
    (hflag : inst.has InstFlag.pcRelative = true)
    (hdirect : isUnconditionalPcBranchOrCall inst = true ∨ isAdrp inst = false)
    (hform : form engine inst relocatedAddress = .ok result) :
    result.size = 4 ↔ keepsForm inst (operandTarget inst o - relocatedAddress) = true := by
  simp only [form, hop, hflag, if_true] at hform
  rw [keepsForm]
  split at hform
  · next hbranch =>
    rw [if_pos hbranch]
    simp only [directForm, relativeInRange, relativeSize, absoluteForm, harch] at hform
    split at hform
    · next hfits =>
      cases hform
      exact iff_of_true rfl hfits
    · next hfits =>
      cases hform
      exact iff_of_false (by decide) hfits
  · next hbranch =>
    have hadrp := hdirect.resolve_left hbranch
    simp only [if_neg hbranch, pcRelForm, relocDisp, hadrp, Bool.false_eq_true, if_false] at hform ⊢
    have hreach : outOfReach inst (operandTarget inst o - relocatedAddress) ↔
        ¬ (rangeMin inst ≤ (operandTarget inst o - relocatedAddress).toInt &&
          (operandTarget inst o - relocatedAddress).toInt ≤ rangeMax inst) = true := by
      rw [Bool.and_eq_true, decide_eq_true_eq, decide_eq_true_eq, outOfReach]
      omega
    split at hform
    · next hout =>
      split at hform
      · cases hform
        exact iff_of_false (by decide) (hreach.1 hout)
      · cases hform
    · next hin =>
      split at hform
      · cases hform
        exact iff_of_true rfl (not_not.1 (mt hreach.2 hin))
      · cases hform

theorem relocateInst_size_iff {engine : Engine} {inst : Inst} {o : Operand} {relocatedAddress : BitVec 64}
    {capacity : Nat} (harch : engine.target.arch = .aarch64) (hsize : inst.bytes.length = inst.size)
    (hop : findPcRelOperand inst = some o) (hflag : inst.has InstFlag.pcRelative = true)
    (hdirect : isUnconditionalPcBranchOrCall inst = true ∨ isAdrp inst = false)
    (hok : (relocateInst engine inst relocatedAddress capacity).status = .ok) :
    (relocateInst engine inst relocatedAddress capacity).result.size = 4 ↔
      keepsForm inst (operandTarget inst o - relocatedAddress) = true := by
  have hcomes := @relocateInst_comesTo engine inst relocatedAddress hsize
  obtain ⟨result, hform, -⟩ := hcomes.ok_iff.1 hok
  rw [hform] at hcomes
  rw [hcomes.result_eq]
  rw [relocForm, harch] at hform
  exact form_size_iff harch hop hflag hdirect hform

variable {tables : AsmKit.Tables} {engine : Engine} {code : List Byte} {address : BitVec 64}
  {prior inst : Inst}

theorem branch_takes (harch : engine.target.arch = .aarch64) (hrows : DirectRows tables.a64)
    (hdec : AsmKit.decodeOne tables engine code address prior = .ok inst)
    (hdirect : inst.instClass.isDirectTransfer = true) (hflag : inst.has InstFlag.pcRelative = true) :
    ∃ id place, branchPlace (load32le code) = some place ∧ ∀ code',
      place.SameOpcode (load32le code) (load32le code') → 4 ≤ code'.length → ∃ inst' o',
        AsmKit.decodeOne tables engine code' address prior = .ok inst' ∧ inst'.id = id ∧
        findPcRelOperand inst' = some o' ∧ o'.imm = place.offset (load32le code') ∧
        o'.absTarget = address + place.offset (load32le code') := by
  have hmode := engine.mode_of_aarch64 harch
  obtain ⟨inst0, hdec0, rfl⟩ := decodeOne_aarch64 harch hdec
  obtain ⟨record, place, lead, desc, halone, hplace, hat, hw, hrecord⟩ :=
    branch_of_decodeOne hrows hmode hdec0 hdirect hflag
  obtain ⟨hpos, hbits, -⟩ := Isa.A64.branchPlace_bounds hplace
  have hfeatures : featuresMatch engine record.featureBits := by
    have hbranch := decodeOne_branch hat hpos (by omega) hrecord halone hw hmode
      (length_of_decodeOne hdec0) address
    split at hbranch
    · assumption
    · rw [hdec0] at hbranch
      cases hbranch
  refine ⟨record.id, place, hplace, fun code' hsame hlen => ?_⟩
  have hbranch := decodeOne_branch hat hpos (by omega) hrecord halone (hat.matches_of_sameOpcode hw hsame)
    hmode hlen address
  rw [if_pos hfeatures] at hbranch
  obtain ⟨inst', hdec', hid, -, o', hop, himm, htarget⟩ := hbranch
  refine ⟨applyOperandMetadata tables inst',
    o'.withInfos (tables.operandInfos inst'.arch inst'.id), ?_, hid, ?_, ?_, ?_⟩
  · simp only [AsmKit.decodeOne, targetDecodeOne, harch, hdec', Except.map]
  · rw [findPcRelOperand_metadata, hop, Option.map_some]
  · rw [Operand.withInfos_imm, himm]
  · rw [Operand.withInfos_absTarget, htarget]

theorem reaches_iff (harch : engine.target.arch = .aarch64) (hrows : DirectRows tables.a64)
    (hdec : AsmKit.decodeOne tables engine code address prior = .ok inst)
    (hdirect : inst.instClass.isDirectTransfer = true) (hflag : inst.has InstFlag.pcRelative = true) :
    ∃ o place, findPcRelOperand inst = some o ∧ branchPlace (load32le code) = some place ∧
      o.pcBase = address ∧ ∀ target, Reaches tables engine code address prior inst o target ↔
        Expressible place.bits 2 (target - address) := by
  obtain ⟨inst0, hdec0, -⟩ := decodeOne_aarch64 harch hdec
  have hlen := length_of_decodeOne hdec0
  obtain ⟨id, place, hplace, htakes⟩ := branch_takes harch hrows hdec hdirect hflag
  obtain ⟨inst', o, hdec', hid, hop, himm, htarget⟩ := htakes code rfl hlen
  rw [hdec] at hdec'
  cases hdec'
  have hbase : o.pcBase = address := by
    rw [Operand.pcBase, htarget, himm, BitVec.add_sub_cancel]
  refine ⟨o, place, hop, hplace, hbase, fun target => ?_⟩
  rw [← Isa.A64.exists_offset_iff (Isa.A64.branchPlace_bounds hplace).2.2 (load32le code)]
  constructor
  · rintro ⟨code', inst', o', ⟨hlen', hsame⟩, hdec', -, hop', rfl⟩
    simp only [harch, Inst.relativeOperand] at hsame hop'
    obtain ⟨-, place', hplace', hsame⟩ := hsame
    rw [hplace] at hplace'
    cases hplace'
    obtain ⟨inst1, o1, hdec1, -, hop1, -, htarget1⟩ := htakes code' hsame (by omega)
    rw [hdec'] at hdec1
    cases hdec1
    rw [hop'] at hop1
    cases hop1
    exact ⟨_, hsame, by rw [htarget1, BitVec.add_comm, BitVec.add_sub_cancel]⟩
  · rintro ⟨w', hsame, hoffset⟩
    have hload : load32le (store32le w' ++ code.drop 4) = w' := load32le_store32le w' _
    rw [← hload] at hsame hoffset
    obtain ⟨inst1, o1, hdec1, hid1, hop1, -, htarget1⟩ := htakes _ hsame (by simp)
    refine ⟨_, inst1, o1, ⟨by simp; omega, ?_⟩, hdec1, hid1.trans hid.symm, ?_, ?_⟩
    · simp only [harch]
      exact ⟨List.drop_left' (store32le_length w'), place, hplace, hsame⟩
    · simp only [harch, Inst.relativeOperand, hop1]
    · rw [htarget1, hoffset, BitVec.add_comm, BitVec.sub_add_cancel]

theorem analyze_hasTarget (h : (analyze inst).branch.hasTarget = true) :
    inst.instClass.isDirectTransfer = true ∧ inst.has InstFlag.pcRelative = true ∧
      (analyze inst).branch.minDisp = -134217728 ∧ (analyze inst).branch.maxDisp = 134217724 := by
  unfold analyze at h ⊢
  simp only at h ⊢
  split at h
  · rw [analyzeTransfer_hasTarget] at h
    cases h
  split at h
  · rw [analyzeTransfer_hasTarget] at h
    cases h
  · next hop hflag =>
    rw [if_neg hflag]
    exact ⟨h, not_not.1 hflag, rfl, rfl⟩

theorem covers_iff_inSpan {branch : BranchInfo} (hmin : branch.minDisp = -134217728)
    (hmax : branch.maxDisp = 134217724) (disp : BitVec 64) : branch.Covers disp ↔ InSpan 26 2 disp := by
  rw [BranchInfo.Covers, InSpan, hmin, hmax]
  norm_num

theorem keepsForm_iff_inSpan {disp : BitVec 64} (hdirect : isUnconditionalPcBranchOrCall inst = true)
    (hdisp : 4 ∣ disp.toNat) : keepsForm inst disp = true ↔ InSpan 26 2 disp := by
  have hdvd : (2 ^ 2 : Int) ∣ disp.toInt := (dvd_toInt_iff_toNat _ 2 (by decide)).2 hdisp
  rw [keepsForm, if_pos hdirect, i64FitsI26Words4_iff, inSpan_iff_fits hdvd, and_iff_right hdvd]

theorem isUnconditional_of_isB (harch : engine.target.arch = .aarch64) (hrows : PcRelRows tables.a64)
    (hdec : AsmKit.decodeOne tables engine code address prior = .ok inst)
    (hb : Isa.A64.isB (load32le code) = true) : isUnconditionalPcBranchOrCall inst = true := by
  obtain ⟨inst0, hdec0, rfl⟩ := decodeOne_aarch64 harch hdec
  have hoffset : Isa.A64.offsetKind (load32le code) = some .imm26 := by simp [Isa.A64.offsetKind, hb]
  obtain ⟨row, hmem, hkind, hw⟩ := exists_row hoffset
  obtain ⟨hdecoded, -⟩ := operands_of_decodeOne hrows hmem hw (engine.mode_of_aarch64 harch)
    (length_of_decodeOne hdec0) hdec0
  have hdirect := hdecoded.isUnconditional hmem hw
  rw [hkind] at hdirect
  exact hdirect

theorem bytes_length_of_decodeOne (harch : engine.target.arch = .aarch64)
    (hdec : AsmKit.decodeOne tables engine code address prior = .ok inst) :
    inst.bytes.length = inst.size := by
  obtain ⟨inst0, hdec0, rfl⟩ := decodeOne_aarch64 harch hdec
  have hfrom := decodeOne_fromCode hdec0
  have hlen := length_of_decodeOne hdec0
  show inst0.bytes.length = inst0.size
  rw [hfrom.bytes, hfrom.size, List.length_take_of_le hlen]

theorem limitsExact_iff_isB (harch : engine.target.arch = .aarch64) (hrows : DirectRows tables.a64)
    (hdec : AsmKit.decodeOne tables engine code address prior = .ok inst)
    (htarget : (analyze inst).branch.hasTarget = true) :
    LimitsExact tables engine code address prior inst (analyze inst).branch ↔
      Isa.A64.isB (load32le code) = true ∧ 4 ∣ address.toNat := by
  obtain ⟨hdirect, hflag, hmin, hmax⟩ := analyze_hasTarget htarget
  obtain ⟨o, place, hop, hplace, hbase, hreaches⟩ := reaches_iff harch hrows hdec hdirect hflag
  obtain ⟨hpos, hbits, -⟩ := Isa.A64.branchPlace_bounds hplace
  have hcovers := covers_iff_inSpan hmin hmax
  have haligned (target : BitVec 64) : Aligned engine target ↔ 2 ^ 2 ∣ target.toNat :=
    aligned_iff (n := 2 ^ 2) (by rw [engine.mode_of_aarch64 harch]; rfl)
  have hspan := expressible_iff_inSpan_iff address hpos hbits (by decide : 26 + 2 ≤ 64)
  rw [Isa.A64.branchPlace_bits_iff hplace] at hspan
  rw [show (4 : Nat) = 2 ^ 2 from rfl, ← hspan]
  constructor
  · rintro ⟨⟨o', hop', hexact⟩, -, -⟩
    simp only [harch, Inst.relativeOperand, hop, Option.some.injEq] at hop'
    subst hop'
    intro target htarget
    rw [← hreaches, hexact target ((haligned target).2 htarget), hbase, hcovers]
  · intro hexact
    have hbranch := isUnconditional_of_isB harch hrows.pcRel hdec (hspan.1 hexact).1
    have hkeeps (disp : BitVec 64) (hdisp : 4 ∣ disp.toNat) :
        keepsForm inst disp = true ↔ (analyze inst).branch.Covers disp :=
      (keepsForm_iff_inSpan hbranch hdisp).trans (hcovers disp).symm
    refine ⟨⟨o, by simp only [harch, Inst.relativeOperand, hop], fun target htarget => ?_⟩,
      fun _ => hkeeps, fun _ relocatedAddress capacity o' hop' hdisp hok => ?_⟩
    · rw [hreaches, hbase, hcovers]
      exact hexact target ((haligned target).1 htarget)
    · rw [relocateInst_size_iff harch (bytes_length_of_decodeOne harch hdec) hop' hflag (.inl hbranch) hok]
      exact hkeeps _ hdisp

end A64

/-! ## x86 -/

namespace X86

variable {tables : AsmKit.Tables} {engine : Engine} {code : List Byte} {address : BitVec 64}
  {prior inst : Inst}

theorem analyze_hasTarget (h : (analyze inst).branch.hasTarget = true) :
    inst.instClass.isDirectTransfer = true ∧ inst.has InstFlag.pcRelative = true ∧
      ∃ o branch, pcRelOperand inst = some o ∧ (analyze inst).branch = withBranchLimits branch o.width := by
  unfold analyze at h ⊢
  simp only at h ⊢
  split at h
  · rw [analyzeTransfer_hasTarget] at h
    cases h
  next hflag =>
  split at h
  · rw [analyzeTransfer_hasTarget] at h
    cases h
  · next o hop =>
    have htarget : ∀ branch width, (withBranchLimits branch width).hasTarget = branch.hasTarget := by
      intro branch width
      unfold withBranchLimits
      split <;> rfl
    rw [htarget] at h
    rw [if_neg hflag, hop]
    exact ⟨h, not_not.1 hflag, o, _, rfl, rfl⟩

theorem covers_iff_inSpan {branch : BranchInfo} {n : Nat} (hn : IsDispSize n) (disp : BitVec 64) :
    (withBranchLimits branch (n * 8)).Covers disp ↔ InSpan (8 * n) 0 disp := by
  rcases hn with rfl | rfl | rfl <;> simp [withBranchLimits, BranchInfo.Covers, InSpan]

theorem offsetSize_mul {n : Nat} (hn : IsDispSize n) : offsetSize (n * 8) = n := by
  rcases hn with rfl | rfl | rfl <;> rfl

/-! ### Bytes put in -/

theorem patchBytes_getD {patch : List Byte} {offset : Nat} (h : offset + patch.length ≤ code.length)
    {k : Nat} (hk : k < offset ∨ offset + patch.length ≤ k) :
    (patchBytes code patch offset).getD k 0 = code.getD k 0 := by
  have htake : (code.take offset).length = offset := by rw [List.length_take]; omega
  rw [patchBytes, List.append_assoc]
  rcases hk with hlt | hge
  · rw [List.getD_append _ _ _ _ (by omega), List.getD_eq_getElem?_getD, List.getElem?_take_of_lt hlt,
      ← List.getD_eq_getElem?_getD]
  · rw [List.getD_append_right _ _ _ _ (by omega), List.getD_append_right _ _ _ _ (by omega), htake,
      List.getD_eq_getElem?_getD, List.getElem?_drop, ← List.getD_eq_getElem?_getD]
    congr 1
    omega

theorem patchBytes_drop_take (patch : List Byte) {offset : Nat} (h : offset ≤ code.length) :
    ((patchBytes code patch offset).drop offset).take patch.length = patch := by
  rw [patchBytes, List.append_assoc, List.drop_left' (by rw [List.length_take]; omega), List.take_left]

/-! ### What a branch reaches -/

theorem branch_takes (harch : engine.target.arch = .x86) (hrows : DirectRows tables.x86)
    (hdec : AsmKit.decodeOne tables engine code address prior = .ok inst)
    (hdirect : inst.instClass.isDirectTransfer = true) (hflag : inst.has InstFlag.pcRelative = true)
    (hop : pcRelOperand inst ≠ none) :
    ∃ start n id, IsDispSize n ∧ start + n ≤ 2 * maxInstructionBytes ∧ start + n ≤ code.length ∧
      ∀ code', SameUpTo start code code' → start + n ≤ code'.length → ∃ inst' o',
        AsmKit.decodeOne tables engine code' address prior = .ok inst' ∧ inst'.id = id ∧
        pcRelOperand inst' = some o' ∧ IsDisplacement code' start n address o' := by
  obtain ⟨inst0, hdec0, rfl⟩ := decodeOne_x86 harch hdec
  have hop0 : pcRelOperand inst0 ≠ none := by
    intro hnone
    rw [pcRelOperand_metadata, hnone] at hop
    exact hop rfl
  obtain ⟨start, n, id, htakes⟩ := takesDisplacement_of_decodeOne hrows hdec0 hdirect hflag hop0
  refine ⟨start, n, id, htakes.size, htakes.bound, htakes.room, fun code' hsame hlen => ?_⟩
  obtain ⟨inst', hdec', hid, o, hops, ho⟩ := htakes.decodes code' hsame hlen
  have hwidth : o.width ≠ 0 := by
    rw [ho.width]
    rcases htakes.size with rfl | rfl | rfl <;> decide
  refine ⟨applyOperandMetadata tables inst', o.withInfos (tables.operandInfos inst'.arch inst'.id), ?_,
    hid, ?_, ?_⟩
  · simp only [AsmKit.decodeOne, targetDecodeOne, harch, hdec', Except.map]
  · rw [pcRelOperand_metadata, pcRelOperand_of_singleton hops ho.kind, Option.map_some]
  · refine ⟨?_, ?_, ?_, ?_⟩
    · rw [Operand.withInfos_kind, ho.kind]
    · rw [Operand.withInfos_imm, ho.imm]
    · rw [Operand.withInfos_absTarget, Operand.withInfos_imm, ho.absTarget]
    · rw [Operand.withInfos_width _ _ hwidth, ho.width]

theorem reaches_iff (harch : engine.target.arch = .x86) (hrows : DirectRows tables.x86)
    (hdec : AsmKit.decodeOne tables engine code address prior = .ok inst)
    (hdirect : inst.instClass.isDirectTransfer = true) (hflag : inst.has InstFlag.pcRelative = true)
    {o : Operand} (hop : pcRelOperand inst = some o) :
    ∃ n, IsDispSize n ∧ o.width = n * 8 ∧ ∀ target,
      Reaches tables engine code address prior inst o target ↔
        Expressible (8 * n) 0 (target - o.pcBase) := by
  obtain ⟨start, n, id, hsize, hbound, hroom, htakes⟩ :=
    branch_takes harch hrows hdec hdirect hflag (by rw [hop]; exact Option.some_ne_none o)
  obtain ⟨inst', o', hdec', hid, hop', ho⟩ := htakes code ⟨by omega, fun _ _ => rfl⟩ hroom
  rw [hdec] at hdec'
  cases hdec'
  rw [hop] at hop'
  cases hop'
  have hbase : o.pcBase = address + BitVec.ofNat 64 (start + n) := by
    rw [Operand.pcBase, ho.absTarget, BitVec.add_sub_cancel]
  have hstop : (o.pcBase - address).toNat = start + n := by
    rw [hbase, BitVec.add_comm, BitVec.add_sub_cancel, BitVec.toNat_ofNat, Nat.mod_eq_of_lt]
    unfold maxInstructionBytes at hbound
    omega
  have hfield : offsetSize o.width = n := by rw [ho.width, offsetSize_mul hsize]
  refine ⟨n, hsize, ho.width, fun target => ?_⟩
  constructor
  · rintro ⟨code', inst', o', ⟨hlen, hsame⟩, hdec', -, hop', rfl⟩
    simp only [harch, hfield, hstop, Inst.relativeOperand] at hsame hop'
    obtain ⟨inst1, o1, hdec1, -, hop1, ho1⟩ :=
      htakes code' ⟨by omega, fun k hk => hsame k (.inl (by omega))⟩ (by omega)
    rw [hdec'] at hdec1
    cases hdec1
    rw [hop'] at hop1
    cases hop1
    refine ⟨wordOf (8 * n) ((code'.drop start).take n), ?_⟩
    rw [BitVec.shiftLeft_zero, ← readSigned_eq hsize, ho1.absTarget, hbase, ho1.imm, BitVec.add_comm,
      BitVec.add_sub_cancel]
  · rintro ⟨f, hf⟩
    have hpatch : start + (bytesOf n f).length ≤ code.length := by rw [bytesOf_length]; exact hroom
    have hlen : (patchBytes code (bytesOf n f) start).length = code.length := patchBytes_length hpatch
    have hsame (k : Nat) (hk : k < start ∨ start + n ≤ k) :
        (patchBytes code (bytesOf n f) start).getD k 0 = code.getD k 0 :=
      patchBytes_getD hpatch (by rwa [bytesOf_length])
    obtain ⟨inst1, o1, hdec1, hid1, hop1, ho1⟩ :=
      htakes (patchBytes code (bytesOf n f) start) ⟨by omega, fun k hk => hsame k (.inl hk)⟩ (by omega)
    refine ⟨_, inst1, o1, ⟨hlen, ?_⟩, hdec1, hid1.trans hid.symm, ?_, ?_⟩
    · simp only [harch, hfield, hstop]
      exact fun k hk => hsame k (hk.imp_left (by omega))
    · simp only [harch, Inst.relativeOperand, hop1]
    · have hread : readSigned ((patchBytes code (bytesOf n f) start).drop start) n = f.signExtend 64 := by
        have htake := patchBytes_drop_take (bytesOf n f) (by omega : start ≤ code.length)
        rw [bytesOf_length] at htake
        rw [readSigned_eq hsize, htake, wordOf_bytesOf n f (Nat.le_refl _)]
      rw [BitVec.shiftLeft_zero] at hf
      rw [ho1.absTarget, ho1.imm, hread, hf, ← hbase, BitVec.add_comm, BitVec.sub_add_cancel]

theorem limitsExact (harch : engine.target.arch = .x86) (hrows : DirectRows tables.x86)
    (hdec : AsmKit.decodeOne tables engine code address prior = .ok inst)
    (htarget : (analyze inst).branch.hasTarget = true) :
    LimitsExact tables engine code address prior inst (analyze inst).branch := by
  obtain ⟨hdirect, hflag, o, branch, hop, hbranch⟩ := analyze_hasTarget htarget
  obtain ⟨n, hsize, hwidth, hreaches⟩ := reaches_iff harch hrows hdec hdirect hflag hop
  refine ⟨⟨o, by simp only [harch, Inst.relativeOperand, hop], fun target _ => ?_⟩,
    fun ha => absurd (harch.symm.trans ha) (by decide),
    fun ha => absurd (harch.symm.trans ha) (by decide)⟩
  have hpos : 0 < 8 * n ∧ 8 * n ≤ 64 := by rcases hsize with rfl | rfl | rfl <;> decide
  rw [hreaches, hbranch, hwidth, covers_iff_inSpan hsize, expressible_iff hpos.1 hpos.2, pow_zero,
    and_iff_right (one_dvd _)]

end X86

/-! ## The limits -/

/-- The limits are exact on x86; on AArch64 they are for `b` and `bl`, at an aligned address. -/
theorem limitsExact_iff {tables : Tables} {engine : Engine} {code : List Byte} {address : BitVec 64}
    {prior inst : Inst} {semantics : InstSemantics} (hrows : tables.DirectRows engine.target.arch)
    (hdec : decodeOne tables engine code address prior = .ok inst)
    (hanalyze : analyzeInst engine inst = .ok semantics) (htarget : semantics.branch.hasTarget = true) :
    LimitsExact tables engine code address prior inst semantics.branch ↔
      (engine.target.arch = .aarch64 → Isa.A64.isB (load32le code) = true ∧ 4 ∣ address.toNat) := by
  unfold analyzeInst at hanalyze
  unfold Tables.DirectRows at hrows
  cases harch : engine.target.arch with
  | x86 =>
    simp only [harch] at hanalyze hrows
    cases hanalyze
    exact iff_of_true (X86.limitsExact harch hrows hdec htarget) fun ha => by cases ha
  | aarch64 =>
    simp only [harch] at hanalyze hrows
    cases hanalyze
    rw [A64.limitsExact_iff_isB harch hrows hdec htarget]
    exact ⟨fun h _ => h, fun h => h rfl⟩
  | arm | bpf | wasm =>
    simp only [harch] at hrows

/-- `b` to itself, at 0x1000. -/
def selfBranchInst : Inst :=
  (decodeOne pcRelTables aarch64Engine (store32le 0x14000000) 0x1000
    aarch64Engine.emptyInst).toOption.getD aarch64Engine.emptyInst

theorem limitsExact_iff_b : ∃ semantics,
    decodeOne pcRelTables aarch64Engine (store32le 0x14000000) 0x1000 aarch64Engine.emptyInst =
      .ok selfBranchInst ∧
    analyzeInst aarch64Engine selfBranchInst = .ok semantics ∧
    LimitsExact pcRelTables aarch64Engine (store32le 0x14000000) 0x1000 aarch64Engine.emptyInst
      selfBranchInst semantics.branch := by
  have hrows : pcRelTables.DirectRows aarch64Engine.target.arch := A64.pcRelTables_direct
  have hdec : decodeOne pcRelTables aarch64Engine (store32le 0x14000000) 0x1000
      aarch64Engine.emptyInst = .ok selfBranchInst := rfl
  obtain ⟨semantics, hanalyze, htarget⟩ : ∃ semantics,
    analyzeInst aarch64Engine selfBranchInst = .ok semantics ∧ semantics.branch.hasTarget = true :=
      ⟨_, rfl, rfl⟩
  exact ⟨semantics, hdec, hanalyze,
    (limitsExact_iff hrows hdec hanalyze htarget).2 fun _ => by decide⟩

/-- `tbz w0, #0` to itself, at 0x1000. -/
def selfTestInst : Inst :=
  (decodeOne pcRelTables aarch64Engine (store32le 0x36000000) 0x1000
    aarch64Engine.emptyInst).toOption.getD aarch64Engine.emptyInst

/-- Its limits are those of `b`, 4096 times as wide as its 14 bits. -/
theorem not_limitsExact_tbz : ∃ semantics,
    decodeOne pcRelTables aarch64Engine (store32le 0x36000000) 0x1000 aarch64Engine.emptyInst =
      .ok selfTestInst ∧
    analyzeInst aarch64Engine selfTestInst = .ok semantics ∧ semantics.branch.hasTarget = true ∧
    semantics.branch.maxDisp = 134217724 ∧ A64.rangeMax selfTestInst = 32764 ∧
    ¬ LimitsExact pcRelTables aarch64Engine (store32le 0x36000000) 0x1000 aarch64Engine.emptyInst
      selfTestInst semantics.branch := by
  have hdec : decodeOne pcRelTables aarch64Engine (store32le 0x36000000) 0x1000
      aarch64Engine.emptyInst = .ok selfTestInst := rfl
  refine ⟨A64.analyze selfTestInst, hdec, rfl, rfl, rfl, rfl, fun hexact => ?_⟩
  obtain ⟨hb, -⟩ := (A64.limitsExact_iff_isB rfl A64.pcRelTables_direct hdec rfl).1 hexact
  exact absurd hb (by decide)

end AsmKit
