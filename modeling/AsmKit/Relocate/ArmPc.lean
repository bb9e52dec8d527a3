import AsmKit.Lib.Pattern
import AsmKit.Arm.Rows
import AsmKit.Relocate.Arm

/-!
# ARM instructions that read the pc

Only the class and the pc-relative flag keep an instruction from being copied, and no operand of
the decoded instruction is looked at.
-/

namespace AsmKit

open LittleEndian SignedField BitPattern

namespace Arm

/-! ## What a copy is -/

/-- The output is the instruction itself. -/
def Copied (inst : Inst) (out : EmitOut) : Prop := out.status = .ok ∧ out.code = inst.bytes

/-- The relocation does not come to the copy. -/
def Handled (inst : Inst) : Prop :=
  inst.has InstFlag.pcRelative = true ∨ inst.instClass = .armIt ∨ inst.instClass = .directBranch ∨
    inst.instClass = .directCall

instance (inst : Inst) : Decidable (Handled inst) := inferInstanceAs (Decidable (_ ∨ _))

theorem copied_metadata (tables : AsmKit.Tables) (inst : Inst) (out : EmitOut) :
    Copied (applyOperandMetadata tables inst) out ↔ Copied inst out := Iff.rfl

theorem handled_metadata (tables : AsmKit.Tables) (inst : Inst) :
    Handled (applyOperandMetadata tables inst) ↔ Handled inst := Iff.rfl

section

variable {tables : Tables} {engine : Engine} {code : List Byte} {address relocatedAddress : BitVec 64}
  {inst : Inst} {capacity : Nat}

theorem copied_of_not_handled (h : ¬ Handled inst) :
    Copied inst (relocate engine inst relocatedAddress inst.size) := by
  obtain ⟨hflag, hit, hbranch, hcall⟩ : inst.has InstFlag.pcRelative ≠ true ∧
      inst.instClass ≠ .armIt ∧ inst.instClass ≠ .directBranch ∧ inst.instClass ≠ .directCall := by
    simpa only [Handled, not_or] using h
  rw [relocate, if_neg hit, if_neg (not_or.2 ⟨hbranch, hcall⟩), if_neg hflag, copyInst,
    emitBytes_ok (Nat.le_refl inst.size)]
  exact ⟨rfl, rfl⟩

/-! ## A rebuilt branch is never the old one -/

theorem relocateDirect_forms {isCall : Bool} (hcall : (inst.instClass == .directCall) = isCall)
    (h : (relocateDirect engine inst relocatedAddress capacity).status = .ok) :
    ((emitRel engine isCall relocatedAddress inst.operand0.absTarget capacity).status = .ok ∧
      relocateDirect engine inst relocatedAddress capacity =
        emitRel engine isCall relocatedAddress inst.operand0.absTarget capacity) ∨
    (engine.config.mode = .armA32 ∧ relocateDirect engine inst relocatedAddress capacity =
      { status := .ok, result := absResultA32 isCall
        code := absCodeA32 isCall inst.operand0.absTarget }) := by
  subst hcall
  unfold relocateDirect at h ⊢
  simp only at h ⊢
  split at h
  · next hrel =>
    rw [if_pos hrel]
    exact .inl ⟨h, rfl⟩
  · next hrel =>
    rw [if_neg hrel]
    refine .inr ⟨?_, emitBytes_eq_of_ok h⟩
    by_contra hmode
    exact hrel (.inr (.inr hmode))

theorem a32BranchDisp_relWordA32 (isCall : Bool) {disp : BitVec 64}
    (hfits : i64FitsI24Words4 disp = true) :
    a32BranchDisp (relWordA32 isCall disp) = disp + 8 := by
  obtain ⟨hdvd, hfit⟩ := (i64FitsI24Words4_iff _).1 hfits
  rw [a32BranchDisp_eq, field_relWordA32,
    scaled_field_round_trip (w := 64) _ (by omega) (by omega) (by omega) hdvd hfit]

theorem address_eq_of_a32Branch {isCall : Bool} {target : BitVec 64}
    (hfits : i64FitsI24Words4 (relDispA32 relocatedAddress target) = true)
    (htarget : target =
      address + a32BranchDisp (relWordA32 isCall (relDispA32 relocatedAddress target))) :
    relocatedAddress = address := by
  rw [a32BranchDisp_relWordA32 isCall hfits, relDispA32] at htarget
  grind

theorem thumbBranchDisp_relWordThumb {disp : BitVec 64} (hfits : fitsThumb disp = true) :
    thumbBranchDisp (relWordThumb disp) 11 0x07ff = disp + 4 := by
  obtain ⟨hdvd, hfit⟩ := (fitsThumb_iff _).1 hfits
  have hmask : (relWordThumb disp).setWidth 32 &&& 0x07ff =
      ((disp.sshiftRight 1).setWidth 11).setWidth 32 := by
    have hfield : field 11 0 ((relWordThumb disp).setWidth 32) = field 11 0 (relWordThumb disp) := by
      rw [field, field, BitVec.ushiftRight_zero, BitVec.ushiftRight_zero,
        BitVec.setWidth_setWidth_of_le _ (by omega)]
    rw [← field_relWordThumb, ← hfield]
    exact and_mask_eq_setWidth_field 11 _
  have hsign := xor_sub_setWidth (w := 64) (m := 32) ((disp.sshiftRight 1).setWidth 11)
    (by omega) (by omega) (by omega)
  have hround := scaled_field_round_trip (w := 64) _ (by omega) (by omega) (by omega) hdvd hfit
  rw [BitVec.shiftLeft_eq_mul_twoPow] at hround
  rw [thumbBranchDisp, signExtend, hmask]
  exact (congrArg (· * 2 + 4) hsign).trans (congrArg (· + 4) hround)

theorem genDecodeOne_thumbB (hmode : engine.config.mode = .armThumb) {h : BitVec 16}
    (hload : load16le code = h) (hlen : 2 ≤ code.length) (hbranch : h &&& 0xf800 = 0xe000) :
    genDecodeOne tables engine code address =
      .ok (finish engine code address 2 Id.thumbB .directBranch
        (InstFlag.pcRelative ||| InstFlag.direct ||| InstFlag.terminator)
        [pcOperand 0 (thumbBranchDisp h 11 0x07ff) (address + thumbBranchDisp h 11 0x07ff) 11]) := by
  have hit : ¬ (h &&& 0xff00 = 0xbf00 ∧ h &&& 0x000f ≠ 0) := by
    rintro ⟨hpattern, -⟩
    exact and_ne_of_disjoint hbranch (by decide) hpattern
  simp only [genDecodeOne, hmode, decodeThumb, hload, if_neg (Nat.not_lt.2 hlen), if_neg hit, hbranch,
    if_true]

theorem decodeOne_thumbB_target (hmode : engine.config.mode = .armThumb) {h : BitVec 16}
    (hload : load16le code = h) (hlen : 2 ≤ code.length) (hbranch : h &&& 0xf800 = 0xe000)
    (hdec : decodeOne tables engine code address = .ok inst) :
    inst.operand0.absTarget = address + thumbBranchDisp h 11 0x07ff := by
  obtain ⟨inst0, hgen, rfl⟩ := decodeOne_eq_ok hdec
  rw [genDecodeOne_thumbB hmode hload hlen hbranch] at hgen
  cases hgen
  rfl

theorem genDecodeOne_literal (hmode : engine.config.mode = .armA32) {w : BitVec 32}
    (hload : load32le code = w) (hlen : 4 ≤ code.length) (hw : w = 0xe51ff004 ∨ w = 0xe59fc004)
    (hdec : genDecodeOne tables engine code address = .ok inst) : inst.instClass = .load := by
  simp only [genDecodeOne, hmode, decodeA32, hload, if_neg (Nat.not_lt.2 hlen)] at hdec
  rcases hw with rfl | rfl
  · rw [if_neg (by decide), if_neg (by decide), if_neg (by decide), if_pos (by decide)] at hdec
    cases hdec
    rfl
  · rw [if_neg (by decide), if_neg (by decide), if_neg (by decide), if_pos (by decide)] at hdec
    cases hdec
    rfl

theorem not_copied_relocateDirect (hdec : decodeOne tables engine code address = .ok inst)
    (hclass : inst.instClass = .directBranch ∨ inst.instClass = .directCall)
    (hne : relocatedAddress ≠ address) :
    ¬ Copied inst (relocateDirect engine inst relocatedAddress capacity) := by
  rintro ⟨hok, hcopy⟩
  have hcode : code =
      (relocateDirect engine inst relocatedAddress capacity).code ++ code.drop inst.size := by
    rw [hcopy, (decodeOne_fromCode hdec).bytes, List.take_append_drop]
  rcases relocateDirect_forms rfl hok with ⟨hrel, hout⟩ | ⟨hmode, hout⟩
  · rcases emitRel_of_ok hrel with ⟨hmode, hfits, hform⟩ | ⟨hmode, -, hfits, hform⟩
    · rw [hout, hform] at hcode
      have hload : load32le code = _ := (congrArg load32le hcode).trans (load32le_store32le _ _)
      have hinst := decodeOne_branch hmode (by rw [hload]; exact isB_relWordA32 _ _) hdec
      have htarget := congrArg (fun i : Inst => i.operand0.absTarget) hinst
      rw [hload] at htarget
      exact hne (address_eq_of_a32Branch hfits htarget)
    · rw [hout, hform] at hcode
      have hload : load16le code = _ := (congrArg load16le hcode).trans (load16le_store16le _ _)
      have hlen : 2 ≤ code.length := by
        rw [hcode]
        simp
      have htarget := decodeOne_thumbB_target hmode hload hlen (relWordThumb_and _) hdec
      rw [thumbBranchDisp_relWordThumb hfits, relDispThumb] at htarget
      grind
  · rw [hout] at hcode
    have hlen : 4 ≤ code.length := by
      rw [hcode, List.length_append, absCodeA32_length]
      cases (inst.instClass == .directCall) <;> simp [absResultA32] <;> omega
    have hload : load32le code = 0xe51ff004 ∨ load32le code = 0xe59fc004 := by
      rw [hcode]
      cases (inst.instClass == .directCall)
      · left
        rw [absCodeA32, if_neg (by decide), List.append_assoc, load32le_store32le]
      · right
        rw [absCodeA32, if_pos rfl, List.append_assoc, List.append_assoc, load32le_store32le]
    obtain ⟨inst0, hgen, rfl⟩ := decodeOne_eq_ok hdec
    have hloads := genDecodeOne_literal hmode rfl hlen hload hgen
    obtain ⟨flags, operands, hmark⟩ := mark_eq inst0
    rw [hmark] at hclass
    simp [hloads] at hclass

theorem not_copied_of_handled (hdec : decodeOne tables engine code address = .ok inst)
    (hne : relocatedAddress ≠ address) (h : Handled inst) :
    ¬ Copied inst (relocate engine inst relocatedAddress capacity) := by
  unfold relocate
  split
  · rintro ⟨hok, -⟩
    cases hok
  · next hit =>
    split
    · next hdirect => exact not_copied_relocateDirect hdec hdirect hne
    · next hdirect =>
      have hflag : inst.has InstFlag.pcRelative = true := by
        rcases h with hflag | hclass | hclass | hclass
        · exact hflag
        · exact absurd hclass hit
        · exact absurd (.inl hclass) hdirect
        · exact absurd (.inr hclass) hdirect
      rw [if_pos hflag]
      rintro ⟨hok, -⟩
      cases hok

end

/-! ## Reading the pc -/

/-- A register list of a store holds the pc. The register number of a list is the 16-bit mask of
its registers, and the rows call the list of a load read as well. -/
def listReadsPc (instClass : InstClass) (o : Operand) : Bool :=
  instClass == .store && o.reg.testBit 15

/-- A register operand that is read, a shift amount, a base or an index is the pc, or the operand
is an offset from it. -/
def operandReadsPc (instClass : InstClass) (o : Operand) : Bool :=
  if o.kind == .reg && hasFlag o.flags OperandFlag.registerList then listReadsPc instClass o
  else
    (o.kind == .reg &&
      (o.reg == Reg.pc && hasFlag o.flags OperandFlag.read || o.shiftReg == Reg.pc)) ||
    (o.kind == .mem && (o.mem.base == Reg.pc || o.mem.index == Reg.pc)) || o.kind == .pcRel

def ReadsPc (inst : Inst) : Prop := inst.operands.any (operandReadsPc inst.instClass) = true

instance (inst : Inst) : Decidable (ReadsPc inst) := inferInstanceAs (Decidable (_ = true))

/-- `stmdb sp!, {fp, ip, lr, pc}` stores the pc, `push {r4}` does not, though its mask is the id of
the pc. -/
example : let list (mask : Nat) : Operand :=
      { Operand.ofReg mask 16 with flags := OperandFlag.registerList ||| OperandFlag.read }
    operandReadsPc .store (list 0xd800) = true ∧ operandReadsPc .store (list 0x0010) = false ∧
      operandReadsPc .load (list 0x8010) = false := by
  decide

end Arm

/-! ## `asmkit_relocate_inst` on ARM instructions -/

section

variable {tables : Tables} {engine : Engine} {code : List Byte} {address relocatedAddress : BitVec 64}
  {prior inst : Inst}

/-- An instruction that reads the pc is not copied, whatever room there is. -/
def KeepsPc (engine : Engine) (inst : Inst) (relocatedAddress : BitVec 64) : Prop :=
  Arm.ReadsPc inst → ∀ capacity,
    ¬ Arm.Copied inst (relocateInst engine inst relocatedAddress capacity)

end

end AsmKit
