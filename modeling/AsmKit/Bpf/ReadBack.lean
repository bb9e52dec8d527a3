import AsmKit.Bpf.Encode
import Mathlib.Tactic.IntervalCases

/-!
# BPF words, written and read

What the decoder reads of the word that a form left: the immediates and targets that were given, and
a register as the id of its number.
-/

namespace AsmKit.Bpf

open SignedField

variable {record : Record} {inst : Inst} {word blank : Word} {code tail : List Byte} {size : Nat}

/-! ## Fields -/

/-- The code begins with the word. -/
structure Holds (code : List Byte) (word : Word) : Prop where
  opcode : code.getD 0 0 = word.opcode
  regs : code.getD 1 0 = word.regs
  off : off code = word.off
  imm : imm code = word.imm

theorem holds_bytes (hsize : size = 8 ∨ size = 16) (word : Word) (tail : List Byte) :
    Holds (word.bytes size ++ tail) word := by
  rcases hsize with rfl | rfl
  · exact ⟨rfl, rfl, load16le_store16le word.off (store32le word.imm ++ tail),
      load32le_store32le word.imm tail⟩
  · exact ⟨rfl, rfl, load16le_store16le word.off (store32le word.imm ++ store32le 0 ++
      store32le word.high ++ tail), load32le_store32le word.imm (store32le 0 ++ store32le word.high ++ tail)⟩

theorem high_bytes (word : Word) (tail : List Byte) :
    load32le ((word.bytes 16 ++ tail).drop 12) = word.high :=
  load32le_store32le word.high tail

theorem length_bytes (hsize : size = 8 ∨ size = 16) (word : Word) : (word.bytes size).length = size := by
  rcases hsize with rfl | rfl <;> rfl

/-! ## Registers -/

theorem ofNat_eq_regsByte (dst : Nat) : BitVec.ofNat 8 dst = regsByte 0 dst := by
  rw [regsByte, BitVec.zero_shiftLeft, BitVec.zero_or]

theorem regsByte_fields {s d : Nat} (hs : s ≤ 15) (hd : d ≤ 15) :
    regsByte s d >>> 4 = BitVec.ofNat 8 s ∧ regsByte s d &&& 0x0f = BitVec.ofNat 8 d := by
  interval_cases s <;> interval_cases d <;> decide

theorem Holds.src {s d : Nat} (h : Holds code word) (hregs : word.regs = regsByte s d)
    (hs : regOk s = true) (hd : regOk d = true) : src code = BitVec.ofNat 8 s := by
  rw [Bpf.src, h.regs, hregs]
  exact (regsByte_fields (of_decide_eq_true hs) (of_decide_eq_true hd)).1

theorem Holds.dst {s d : Nat} (h : Holds code word) (hregs : word.regs = regsByte s d)
    (hs : regOk s = true) (hd : regOk d = true) : dst code = BitVec.ofNat 8 d := by
  rw [Bpf.dst, h.regs, hregs]
  exact (regsByte_fields (of_decide_eq_true hs) (of_decide_eq_true hd)).2

/-! ## Immediates and offsets -/

theorem imm_of_fits {v : BitVec 64} (h : i64FitsI32 v = true) : (v.setWidth 32).signExtend 64 = v :=
  signExtend_setWidth_of_fits v (by omega) (by omega) ((i64FitsI32_iff v).1 h)

theorem off_of_fits {v : BitVec 64} (h : i64FitsI16 v = true) : (v.setWidth 16).signExtend 64 = v :=
  signExtend_setWidth_of_fits v (by omega) (by omega) ((i64FitsI16_iff v).1 h)

theorem sdiv_mul_of_aligned {v : BitVec 64} (h : v &&& 7 = 0) : v.sdiv 8 * 8 = v := by
  have hnat : v.toNat % 2 ^ 3 = 0 := by
    have hand := congrArg BitVec.toNat h
    rw [BitVec.toNat_and] at hand
    rw [← Nat.and_two_pow_sub_one_eq_mod]
    exact hand
  obtain ⟨q, hq⟩ := (dvd_toInt_iff_toNat v 3 (by omega)).2 (Nat.dvd_of_mod_eq_zero hnat)
  rw [show (2 : Int) ^ 3 = 8 from rfl] at hq
  have hlo := BitVec.le_toInt v
  have hhi := BitVec.toInt_lt (x := v)
  have height : (8 : BitVec 64).toInt = 8 := rfl
  have hdiv : (v.sdiv 8).toInt = q := by
    rw [BitVec.toInt_sdiv, height, hq, Int.mul_tdiv_cancel_left q (by omega)]
    exact Int.bmod_eq_of_le (by omega) (by omega)
  apply BitVec.eq_of_toInt_eq
  rw [BitVec.toInt_mul, hdiv, height, hq, Int.mul_comm]
  exact Int.bmod_eq_of_le (by omega) (by omega)

/-! ## What a form fills -/

def Form.fillsOff : Form → Bool
  | .loadMem | .storeMemReg | .storeMemImm | .branch | .branchRR | .branchRI => true
  | _ => false

def Form.fillsImm : Form → Bool
  | .aluRI | .storeMemImm | .branchRI | .callImm | .ldImm64 | .loadAbs => true
  | _ => false

def Form.fillsSrc : Form → Bool
  | .aluRR | .loadMem | .storeMemReg | .branchRR | .loadInd => true
  | _ => false

/-- The target of a branch as it is read back. -/
def targetOperand (inst : Inst) (target : Operand) : Operand :=
  let disp := branchDisp inst target
  { kind := .pcRel, imm := disp, absTarget := inst.address + 8 + disp, width := 16 }

/-- The operand of the register with the number. -/
def numberOperand (index number width : Nat) : Operand := regOperand index (BitVec.ofNat 8 number) width

/-- A memory operand off the register with the number. -/
def baseOperand (index : Nat) (operand : Operand) : Operand :=
  memOperand index (regId (BitVec.ofNat 8 operand.mem.base) 64) operand.mem.displacement 64

/-- The operands that the decoder makes of those that were given. -/
def readBack (record : Record) (inst : Inst) : List Operand :=
  let width := record.width
  match record.form, inst.operands with
  | .aluRR, a :: b :: _ => [numberOperand 0 a.reg width, numberOperand 1 b.reg width]
  | .aluRI, a :: b :: _ => [numberOperand 0 a.reg width, immOperand 1 b.imm 32]
  | .aluDst, operands =>
    -- A return has no operand, and register 0 stands in its word.
    [numberOperand 0 (if record.kind = .return_ then 0 else (operands.headD .empty).reg) width]
  | .loadMem, a :: b :: _ => [numberOperand 0 a.reg width, baseOperand 1 b]
  | .storeMemReg, a :: b :: _ => [baseOperand 0 a, numberOperand 1 b.reg width]
  | .storeMemImm, a :: b :: _ => [baseOperand 0 a, immOperand 1 b.imm 32]
  | .branch, a :: _ => [targetOperand inst a]
  | .branchRR, a :: b :: c :: _ =>
    [targetOperand inst a, numberOperand 1 b.reg width, numberOperand 2 c.reg width]
  | .branchRI, a :: b :: c :: _ =>
    [targetOperand inst a, numberOperand 1 b.reg width, immOperand 2 c.imm 32]
  | .callImm, a :: _ => [immOperand 0 a.imm 32]
  | .callReg, a :: _ => [numberOperand 0 a.reg 64]
  | .ldImm64, a :: b :: _ => [numberOperand 0 a.reg 64, immOperand 1 b.imm 64]
  | .loadAbs, a :: _ => [memOperand 0 0 a.mem.displacement width]
  | .loadInd, a :: _ => [numberOperand 0 a.reg 64]
  | _, _ => []

structure Fills (record : Record) (inst : Inst) (word : Word) : Prop where
  opcode : word.opcode = record.opcode
  off : record.form.fillsOff = false → word.off = record.blank.off
  imm : record.form.fillsImm = false → word.imm = record.blank.imm
  src : record.form.fillsSrc = false → word.regs >>> 4 = 0
  operands : ∀ code, Holds code word → (record.form = .ldImm64 → load32le (code.drop 12) = word.high) →
    operands record code inst.address = readBack record inst

theorem fill_ok {check : Bool} {filled : Word} (h : fill check blank filled = (.ok, word)) :
    check = true ∧ filled = word := by
  unfold fill at h
  split at h
  · cases h
    exact ⟨‹_›, rfl⟩
  · cases h

theorem thenFill_ok {packed : Status × Word} {check : Bool} {filled : Word → Word}
    (h : thenFill packed check filled = (.ok, word)) :
    packed.1 = .ok ∧ check = true ∧ filled packed.2 = word := by
  unfold thenFill at h
  split at h
  · next hfailed =>
    rw [h] at hfailed
    exact absurd rfl hfailed
  · next hpacked =>
    obtain ⟨hcheck, hfilled⟩ := fill_ok h
    exact ⟨not_not.1 hpacked, hcheck, hfilled⟩

theorem packBranch_ok {target : Operand} {rest : List Operand} (hops : inst.operands = target :: rest)
    (h : (packBranch inst blank).1 = .ok) : ∃ field, (packBranch inst blank).2 = { blank with off := field } ∧
      field.signExtend 64 * 8 = branchDisp inst target := by
  simp only [packBranch, hops] at h ⊢
  split at h
  · cases h
  · next haligned =>
    rw [if_neg haligned]
    split at h
    · cases h
    · next hfits =>
      rw [if_neg hfits]
      rw [Bool.not_eq_true, Bool.not_eq_false'] at hfits
      refine ⟨_, rfl, ?_⟩
      rw [off_of_fits hfits, sdiv_mul_of_aligned (not_not.1 haligned)]

theorem pcRelOperand_of_field {field : BitVec 16} {target : Operand}
    (hfield : field.signExtend 64 * 8 = branchDisp inst target) :
    pcRelOperand inst.address field = targetOperand inst target := by
  simp only [pcRelOperand, targetOperand, hfield]

theorem src_of_number {number : Nat} (h : regOk number = true) : BitVec.ofNat 8 number >>> 4 = 0 := by
  rw [ofNat_eq_regsByte]
  exact (regsByte_fields (Nat.zero_le _) (of_decide_eq_true h)).1

theorem blank_src (record : Record) : record.blank.regs >>> 4 = 0 := BitVec.zero_ushiftRight

theorem append_halves (v : BitVec 64) : ((v >>> 32).setWidth 32 : BitVec 32) ++ (v.setWidth 32 : BitVec 32) = v := by
  apply BitVec.eq_of_getLsbD_eq
  intro i hi
  rw [BitVec.getLsbD_append, BitVec.getLsbD_setWidth, BitVec.getLsbD_setWidth, BitVec.getLsbD_ushiftRight]
  rcases Nat.lt_or_ge i 32 with hlow | hge
  · simp [hlow]
  · simp [Nat.not_lt.2 hge, show i - 32 < 32 by omega, show 32 + (i - 32) = i by omega]

theorem operandIsMem_spec {operand : Operand} {width : Nat} (h : operandIsMem operand width = true) :
    regOk operand.mem.base = true ∧ i64FitsI16 operand.mem.displacement = true := by
  simp only [operandIsMem, Bool.and_eq_true] at h
  exact ⟨h.1.2, h.2⟩

theorem fills_of_ok (hok : encodeForm record inst = (.ok, word)) : Fills record inst word := by
  have hzero : regOk 0 = true := rfl
  unfold encodeForm at hok
  split at hok
  case h_1 a b rest hform hops =>
    obtain ⟨hcheck, rfl⟩ := fill_ok hok
    rw [Bool.and_eq_true] at hcheck
    refine ⟨rfl, fun _ => rfl, fun _ => rfl, fun hsrc => by simp [hform, Form.fillsSrc] at hsrc, ?_⟩
    intro code h _
    simp only [operands, readBack, hform, hops, numberOperand, h.src rfl hcheck.2 hcheck.1,
      h.dst rfl hcheck.2 hcheck.1]
  case h_2 a b rest hform hops =>
    obtain ⟨hcheck, rfl⟩ := fill_ok hok
    rw [Bool.and_eq_true] at hcheck
    refine ⟨rfl, fun _ => rfl, fun himm => by simp [hform, Form.fillsImm] at himm,
      fun _ => src_of_number hcheck.1, ?_⟩
    intro code h _
    simp only [operands, readBack, hform, hops, numberOperand,
      h.dst (ofNat_eq_regsByte a.reg) hzero hcheck.1, h.imm, imm_of_fits hcheck.2]
  case h_3 given hform =>
    split at hok
    · next hreturn =>
      cases hok
      refine ⟨rfl, fun _ => rfl, fun _ => rfl, fun _ => blank_src record, ?_⟩
      intro code h _
      have hdst : dst code = BitVec.ofNat 8 0 := h.dst (s := 0) rfl hzero hzero
      simp only [operands, readBack, hform, numberOperand, hdst, if_pos hreturn]
    · next hother =>
      split at hok
      · next a rest hops =>
        obtain ⟨hcheck, rfl⟩ := fill_ok hok
        refine ⟨rfl, fun _ => rfl, fun _ => rfl, fun _ => src_of_number hcheck, ?_⟩
        intro code h _
        simp only [operands, readBack, hform, hops, numberOperand, List.headD_cons, if_neg hother,
          h.dst (ofNat_eq_regsByte a.reg) hzero hcheck]
      · cases hok
  case h_4 a b rest hform hops =>
    obtain ⟨hcheck, rfl⟩ := fill_ok hok
    rw [Bool.and_eq_true] at hcheck
    obtain ⟨hbase, hdisp⟩ := operandIsMem_spec hcheck.2
    refine ⟨rfl, fun hoff => by simp [hform, Form.fillsOff] at hoff, fun _ => rfl,
      fun hsrc => by simp [hform, Form.fillsSrc] at hsrc, ?_⟩
    intro code h _
    simp only [operands, readBack, hform, hops, numberOperand, baseOperand, h.src rfl hbase hcheck.1,
      h.dst rfl hbase hcheck.1, h.off, off_of_fits hdisp]
  case h_5 a b rest hform hops =>
    obtain ⟨hcheck, rfl⟩ := fill_ok hok
    rw [Bool.and_eq_true] at hcheck
    obtain ⟨hbase, hdisp⟩ := operandIsMem_spec hcheck.1
    refine ⟨rfl, fun hoff => by simp [hform, Form.fillsOff] at hoff, fun _ => rfl,
      fun hsrc => by simp [hform, Form.fillsSrc] at hsrc, ?_⟩
    intro code h _
    simp only [operands, readBack, hform, hops, numberOperand, baseOperand, h.src rfl hcheck.2 hbase,
      h.dst rfl hcheck.2 hbase, h.off, off_of_fits hdisp]
  case h_6 a b rest hform hops =>
    obtain ⟨hcheck, rfl⟩ := fill_ok hok
    rw [Bool.and_eq_true] at hcheck
    obtain ⟨hbase, hdisp⟩ := operandIsMem_spec hcheck.1
    refine ⟨rfl, fun hoff => by simp [hform, Form.fillsOff] at hoff,
      fun himm => by simp [hform, Form.fillsImm] at himm, fun _ => src_of_number hbase, ?_⟩
    intro code h _
    simp only [operands, readBack, hform, hops, baseOperand,
      h.dst (ofNat_eq_regsByte a.mem.base) hzero hbase, h.off, h.imm, off_of_fits hdisp,
      imm_of_fits hcheck.2]
  case h_7 given hform =>
    cases hops : inst.operands with
    | nil => simp [packBranch, hops] at hok
    | cons a rest =>
      obtain ⟨field, hword, hfield⟩ := packBranch_ok hops (congrArg Prod.fst hok)
      rw [hok] at hword
      obtain rfl : word = { record.blank with off := field } := hword
      refine ⟨rfl, fun hoff => by simp [hform, Form.fillsOff] at hoff, fun _ => rfl,
        fun _ => blank_src record, ?_⟩
      intro code h _
      simp only [operands, readBack, hform, hops, h.off, pcRelOperand_of_field hfield]
  case h_8 a b c rest hform hops =>
    obtain ⟨hpacked, hcheck, rfl⟩ := thenFill_ok hok
    rw [Bool.and_eq_true] at hcheck
    obtain ⟨field, hword, hfield⟩ := packBranch_ok hops hpacked
    rw [hword]
    refine ⟨rfl, fun hoff => by simp [hform, Form.fillsOff] at hoff, fun _ => rfl,
      fun hsrc => by simp [hform, Form.fillsSrc] at hsrc, ?_⟩
    intro code h _
    simp only [operands, readBack, hform, hops, numberOperand, h.off, pcRelOperand_of_field hfield,
      h.src rfl hcheck.2 hcheck.1, h.dst rfl hcheck.2 hcheck.1]
  case h_9 a b c rest hform hops =>
    obtain ⟨hpacked, hcheck, rfl⟩ := thenFill_ok hok
    rw [Bool.and_eq_true] at hcheck
    obtain ⟨field, hword, hfield⟩ := packBranch_ok hops hpacked
    rw [hword]
    refine ⟨rfl, fun hoff => by simp [hform, Form.fillsOff] at hoff,
      fun himm => by simp [hform, Form.fillsImm] at himm, fun _ => src_of_number hcheck.1, ?_⟩
    intro code h _
    simp only [operands, readBack, hform, hops, numberOperand, h.off, pcRelOperand_of_field hfield,
      h.dst (ofNat_eq_regsByte b.reg) hzero hcheck.1, h.imm, imm_of_fits hcheck.2]
  case h_10 => exact absurd (thenFill_ok hok).2.1 Bool.false_ne_true
  case h_11 => exact absurd (thenFill_ok hok).2.1 Bool.false_ne_true
  case h_12 a rest hform hops =>
    obtain ⟨hcheck, rfl⟩ := fill_ok hok
    refine ⟨rfl, fun _ => rfl, fun himm => by simp [hform, Form.fillsImm] at himm,
      fun _ => blank_src record, ?_⟩
    intro code h _
    simp only [operands, readBack, hform, hops, h.imm, imm_of_fits hcheck]
  case h_13 a rest hform hops =>
    obtain ⟨hcheck, rfl⟩ := fill_ok hok
    refine ⟨rfl, fun _ => rfl, fun _ => rfl, fun _ => src_of_number hcheck, ?_⟩
    intro code h _
    simp only [operands, readBack, hform, hops, numberOperand,
      h.dst (ofNat_eq_regsByte a.reg) hzero hcheck]
  case h_14 a b rest hform hops =>
    obtain ⟨hcheck, rfl⟩ := fill_ok hok
    refine ⟨rfl, fun _ => rfl, fun himm => by simp [hform, Form.fillsImm] at himm,
      fun _ => src_of_number hcheck, ?_⟩
    intro code h hhigh
    simp only [operands, readBack, hform, hops, numberOperand,
      h.dst (ofNat_eq_regsByte a.reg) hzero hcheck, h.imm, hhigh hform]
    rw [append_halves]
  case h_15 a rest hform hops =>
    obtain ⟨hcheck, rfl⟩ := fill_ok hok
    simp only [operandIsAbsMem, Bool.and_eq_true] at hcheck
    refine ⟨rfl, fun _ => rfl, fun himm => by simp [hform, Form.fillsImm] at himm,
      fun _ => blank_src record, ?_⟩
    intro code h _
    simp only [operands, readBack, hform, hops, h.imm, imm_of_fits hcheck.2]
  case h_16 a rest hform hops =>
    obtain ⟨hcheck, rfl⟩ := fill_ok hok
    refine ⟨rfl, fun _ => rfl, fun _ => rfl, fun hsrc => by simp [hform, Form.fillsSrc] at hsrc, ?_⟩
    intro code h _
    simp only [operands, readBack, hform, hops, numberOperand, h.src rfl hcheck hzero]
  case h_17 => cases hok

end AsmKit.Bpf
