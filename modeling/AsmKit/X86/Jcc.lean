import AsmKit.Isa.X86
import AsmKit.X86.Relocate
import Mathlib.Data.List.GetD

/-!
# Conditional jumps of x86

The encodings of `jcc`, and what the decoder makes of them.
-/

namespace AsmKit.X86

open LittleEndian SignedField

/-! ## Prefixes in front of an opcode -/

def isPrefix (mode : Mode) (b : Byte) : Bool := isLegacyPrefix b || isRexPrefix mode b

/-- One prefix more. -/
def PrefixState.add (mode : Mode) (p : PrefixState) (b : Byte) : PrefixState :=
  if isLegacyPrefix b then p.legacy mode b else p.rex b

theorem scanPrefixes_append (mode : Mode) (pre rest : List Byte) (i : Nat) (p : PrefixState)
    (hpre : ∀ b ∈ pre, isPrefix mode b = true) (hlen : i + pre.length ≤ maxInstructionBytes) :
    scanPrefixes mode (pre ++ rest) i p =
      scanPrefixes mode rest (i + pre.length) (pre.foldl (PrefixState.add mode) p) := by
  induction pre generalizing i p with
  | nil => rfl
  | cons b pre ih =>
    have hb := hpre b List.mem_cons_self
    have hrest := fun i p => ih i p fun b hb => hpre b (List.mem_cons_of_mem _ hb)
    rw [List.length_cons] at hlen ⊢
    have hi : ¬ maxInstructionBytes ≤ i := by omega
    rw [List.cons_append, scanPrefixes.eq_def]
    simp only [if_neg hi, List.foldl_cons, PrefixState.add]
    by_cases hlegacy : isLegacyPrefix b = true
    · rw [if_pos hlegacy, if_pos hlegacy, hrest _ _ (by omega), Nat.add_assoc, Nat.add_comm 1]
    · have hrex : isRexPrefix mode b = true := by
        simpa [isPrefix, hlegacy] using hb
      rw [if_neg hlegacy, if_neg hlegacy, if_pos hrex, hrest _ _ (by omega), Nat.add_assoc,
        Nat.add_comm 1]

theorem scanPrefixes_stop {mode : Mode} {b : Byte} (hb : isPrefix mode b = false) (hrex2 : b ≠ 0xd5)
    (rest : List Byte) (i : Nat) (p : PrefixState) : scanPrefixes mode (b :: rest) i p = (p, i) := by
  have hnot : isLegacyPrefix b = false ∧ isRexPrefix mode b = false := by
    simpa [isPrefix, Bool.or_eq_false_iff] using hb
  rw [scanPrefixes.eq_def]
  simp only [hnot.1, hnot.2, Bool.false_eq_true, if_false, hrex2, and_false]
  split
  · rfl
  · cases rest <;> rfl

/-- The relocation's own scan ends there as well. -/
theorem findOpcode_eq_some {inst : Inst} {pre rest : List Byte} {b : Byte}
    (hbytes : inst.bytes = pre ++ b :: rest) (hsize : inst.size = inst.bytes.length)
    (hlen : pre.length < maxInstBytes) (hpre : ∀ b ∈ pre, isPrefix inst.mode b = true)
    (hb : isPrefix inst.mode b = false) : findOpcode inst = some pre.length := by
  have hlt : pre.length < min inst.size maxInstBytes := by
    rw [hsize, hbytes, List.length_append, List.length_cons]
    omega
  rw [findOpcode, List.find?_range_eq_some]
  refine ⟨?_, List.mem_range.2 hlt, ?_⟩
  · have hbyte : inst.byte pre.length = b := by
      rw [Inst.byte, hbytes, List.getD_append_right _ _ _ _ (Nat.le_refl _), Nat.sub_self]
      rfl
    rw [hbyte]
    simpa [isPrefix] using hb
  · intro k hk
    have hbyte : inst.byte k = pre[k] := by
      rw [Inst.byte, hbytes, List.getD_append _ _ _ _ hk, List.getD_eq_getElem _ _ hk]
    rw [hbyte, Bool.not_not]
    exact hpre _ (List.getElem_mem hk)

/-! ## Encodings -/

/-- What may stand in front of a conditional jump: `66` changes its operand size. -/
def isJccPrefix (mode : Mode) (b : Byte) : Bool := isPrefix mode b && b != 0x66

/-- The opcode byte with the condition. -/
def jccOpcode (near : Bool) (cc : BitVec 4) : Byte := (if near then 0x80 else 0x70) ||| cc.setWidth 8

/-- The bytes of a conditional jump without prefixes. -/
def jccBody (cc : BitVec 4) (near : Bool) (disp : List Byte) : List Byte :=
  (if near then [0x0f, jccOpcode near cc] else [jccOpcode near cc]) ++ disp

/-- A conditional jump, with a short or a near displacement. -/
structure Jcc (mode : Mode) where
  prefixes : List Byte
  cc : BitVec 4
  near : Bool
  disp : List Byte
  prefixes_ok : ∀ b ∈ prefixes, isJccPrefix mode b = true
  disp_length : disp.length = if near then (if mode = .x86_16 then 2 else 4) else 1
  length_le : prefixes.length + ((if near then 2 else 1) + disp.length) ≤ maxInstructionBytes

namespace Jcc

variable {mode : Mode} (j : Jcc mode)

def bytes : List Byte := j.prefixes ++ jccBody j.cc j.near j.disp

/-- Where the jump leads, with an instruction pointer of `w` bits. -/
def target (w : Nat) (address : BitVec 64) : BitVec w :=
  address.setWidth w + BitVec.ofNat w j.bytes.length + Isa.X86.rel w j.disp.length j.disp

end Jcc

theorem jccOpcode_condition : ∀ near cc, (jccOpcode near cc).setWidth 4 = cc := by decide

theorem jccOpcode_near : ∀ cc, jccOpcode true cc &&& 0xf0#8 = 0x80#8 := by decide

theorem jccOpcode_short : ∀ cc, jccOpcode false cc &&& 0xf0#8 = 0x70#8 ∧
    jccOpcode false cc ≠ 0xe8#8 ∧ jccOpcode false cc ≠ 0xe9#8 ∧ jccOpcode false cc ≠ 0xeb#8 := by
  decide

theorem decode_jccBody (w : Nat) (cc : BitVec 4) (near : Bool) (disp : List Byte)
    (hdisp : disp.length = if near then Isa.X86.nearSize w else 1) (rest : List Byte) :
    Isa.X86.decode w (jccBody cc near disp ++ rest) =
      some ⟨.jcc cc, .rel (Isa.X86.rel w disp.length disp), (jccBody cc near disp).length⟩ := by
  have hrel : Isa.X86.rel w disp.length (disp ++ rest) = Isa.X86.rel w disp.length disp := by
    rw [Isa.X86.rel, Isa.X86.rel, List.take_left, List.take_length]
  cases near with
  | true =>
    simp only [if_true] at hdisp
    rw [hdisp] at hrel ⊢
    simp [jccBody, Isa.X86.decode, jccOpcode_near, jccOpcode_condition, hrel, hdisp, Nat.add_comm]
    omega
  | false =>
    simp only [Bool.false_eq_true, if_false] at hdisp
    rw [hdisp] at hrel ⊢
    obtain ⟨hshort, hcall, hjmp, hjmp8⟩ := jccOpcode_short cc
    simp [jccBody, Isa.X86.decode, hshort, jccOpcode_condition, hcall, hjmp, hjmp8, hrel, hdisp]

/-! ## Decoding -/

@[simp] theorem PrefixState.legacy_vectorType (mode : Mode) (p : PrefixState) (b : Byte) :
    (p.legacy mode b).vectorType = p.vectorType := by
  simp only [legacy, apply_ite PrefixState.vectorType, ite_self]

theorem PrefixState.legacy_operand16 (mode : Mode) (p : PrefixState) {b : Byte} (hb : b ≠ 0x66) :
    (p.legacy mode b).operand16 = p.operand16 := by
  simp only [legacy, if_neg hb, apply_ite PrefixState.operand16, ite_self]

@[simp] theorem PrefixState.add_vectorType (mode : Mode) (p : PrefixState) (b : Byte) :
    (p.add mode b).vectorType = p.vectorType := by
  unfold add
  split
  · exact legacy_vectorType mode p b
  · rfl

theorem foldl_add_vectorType (mode : Mode) (pre : List Byte) (p : PrefixState) :
    (pre.foldl (PrefixState.add mode) p).vectorType = p.vectorType := by
  induction pre generalizing p with
  | nil => rfl
  | cons b pre ih => rw [List.foldl_cons, ih, PrefixState.add_vectorType]

theorem foldl_add_operand16 (mode : Mode) (pre : List Byte) (h66 : 0x66 ∉ pre) (p : PrefixState) :
    (pre.foldl (PrefixState.add mode) p).operand16 = p.operand16 := by
  induction pre generalizing p with
  | nil => rfl
  | cons b pre ih =>
    rw [List.mem_cons, not_or] at h66
    rw [List.foldl_cons, ih h66.2, PrefixState.add]
    split
    · exact PrefixState.legacy_operand16 mode p (Ne.symm h66.1)
    · rfl

theorem parseOpcode_legacy {mode : Mode} {code : List Byte} {p : PrefixState} {i : Nat}
    (h : code.getD i 0 ∉ ([0x62, 0xc4, 0xc5, 0x8f] : List Byte)) :
    parseOpcode mode code p i = parseLegacyOpcode code p i := by
  obtain ⟨h62, hc4, hc5, h8f⟩ : code.getD i 0 ≠ 0x62 ∧ code.getD i 0 ≠ 0xc4 ∧
      code.getD i 0 ≠ 0xc5 ∧ code.getD i 0 ≠ 0x8f := by simpa using h
  simp only [parseOpcode]
  rw [if_neg (fun h => h62 h.1), if_neg (fun h => hc4 h.1), if_neg (fun h => hc5 h.1),
    if_neg (fun h => h8f h.1)]

namespace Jcc

variable {mode : Mode} (j : Jcc mode)

/-- The offset of the displacement. -/
def dispOffset : Nat := j.prefixes.length + if j.near then 2 else 1

theorem bytes_length : j.bytes.length = j.dispOffset + j.disp.length := by
  unfold bytes jccBody dispOffset
  cases j.near <;> simp <;> omega

theorem bytes_length_le : j.bytes.length ≤ maxInstructionBytes := by
  have h := j.length_le
  rw [bytes_length, dispOffset]
  omega

theorem drop_dispOffset (rest : List Byte) :
    (j.bytes ++ rest).drop j.dispOffset = j.disp ++ rest := by
  have hsplit : j.bytes ++ rest =
      (j.prefixes ++ if j.near then [0x0f, jccOpcode j.near j.cc] else [jccOpcode j.near j.cc]) ++
        (j.disp ++ rest) := by
    simp [bytes, jccBody]
  have hlen : j.dispOffset =
      (j.prefixes ++ if j.near then [0x0f, jccOpcode j.near j.cc] else [jccOpcode j.near j.cc]).length := by
    unfold dispOffset
    cases j.near <;> simp
  rw [hsplit, hlen, List.drop_left]

theorem isPrefix_opcode : ∀ near cc mode, isPrefix mode (jccOpcode near cc) = false := by
  have hlegacy : ∀ near cc, isLegacyPrefix (jccOpcode near cc) = false ∧
      (0x40 ≤ jccOpcode near cc && jccOpcode near cc ≤ 0x4f) = false := by decide
  intro near cc mode
  obtain ⟨hlegacy, hrex⟩ := hlegacy near cc
  rw [isPrefix, hlegacy, isRexPrefix, Bool.and_assoc, hrex, Bool.and_false]
  rfl

theorem prefixes_isPrefix : ∀ b ∈ j.prefixes, isPrefix mode b = true := by
  intro b hb
  have h := j.prefixes_ok b hb
  rw [isJccPrefix, Bool.and_eq_true] at h
  exact h.1

theorem not_mem_prefixes : 0x66 ∉ j.prefixes := by
  intro hmem
  have h := j.prefixes_ok _ hmem
  simp [isJccPrefix] at h

/-- The prefixes as the decoder collects them. -/
def state : PrefixState := j.prefixes.foldl (PrefixState.add mode) (.init mode)

theorem state_operand16 : j.state.operand16 = (mode == .x86_16) :=
  foldl_add_operand16 mode j.prefixes j.not_mem_prefixes _

theorem state_vectorType : j.state.vectorType = .normal := foldl_add_vectorType mode j.prefixes _

theorem prefixes_length_lt : j.prefixes.length < maxInstructionBytes := by
  have h := j.length_le
  split at h <;> omega

theorem scanPrefixes (rest : List Byte) :
    X86.scanPrefixes mode (j.bytes ++ rest) 0 (.init mode) = (j.state, j.prefixes.length) := by
  have hstop : ∀ tail, X86.scanPrefixes mode (jccBody j.cc j.near j.disp ++ tail)
      j.prefixes.length j.state = (j.state, j.prefixes.length) := by
    intro tail
    have hop : ∀ near cc, jccOpcode near cc ≠ 0xd5 := by decide
    unfold jccBody
    cases j.near with
    | true => exact scanPrefixes_stop (by cases mode <;> decide) (by decide) _ _ _
    | false => exact scanPrefixes_stop (isPrefix_opcode _ _ _) (hop _ _) _ _ _
  have hscan := scanPrefixes_append mode j.prefixes (jccBody j.cc j.near j.disp ++ rest) 0 (.init mode)
    j.prefixes_isPrefix (by have := j.prefixes_length_lt; omega)
  rw [Nat.zero_add] at hscan
  rw [bytes, List.append_assoc, hscan]
  exact hstop rest

/-- What the decoder reads up to the opcode. -/
def head : Head := ⟨j.state, if j.near then 1 else 0, jccOpcode j.near j.cc, j.dispOffset⟩

theorem getD_bytes (rest : List Byte) (k : Nat) :
    (j.bytes ++ rest).getD (j.prefixes.length + k) 0 =
      (jccBody j.cc j.near j.disp ++ rest).getD k 0 := by
  rw [bytes, List.append_assoc, List.getD_append_right _ _ _ _ (by omega), Nat.add_sub_cancel_left]

theorem parseOpcode (rest : List Byte) :
    X86.parseOpcode mode (j.bytes ++ rest) j.state j.prefixes.length = some j.head := by
  have hlen : j.prefixes.length + (if j.near then 2 else 1) ≤ (j.bytes ++ rest).length := by
    have hbytes := j.bytes_length
    rw [dispOffset] at hbytes
    rw [List.length_append]
    omega
  have h0 := j.getD_bytes rest 0
  have h1 := j.getD_bytes rest 1
  rw [Nat.add_zero] at h0
  cases hnear : j.near with
  | true =>
    simp only [jccBody, hnear, if_true, List.cons_append, List.getD_cons_zero,
      List.getD_cons_succ] at h0 h1
    have hop : ∀ cc, jccOpcode true cc ≠ 0x38 ∧ jccOpcode true cc ≠ 0x3a := by decide
    rw [hnear, if_pos rfl] at hlen
    rw [parseOpcode_legacy (by rw [h0]; decide), parseLegacyOpcode]
    simp only [h0, h1]
    rw [if_neg (by decide), if_neg (by omega), if_pos (hop j.cc), head, dispOffset, hnear]
    rfl
  | false =>
    simp only [jccBody, hnear, Bool.false_eq_true, if_false, List.cons_append,
      List.getD_cons_zero] at h0
    have hop : ∀ cc, jccOpcode false cc ∉ ([0x62, 0xc4, 0xc5, 0x8f] : List Byte) ∧
        jccOpcode false cc ≠ 0x0f := by decide
    obtain ⟨hescape, h0f⟩ := hop j.cc
    rw [parseOpcode_legacy (by rw [h0]; exact hescape), parseLegacyOpcode]
    simp only [h0]
    rw [if_pos h0f, head, dispOffset, hnear]
    rfl

theorem parseHead (rest : List Byte) :
    X86.parseHead mode (j.bytes ++ rest) = some j.head.markRep := by
  have hlen : j.prefixes.length < (j.bytes ++ rest).length := by
    have hbytes := j.bytes_length
    rw [dispOffset] at hbytes
    rw [List.length_append]
    split at hbytes <;> omega
  have hlt := j.prefixes_length_lt
  rw [X86.parseHead, j.scanPrefixes]
  simp only
  rw [if_neg (by omega), j.parseOpcode]
  rfl

theorem relBranchImmSize : X86.relBranchImmSize mode j.head.markRep = j.disp.length := by
  have hshort : ∀ cc, isShortJcc (jccOpcode false cc) = true := by decide
  rw [X86.relBranchImmSize, Head.markRep_opcodeMap, Head.markRep_opcode, Head.markRep_operand16,
    j.disp_length, nearBranchImmSize, operandImmSize]
  simp only [head, j.state_operand16]
  cases j.near with
  | true => cases mode <;> rfl
  | false => simp [hshort]

theorem isRel : j.head.markRep.isRel = true := by
  have hop : ∀ cc, isNearJcc (jccOpcode true cc) = true ∧ isRelBranch (jccOpcode false cc) = true := by
    decide
  rw [Head.isRel, Head.isLegacy, Head.markRep_vectorType, Head.markRep_opcodeMap,
    Head.markRep_opcode]
  simp only [head, j.state_vectorType]
  cases j.near with
  | true => simp [hop]
  | false => simp [hop]

theorem relBranch_head :
    relBranch j.head.markRep.opcodeMap j.head.markRep.opcode =
      ⟨Id.jccRel, jccMnemonicId (jccOpcode j.near j.cc), .condBranch,
        InstFlag.pcRelative ||| InstFlag.direct ||| InstFlag.conditional⟩ := by
  have hop : ∀ cc, isShortJcc (jccOpcode false cc) = true ∧ jccOpcode false cc ≠ 0xe8 := by decide
  have hbranch : ∀ near cc, relBranch (if near then 1 else 0) (jccOpcode near cc) =
      ⟨Id.jccRel, jccMnemonicId (jccOpcode near cc), .condBranch,
        InstFlag.pcRelative ||| InstFlag.direct ||| InstFlag.conditional⟩ := by
    intro near cc
    cases near with
    | true => rfl
    | false =>
      simp only [relBranch]
      rw [if_neg (fun h => (hop cc).2 h.2), if_pos (.inr (hop cc).1)]
  rw [Head.markRep_opcodeMap, Head.markRep_opcode]
  exact hbranch _ _

end Jcc

section

variable {engine : Engine} (j : Jcc engine.config.mode) {tables : Tables} {address : BitVec 64}
  {prior : Inst}

/-- What the decoder makes of a conditional jump. -/
def Jcc.inst (j : Jcc engine.config.mode) (rest : List Byte) (address : BitVec 64) : Inst :=
  { arch := .x86, mode := engine.config.mode, id := Id.jccRel
    mnemonicId := jccMnemonicId (jccOpcode j.near j.cc), instClass := .condBranch, address
    size := j.bytes.length, bytes := j.bytes
    flags := InstFlag.pcRelative ||| InstFlag.direct ||| InstFlag.conditional |||
      j.head.markRep.prefixes.prefixFlags
    operands := [pcOperand (j.disp ++ rest) j.disp.length address j.bytes.length] }

theorem decodeOne_jcc (harch : engine.target.arch = .x86) (rest : List Byte) :
    decodeOne engine tables (j.bytes ++ rest) address prior = .ok (j.inst rest address) := by
  have hpos : 0 < j.bytes.length := by
    have hlen := j.bytes_length
    unfold Jcc.dispOffset at hlen
    split at hlen <;> omega
  have hlen : j.bytes.length ≤ (j.bytes ++ rest).length := by
    rw [List.length_append]
    omega
  have hne : j.bytes ++ rest ≠ [] := List.ne_nil_of_length_pos (by omega)
  have hmode : ¬ (engine.config.mode ≠ .x86_16 ∧ engine.config.mode ≠ .x86_32 ∧
      engine.config.mode ≠ .x86_64) := by
    rcases engine.mode_of_x86 harch with h | h | h <;> simp [h]
  have hop : ∀ near cc, jccOpcode near cc ≠ 0x1e ∧ jccOpcode near cc ≠ 0x90 := by decide
  have h1e : (j.head.markRep.opcode == 0x1e) = false := by
    rw [Head.markRep_opcode]
    exact beq_eq_false_iff_ne.2 (hop _ _).1
  have h90 : (j.head.markRep.opcode == 0x90) = false := by
    rw [Head.markRep_opcode]
    exact beq_eq_false_iff_ne.2 (hop _ _).2
  have hendbr : isEndbr (j.bytes ++ rest) j.head.markRep = false := by
    simp only [isEndbr, h1e, Bool.and_false, Bool.false_and]
  have hnop : isNop j.head.markRep = false := by
    simp only [isNop, h90, Bool.and_false, Bool.false_and]
  have hsize : j.head.markRep.next + j.disp.length = j.bytes.length := by
    rw [Head.markRep_next, j.bytes_length]
    rfl
  have hdrop : (j.bytes ++ rest).drop j.head.markRep.next = j.disp ++ rest := by
    rw [Head.markRep_next]
    exact j.drop_dispOffset rest
  have hfinish : ¬ (j.bytes.length = 0 ∨ maxInstructionBytes < j.bytes.length ∨
      (j.bytes ++ rest).length < j.bytes.length) := by
    have hmax := j.bytes_length_le
    omega
  rw [decodeOne]
  simp only [hne, hmode, if_false, j.parseHead, decodeHead, hendbr, hnop, j.isRel, if_true,
    Bool.false_eq_true]
  rw [decodeRelBranch]
  simp only [j.relBranchImmSize, j.relBranch_head, hsize, if_neg (Nat.not_lt.2 hlen), hdrop, finish,
    if_neg hfinish, List.take_left, Option.getD_some]
  rfl

end

end AsmKit.X86
