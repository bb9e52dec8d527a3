import AsmKit.Arm.Rows
import AsmKit.Decode.Block

/-!
# What a decoded record says of its code

A decoded record has the address and the bytes it was decoded from, unless x86 leaves the record as
it was: behind too many prefixes, a relative branch, `in` or `out` is accepted and not written.
-/

namespace AsmKit

/-- The record has the address, and as many of the bytes as its size says. -/
structure ReadsFrom (inst : Inst) (code : List Byte) (start : BitVec 64) : Prop where
  address : inst.address = start
  bytes : inst.bytes = code.take inst.size

/-- A decoder that gives the records it accepts the address and the bytes. -/
def Writes (decode : Inst → Except Status Inst) (code : List Byte) (address : BitVec 64) : Prop :=
  ∀ prior inst, decode prior = .ok inst → ReadsFrom inst code address

/-- A decoder that accepts and leaves the record as it was, all but the mnemonic and the operands. -/
def Leaves (decode : Inst → Except Status Inst) : Prop :=
  ∀ prior, ∃ mnemonicId operands, decode prior = .ok { prior with mnemonicId, operands }

theorem Writes.of_error {code : List Byte} {address : BitVec 64} {status : Status} :
    Writes (fun _ => .error status) code address := by
  rintro prior inst h
  cases h

/-- The decoder leaves the record exactly where it is said to. -/
structure WritesUnless (left : Bool) (decode : Inst → Except Status Inst) (code : List Byte)
    (address : BitVec 64) : Prop where
  writes : left = false → Writes decode code address
  leaves : left = true → Leaves decode

theorem Writes.unless_false {decode : Inst → Except Status Inst} {code : List Byte}
    {address : BitVec 64} (h : Writes decode code address) : WritesUnless false decode code address :=
  ⟨fun _ => h, fun hleft => by cases hleft⟩

theorem ReadsFrom.ite {c : Prop} [Decidable c] {a b : Inst} {code : List Byte} {address : BitVec 64}
    (ha : ReadsFrom a code address) (hb : ReadsFrom b code address) :
    ReadsFrom (if c then a else b) code address := by
  split
  · exact ha
  · exact hb

/-! ## x86 -/

namespace X86

/-- The length of an instruction that is accepted without a look at the limit: a relative branch,
`in` or `out`. -/
def uncheckedLength (engine : Engine) (tables : Tables) (code : List Byte) (h : Head) : Option Nat :=
  if isEndbr code h ∨ isNop h then none
  else if h.isRel then some (h.next + relBranchImmSize engine.config.mode h)
  else
    match lookupNoModrm engine tables h with
    | .error _ => none
    | .ok record =>
      if (record.filter (·.modrmKind = .none)).isSome then none
      else if record.isNone ∧ ¬ h.isLegacy ∧ h.opcodeMap = 1 ∧ isNearJcc h.opcode then
        some (h.next + nearBranchImmSize engine.config.mode h.prefixes.operand16)
      else if record.isNone ∧ h.isLegacy ∧ h.opcodeMap = 0 ∧ isIo h.opcode then
        some (h.next + if isIoImm h.opcode then 1 else 0)
      else none

/-- The length is over the limit, and the bytes are there. -/
def overlong (code : List Byte) (len : Nat) : Bool := maxInstructionBytes < len && len ≤ code.length

/-- The instruction at the start of the code is accepted and not written. -/
def leavesRecord (engine : Engine) (tables : Tables) (code : List Byte) : Bool :=
  ((parseHead engine.config.mode code).bind (uncheckedLength engine tables code)).any (overlong code)

variable {engine : Engine} {code : List Byte} {address : BitVec 64}

theorem parseLegacyOpcode_next {p : PrefixState} {i : Nat} {h : Head}
    (hparse : parseLegacyOpcode code p i = some h) : 0 < h.next := by
  unfold parseLegacyOpcode at hparse
  simp only at hparse
  split at hparse
  · cases hparse
    exact Nat.succ_pos i
  split at hparse
  · cases hparse
  split at hparse
  · cases hparse
    exact Nat.succ_pos (i + 1)
  split at hparse
  · cases hparse
  · cases hparse
    exact Nat.succ_pos (i + 2)

theorem parseHead_next {mode : Mode} {h : Head} (hparse : parseHead mode code = some h) :
    0 < h.next := by
  unfold parseHead at hparse
  simp only at hparse
  split at hparse
  · cases hparse
  obtain ⟨h0, hop, rfl⟩ := Option.map_eq_some_iff.1 hparse
  rw [Head.markRep_next]
  unfold parseOpcode at hop
  simp only at hop
  split at hop
  · split at hop
    · cases hop
    · obtain ⟨map, -, rfl⟩ := Option.map_eq_some_iff.1 hop
      exact Nat.succ_pos _
  split at hop
  · split at hop
    · cases hop
    · obtain ⟨map, -, rfl⟩ := Option.map_eq_some_iff.1 hop
      exact Nat.succ_pos _
  split at hop
  · split at hop
    · cases hop
    · cases hop
      exact Nat.succ_pos _
  split at hop
  · split at hop
    · cases hop
    · obtain ⟨map, -, rfl⟩ := Option.map_eq_some_iff.1 hop
      exact Nat.succ_pos _
  · exact parseLegacyOpcode_next hop

theorem le_withDisp_next (m : Modrm) (n : Nat) : m.next ≤ (m.withDisp n).next :=
  Nat.le_add_right _ _

theorem le_modDisp_next (m : Modrm) : m.next ≤ (modDisp m).next := by
  unfold modDisp
  split
  · exact le_withDisp_next m 1
  split
  · exact le_withDisp_next m 4
  · exact Nat.le_refl _

theorem le_parseModrm16_next (m : Modrm) : m.next ≤ (parseModrm16 m).next := by
  unfold parseModrm16
  split
  · exact le_withDisp_next m 2
  split
  · exact le_withDisp_next m 1
  split
  · exact le_withDisp_next m 2
  · exact Nat.le_refl _

theorem parseModrm_next {mode : Mode} {addressWidth i : Nat} {m : Modrm}
    (hparse : parseModrm mode addressWidth code i = some m) : i < m.next := by
  unfold parseModrm at hparse
  simp only at hparse
  split at hparse
  · cases hparse
  split at hparse
  · cases hparse
    exact le_parseModrm16_next { byte := code.getD i 0, next := i + 1 }
  split at hparse
  · split at hparse
    · cases hparse
    · cases hparse
      refine Nat.lt_of_lt_of_le ?_ (le_modDisp_next _)
      split
      · exact Nat.lt_of_lt_of_le (Nat.lt_succ_of_le (Nat.le_succ i)) (le_withDisp_next
          { byte := code.getD i 0, hasSib := true, sib := code.getD (i + 1) 0, next := i + 2 } 4)
      · exact Nat.lt_succ_of_le (Nat.le_succ i)
  split at hparse
  · cases hparse
    exact le_withDisp_next { byte := code.getD i 0, next := i + 1 } 4
  · cases hparse
    exact le_modDisp_next { byte := code.getD i 0, next := i + 1 }

section

variable {size id mnemonicId : Nat} {instClass : InstClass} {flags : BitVec 32}

theorem finish_of_size (hpos : 0 < size) (hmax : size ≤ maxInstructionBytes)
    (hlen : size ≤ code.length) :
    finish engine code address size id mnemonicId instClass flags =
      some { arch := .x86, mode := engine.config.mode, id, mnemonicId, instClass, address, size
             bytes := code.take size, flags } := by
  rw [finish, if_neg (by omega)]

theorem finish_reads {inst : Inst}
    (h : finish engine code address size id mnemonicId instClass flags = some inst) :
    ReadsFrom inst code address := by
  unfold finish at h
  split at h
  · cases h
  · cases h
    exact ⟨rfl, rfl⟩

end

theorem populateTdOperands_reads {e : Encoding} {inst : Inst} (h : ReadsFrom inst code address) :
    ReadsFrom (populateTdOperands engine e inst) code address := by
  unfold populateTdOperands
  split
  · exact h
  · exact ⟨h.address, h.bytes⟩

theorem finish_eq_none_of_overlong {size id mnemonicId : Nat} {instClass : InstClass}
    {flags : BitVec 32} (h : overlong code size = true) :
    finish engine code address size id mnemonicId instClass flags = none := by
  simp only [overlong, Bool.and_eq_true, decide_eq_true_iff] at h
  rw [finish, if_pos (.inr (.inl h.1))]

theorem le_max_of_not_overlong {size : Nat} (h : overlong code size = false)
    (hlen : ¬ code.length < size) : size ≤ maxInstructionBytes := by
  simp only [overlong, Bool.and_eq_false_iff, decide_eq_false_iff_not] at h
  omega

theorem decodeRelBranch_writesUnless {h : Head} (hnext : 0 < h.next) (immSize : Nat) :
    WritesUnless (overlong code (h.next + immSize))
      (fun prior => decodeRelBranch engine code address prior h immSize) code address := by
  simp only [decodeRelBranch]
  constructor
  · rintro hleft prior inst hdec
    split at hdec
    · cases hdec
    · next hlen =>
      rw [finish_of_size (by omega) (le_max_of_not_overlong hleft hlen) (not_lt.1 hlen)] at hdec
      cases hdec
      exact ⟨rfl, rfl⟩
  · intro hleft prior
    have hlen : h.next + immSize ≤ code.length := by
      simp only [overlong, Bool.and_eq_true, decide_eq_true_iff] at hleft
      exact hleft.2
    by_cases hcond : (relBranch h.opcodeMap h.opcode).instClass = .condBranch
    · refine ⟨(relBranch h.opcodeMap h.opcode).mnemonicId,
        [pcOperand (code.drop h.next) immSize address (h.next + immSize)], ?_⟩
      simp only [if_neg (not_lt.2 hlen), finish_eq_none_of_overlong hleft, Option.getD_none, if_pos hcond]
    · refine ⟨prior.mnemonicId,
        [pcOperand (code.drop h.next) immSize address (h.next + immSize)], ?_⟩
      simp only [if_neg (not_lt.2 hlen), finish_eq_none_of_overlong hleft, Option.getD_none, if_neg hcond]

theorem decodeIo_writesUnless {h : Head} (hnext : 0 < h.next) :
    WritesUnless (overlong code (h.next + if isIoImm h.opcode then 1 else 0))
      (fun prior => decodeIo engine code address prior h) code address := by
  simp only [decodeIo]
  generalize (if isIoImm h.opcode = true then 1 else 0) = immSize
  constructor
  · rintro hleft prior inst hdec
    split at hdec
    · cases hdec
    · next hlen =>
      rw [finish_of_size (by omega) (le_max_of_not_overlong hleft hlen) (not_lt.1 hlen)] at hdec
      cases hdec
      exact ⟨rfl, rfl⟩
  · intro hleft prior
    have hlen : h.next + immSize ≤ code.length := by
      simp only [overlong, Bool.and_eq_true, decide_eq_true_iff] at hleft
      exact hleft.2
    simp only [if_neg (not_lt.2 hlen), finish_eq_none_of_overlong hleft, Option.getD_none]
    exact ⟨_, _, rfl⟩

theorem decodeTdNoModrm_writes {h : Head} (hnext : 0 < h.next) (record : Record) :
    Writes (fun prior => decodeTdNoModrm engine code address prior h record) code address := by
  intro prior inst hdec
  simp only [decodeTdNoModrm] at hdec
  split at hdec
  · cases hdec
  rename_i hlen
  rw [not_or, not_lt, not_lt] at hlen
  rw [finish_of_size (by omega) hlen.2 hlen.1, Option.getD_some] at hdec
  cases hdec
  split
  · exact ⟨(populateTdOperands_reads ⟨rfl, rfl⟩).address, (populateTdOperands_reads ⟨rfl, rfl⟩).bytes⟩
  · exact populateTdOperands_reads ⟨rfl, rfl⟩

theorem decodeOther_writes (h : Head) :
    Writes (fun _ => decodeOther engine code address h) code address := by
  intro prior inst hdec
  simp only [decodeOther] at hdec
  split at hdec
  · cases hdec
  split at hdec
  · cases hdec
    exact finish_reads ‹_›
  · cases hdec

/-- The length of a form with ModRM was checked. -/
structure ModrmForm.Checked (f : ModrmForm) (code : List Byte) : Prop where
  pos : 0 < f.len
  le_max : f.len ≤ maxInstructionBytes
  le_length : f.len ≤ code.length

section

variable {f : ModrmForm} {prior : Inst}

theorem ModrmForm.Checked.finish (hf : f.Checked code) (id mnemonicId : Nat) (instClass : InstClass)
    (flags : BitVec 32) (prior : Inst) :
    ReadsFrom ((X86.finish engine code address f.len id mnemonicId instClass flags).getD prior)
      code address := by
  rw [finish_of_size hf.pos hf.le_max hf.le_length]
  exact ⟨rfl, rfl⟩

theorem decodeTdModrm_reads (hf : f.Checked code) (record : Record) :
    ReadsFrom (decodeTdModrm engine code address prior f record) code address := by
  unfold decodeTdModrm
  simp only
  have hfinish : ReadsFrom ((finish engine code address f.len record.id record.mnemonicId
      record.instClass (record.flags ||| f.head.prefixes.prefixFlags)).getD prior) code address :=
    hf.finish _ _ _ _ prior
  have hinst : ReadsFrom (populateTdOperands engine (tdEncoding code address f record) _) code address :=
    populateTdOperands_reads hfinish
  generalize populateTdOperands engine (tdEncoding code address f record) _ = inst at hinst ⊢
  have halias : ReadsFrom (applySseCmpAlias inst record) code address := by
    unfold applySseCmpAlias
    split
    · split
      · split
        · exact ⟨hinst.address, hinst.bytes⟩
        · exact hinst
      · exact hinst
    · exact hinst
  have hcmp : ReadsFrom (if f.head.opcodeMap = 1 ∧ f.head.opcode = 0xc2 then
      applySseCmpAlias inst record else inst) code address := halias.ite hinst
  generalize (if f.head.opcodeMap = 1 ∧ f.head.opcode = 0xc2 then
    applySseCmpAlias inst record else inst) = inst at hcmp ⊢
  have hindirect : ReadsFrom (if isIndirectForm f = true then
      { inst with flags := inst.flags ||| InstFlag.unsupportedReloc } else inst) code address :=
    .ite ⟨hcmp.address, hcmp.bytes⟩ hcmp
  split
  · exact ⟨hindirect.address, hindirect.bytes⟩
  · exact hindirect

theorem decodeModrmFallback_reads (hf : f.Checked code) :
    ReadsFrom (decodeModrmFallback engine code address prior f) code address := by
  unfold decodeModrmFallback
  simp only
  split
  · exact ⟨(hf.finish _ _ _ _ prior).address, (hf.finish _ _ _ _ prior).bytes⟩
  split
  · exact ⟨(hf.finish _ _ _ _ prior).address, (hf.finish _ _ _ _ prior).bytes⟩
  split
  · exact ⟨(hf.finish _ _ _ _ prior).address, (hf.finish _ _ _ _ prior).bytes⟩
  · unfold decodeUnknown
    simp only
    split
    · exact ⟨(hf.finish _ _ _ _ prior).address, (hf.finish _ _ _ _ prior).bytes⟩
    · exact hf.finish _ _ _ _ prior

end

variable {tables : Tables}

/-- What the row of an instruction with ModRM is looked up by. -/
def Head.modrmQuery (engine : Engine) (code : List Byte) (h : Head) (m : Modrm) : Query :=
  { opcodeMap := if h.is3DNow then 7 else h.opcodeMap
    opcode := if h.is3DNow then code.getD m.next 0 else h.opcode
    prefixes := h.prefixes
    addressWidth := decodeAddressWidth engine h.prefixes.address16
    modrm := some m.byte }

/-- The immediate behind ModRM. -/
def Head.modrmImm (h : Head) (m : Modrm) (record : Option Record) : Nat :=
  match record with
  | some record => (if h.is3DNow then 1 else 0) + record.immSize + record.extraImmSize
  | none => modrmImmSize h m

/-- The form that goes with the row. -/
def Head.modrmForm (code : List Byte) (h : Head) (m : Modrm) (record : Option Record) : ModrmForm :=
  { head := h, modrm := m, len := m.next + h.modrmImm m record, immSize := h.modrmImm m record
    displacement := modrmDisplacement code h m record }

/-- What becomes of an instruction with ModRM, once its row is known. -/
def ModrmForm.inst (engine : Engine) (code : List Byte) (address : BitVec 64) (prior : Inst)
    (f : ModrmForm) (record : Option Record) : Inst :=
  match record with
  | some record => decodeTdModrm engine code address prior f record
  | none => decodeModrmFallback engine code address prior f

theorem except_ite_eq_ok {c : Prop} [Decidable c] {made inst : Inst} {status : Status} :
    (if c then .error status else .ok made : Except Status Inst) = .ok inst ↔ ¬ c ∧ inst = made := by
  split <;> simp [*, eq_comm]

theorem decodeModrm_eq_ok {h : Head} {prior inst : Inst} :
    decodeModrm engine tables code address prior h = .ok inst ↔
      ∃ m record,
        parseModrm engine.config.mode (decodeAddressWidth engine h.prefixes.address16) code h.next =
          some m ∧
        ¬ (h.is3DNow ∧ code.length ≤ m.next) ∧
        lookupTdRecord tables engine (h.modrmQuery engine code m) = .ok record ∧
        (h.modrmForm code m record).Checked code ∧
        inst = (h.modrmForm code m record).inst engine code address prior record := by
  unfold decodeModrm
  cases hm : parseModrm engine.config.mode (decodeAddressWidth engine h.prefixes.address16) code
    h.next with
  | none => simp
  | some m =>
    have hnext := parseModrm_next hm
    have hchecked (record : Option Record) : (h.modrmForm code m record).Checked code ↔
        ¬ (code.length < m.next + h.modrmImm m record ∨
          maxInstructionBytes < m.next + h.modrmImm m record) := by
      rw [not_or, not_lt, not_lt]
      constructor
      · exact fun hf => ⟨hf.le_length, hf.le_max⟩
      · exact fun hle => ⟨by dsimp only [Head.modrmForm]; omega, hle.2, hle.1⟩
    simp only [decodeWithModrm, Option.some.injEq, exists_and_left, exists_eq_left']
    split
    · simp [*]
    · rename_i h3DNow
      rw [and_iff_right h3DNow]
      change (match lookupTdRecord tables engine (h.modrmQuery engine code m) with
        | .error status => _
        | .ok record => _) = _ ↔ _
      cases lookupTdRecord tables engine (h.modrmQuery engine code m) with
      | error status => simp
      | ok record =>
        simp only [Except.ok.injEq, exists_eq_left', hchecked]
        cases record with
        | some record => exact except_ite_eq_ok
        | none => exact except_ite_eq_ok

theorem decodeModrm_writes (h : Head) :
    Writes (fun prior => decodeModrm engine tables code address prior h) code address := by
  intro prior inst hdec
  obtain ⟨m, record, -, -, -, hchecked, rfl⟩ := decodeModrm_eq_ok.1 hdec
  cases record with
  | some record => exact decodeTdModrm_reads hchecked record
  | none => exact decodeModrmFallback_reads hchecked

theorem finished_writes {size id mnemonicId : Nat} {instClass : InstClass} {flags : BitVec 32} :
    Writes (fun _ => match finish engine code address size id mnemonicId instClass flags with
      | some inst => .ok inst
      | none => .error .decodeFailed) code address := by
  intro prior inst hdec
  simp only at hdec
  split at hdec
  · cases hdec
    exact finish_reads ‹_›
  · cases hdec

theorem decodeTd_writesUnless {h : Head} (hnext : 0 < h.next)
    (hhand : ¬ (isEndbr code h ∨ isNop h)) (hrel : ¬ h.isRel) :
    WritesUnless ((uncheckedLength engine tables code h).any (overlong code))
      (fun prior => decodeTd engine tables code address prior h) code address := by
  unfold uncheckedLength decodeTd
  rw [if_neg hhand, if_neg hrel]
  cases lookupNoModrm engine tables h with
  | error status => exact Writes.of_error.unless_false
  | ok record =>
    simp only
    cases hrecord : record.filter (·.modrmKind = .none) with
    | some row => exact (decodeTdNoModrm_writes hnext row).unless_false
    | none =>
      simp only [Option.isSome_none, Bool.false_eq_true, if_false]
      split
      · exact decodeRelBranch_writesUnless hnext _
      split
      · exact decodeIo_writesUnless hnext
      simp only [Option.any_none]
      cases endsWithoutModrm engine tables h with
      | true => exact (decodeOther_writes h).unless_false
      | false => exact (decodeModrm_writes h).unless_false

theorem decodeHead_writesUnless {h : Head} (hnext : 0 < h.next) :
    WritesUnless ((uncheckedLength engine tables code h).any (overlong code))
      (fun prior => decodeHead engine tables code address prior h) code address := by
  unfold decodeHead
  simp only
  by_cases hendbr : isEndbr code h = true
  · rw [uncheckedLength, if_pos (Or.inl hendbr)]
    simp only [if_pos hendbr]
    exact finished_writes.unless_false
  by_cases hnop : isNop h = true
  · rw [uncheckedLength, if_pos (Or.inr hnop)]
    simp only [if_neg hendbr, if_pos hnop]
    exact finished_writes.unless_false
  have hhand : ¬ (isEndbr code h ∨ isNop h) := not_or.2 ⟨hendbr, hnop⟩
  simp only [if_neg hendbr, if_neg hnop]
  by_cases hrel : h.isRel = true
  · rw [uncheckedLength, if_neg hhand, if_pos hrel]
    simp only [if_pos hrel]
    exact decodeRelBranch_writesUnless hnext _
  · simp only [if_neg hrel]
    exact decodeTd_writesUnless hnext hhand hrel

theorem decodeOne_writesUnless (harch : engine.target.arch = .x86) :
    WritesUnless (leavesRecord engine tables code)
      (fun prior => decodeOne engine tables code address prior) code address := by
  unfold decodeOne leavesRecord
  simp only
  split
  · next hcode =>
    have hhead : parseHead engine.config.mode code = none := by
      rw [hcode]
      rfl
    rw [hhead]
    exact Writes.of_error.unless_false
  split
  · next hmode =>
    rcases engine.mode_of_x86 harch with h | h | h
    · exact absurd h hmode.1
    · exact absurd h hmode.2.1
    · exact absurd h hmode.2.2
  split
  · next hhead =>
    rw [hhead]
    exact Writes.of_error.unless_false
  · next h hhead =>
    rw [hhead, Option.bind_some]
    exact decodeHead_writesUnless (parseHead_next hhead)

end X86

/-! ## AArch64 -/

theorem A64.decodeOne_writes {tables : A64.Tables} {engine : Engine} {code : List Byte}
    {address : BitVec 64} : Writes (fun _ => A64.decodeOne tables engine code address) code address := by
  intro prior inst hdec
  have hfrom := A64.decodeOne_fromCode hdec
  exact ⟨hfrom.address, by rw [hfrom.bytes, hfrom.size]⟩

/-! ## Any target -/

/-- The instruction at the start of the code is accepted and not written. -/
def leavesRecord (tables : Tables) (engine : Engine) (code : List Byte) : Bool :=
  engine.target.arch == .x86 && X86.leavesRecord engine tables.x86 code

variable {tables : Tables} {engine : Engine} {code : List Byte} {address : BitVec 64}

theorem targetDecodeOne_writesUnless (hbpf : engine.target.arch ≠ .bpf)
    (hwasm : engine.target.arch ≠ .wasm) :
    WritesUnless (leavesRecord tables engine code) (targetDecodeOne tables engine code address) code
      address := by
  unfold targetDecodeOne leavesRecord
  cases harch : engine.target.arch with
  | x86 => exact X86.decodeOne_writesUnless harch
  | arm =>
    refine Writes.unless_false fun prior inst hdec => ?_
    have hfrom := Arm.decodeOne_fromCode hdec
    exact ⟨hfrom.address, hfrom.bytes⟩
  | aarch64 => exact A64.decodeOne_writes.unless_false
  | bpf => exact absurd harch hbpf
  | wasm => exact absurd harch hwasm

/-- A decoded record is the one of the code, or what the record held before. -/
theorem decodeOne_writesUnless (hbpf : engine.target.arch ≠ .bpf) (hwasm : engine.target.arch ≠ .wasm) :
    WritesUnless (leavesRecord tables engine code) (decodeOne tables engine code address) code
      address := by
  have htarget : WritesUnless (leavesRecord tables engine code)
      (targetDecodeOne tables engine code address) code address :=
    targetDecodeOne_writesUnless hbpf hwasm
  constructor
  · intro hleft prior inst hdec
    obtain ⟨inst0, hdec0, rfl⟩ := decodeOne_eq_ok hdec
    have hreads := htarget.writes hleft prior inst0 hdec0
    exact ⟨hreads.address, hreads.bytes⟩
  · intro hleft prior
    obtain ⟨mnemonicId, operands, hprior⟩ := htarget.leaves hleft prior
    refine ⟨mnemonicId, operands.map (Operand.withInfos (tables.operandInfos prior.arch prior.id)), ?_⟩
    rw [decodeOne, hprior]
    rfl

end AsmKit
