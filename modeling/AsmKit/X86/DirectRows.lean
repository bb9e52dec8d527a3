import AsmKit.X86.Locality

/-!
# The displacements of the direct branches

Where a direct branch keeps its displacement, and what the decoder makes of it whatever it is:
the branches decoded by hand, and the rows of `jcxz` and `xbegin`.
-/

namespace AsmKit.X86

/-! ## Rows -/

/-- A row with a displacement for its only operand. -/
def relativeRow (id mnemonicId : Nat) (opcode : Byte) (fixedModrm : Option Byte) (immSize : Nat)
    (opSize : OpSize) (adSize : Nat) (instClass : InstClass) (flags : BitVec 32) : Record :=
  { id, mnemonicId, opcode, opcodeMap := 0
    modrmKind := if fixedModrm.isSome then .fixed else .none
    fixedModrm, immSize, immPcRel := true, opSize, adSize, instClass
    flags := InstFlag.direct ||| InstFlag.terminator ||| InstFlag.pcRelative ||| flags
    decodeForm := if fixedModrm.isSome then .fixedModrm else .rawImm
    decodeImmSigned := true, operands := [{ kind := .pcRel, width := immSize * 8 }], immOperand := 0 }

/-- `jcxz`, `jecxz` and `jrcxz`. -/
def jcxzRow (id mnemonicId adSize : Nat) : Record :=
  relativeRow id mnemonicId 0xe3 none 1 .fixed adSize .condBranch InstFlag.conditional

def xbeginRow (id immSize : Nat) (opSize : OpSize) : Record :=
  relativeRow id (Mnemonic.base + 1861) 0xc7 (some 0xf8) immSize opSize 0 .directBranch 0

def relativeRows : List Record :=
  [jcxzRow 66877 (Mnemonic.base + 333) 16, jcxzRow 66878 (Mnemonic.base + 335) 32,
    jcxzRow 66889 (Mnemonic.base + 348) 64, xbeginRow 85976 2 .o16, xbeginRow 85977 4 .o32]

/-- A row of a direct branch without a displacement, in a bucket where ModRM adds none. -/
structure Record.Absolute (record : Record) (bucketClass : Nat) : Prop where
  immPcRel : record.immPcRel = false
  flags : hasFlag record.flags InstFlag.pcRelative = false
  bucketClass : bucketClass = 0 ∨ 9 ≤ bucketClass

/-- The rows of the direct branches: they have no displacement, or they are decoded by hand before
the tables are searched, or they are the known ones, `xbegin` under its ModRM. -/
def DirectRows (tables : Tables) : Prop :=
  ∀ opcodeMap opcode modeIndex bucketClass record,
    tables.Filed (tdBucketIndex opcodeMap opcode modeIndex bucketClass) record →
    record.instClass.isDirectTransfer = true →
    record.Absolute bucketClass ∨ (opcodeMap = 0 ∧ isRelBranch opcode = true) ∨
      (opcodeMap = 0 ∧ opcode = record.opcode ∧ record ∈ relativeRows ∧
        if record.modrmKind = .none then bucketClass = 0 else 9 ≤ bucketClass)

/-! ## The operand -/

/-- The operand holds the `n` bytes at `start`, which end the instruction. -/
structure IsDisplacement (code : List Byte) (start n : Nat) (address : BitVec 64)
    (o : Operand) : Prop where
  kind : o.kind = .pcRel
  imm : o.imm = readSigned (code.drop start) n
  absTarget : o.absTarget = address + BitVec.ofNat 64 (start + n) + o.imm
  width : o.width = n * 8

theorem isDisplacement_pcOperand (code : List Byte) (start n : Nat) (address : BitVec 64) :
    IsDisplacement code start n address (pcOperand (code.drop start) n address (start + n)) :=
  ⟨rfl, rfl, rfl, rfl⟩

/-- What the known rows have in common. -/
structure Record.Relative (record : Record) : Prop where
  immSize : IsDispSize record.immSize
  extraImmSize : record.extraImmSize = 0
  immPcRel : record.immPcRel = true
  populated : ¬ (record.decodeForm = .unsupported ∨ maxOperands < record.operands.length)

theorem relative_of_mem {record : Record} (hmem : record ∈ relativeRows) : record.Relative := by
  simp only [relativeRows, List.mem_cons, List.not_mem_nil, or_false] at hmem
  rcases hmem with rfl | rfl | rfl | rfl | rfl <;>
    exact ⟨by simp [IsDispSize, jcxzRow, xbeginRow, relativeRow], rfl, rfl, by decide⟩

theorem tdOperands_relativeRow {engine : Engine} {e : Encoding} {id mnemonicId immSize adSize : Nat}
    {opcode : Byte} {fixedModrm : Option Byte} {opSize : OpSize} {instClass : InstClass}
    {flags : BitVec 32} (he : e.record = relativeRow id mnemonicId opcode fixedModrm immSize opSize
      adSize instClass flags) (hpos : immSize ≠ 0) :
    tdOperands engine e =
      [{ kind := .pcRel, imm := readInteger e.immPtr immSize true
         absTarget := e.address + BitVec.ofNat 64 e.len + readInteger e.immPtr immSize true
         width := immSize * 8 }] := by
  have hform : withForm engine e (initOperands e.record) = initOperands e.record := by
    rw [withForm, he]
    cases fixedModrm <;> rfl
  have hleading : leadingOperands engine e = initOperands e.record := by
    rw [leadingOperands, hform]
    simp [withFixed, withVector, withEncoded, he, relativeRow, Record.names, noOperand]
  simp [tdOperands, hleading, withShiftCount, withImm, withBroadcast, setImm, he, relativeRow,
    Record.names, Record.operand, noOperand, initOperands, hpos]

theorem tdOperands_of_mem {engine : Engine} {e : Encoding} {code : List Byte} {start : Nat}
    (hmem : e.record ∈ relativeRows) (hptr : e.immPtr = code.drop start)
    (hlen : e.len = start + e.record.immSize) :
    ∃ o, tdOperands engine e = [o] ∧ IsDisplacement code start e.record.immSize e.address o := by
  have hsize : IsDispSize e.record.immSize := (relative_of_mem hmem).immSize
  have hone {id mnemonicId immSize adSize : Nat} {opcode : Byte} {fixedModrm : Option Byte}
      {opSize : OpSize} {instClass : InstClass} {flags : BitVec 32}
      (he : e.record = relativeRow id mnemonicId opcode fixedModrm immSize opSize adSize instClass
        flags) : ∃ o, tdOperands engine e = [o] ∧
          IsDisplacement code start e.record.immSize e.address o := by
    have himm : e.record.immSize = immSize := by rw [he, relativeRow]
    rw [himm] at hsize hlen ⊢
    refine ⟨_, tdOperands_relativeRow he ?_, rfl, ?_, ?_, rfl⟩
    · rcases hsize with rfl | rfl | rfl <;> decide
    · rw [hptr]
      exact readInteger_signed hsize _
    · rw [hlen]
  simp only [relativeRows, List.mem_cons, List.not_mem_nil, or_false] at hmem
  rcases hmem with he | he | he | he | he <;> exact hone he

/-! ## The forms -/

variable {engine : Engine} {tables : Tables} {code : List Byte} {address : BitVec 64} {prior inst : Inst}
  {h : Head} {record : Record} {n : Nat}

theorem pcRelOperand_of_singleton {o : Operand} (hops : inst.operands = [o]) (hkind : o.kind = .pcRel) :
    pcRelOperand inst = some o := by
  simp [pcRelOperand, hops, maxOperands, isPcRelOperand, hkind]

/-- The instruction has an id and a displacement, and no other operand. -/
def HasDisplacement (code : List Byte) (start n : Nat) (address : BitVec 64) (id : Nat) (inst : Inst) :
    Prop :=
  inst.id = id ∧ ∃ o, inst.operands = [o] ∧ IsDisplacement code start n address o

/-- A branch decoded by hand, which keeps the id of the record it does not write. -/
theorem decodeRelBranch_displacement (hpos : 0 < h.next) (hlen : h.next + n ≤ code.length) :
    ∃ inst, decodeRelBranch engine code address prior h n = .ok inst ∧
      HasDisplacement code h.next n address
        (if h.next + n ≤ maxInstructionBytes then (relBranch h.opcodeMap h.opcode).id else prior.id)
        inst := by
  simp only [decodeRelBranch, if_neg (not_lt.2 hlen)]
  refine ⟨_, rfl, ?_, _, rfl, isDisplacement_pcOperand _ _ _ _⟩
  by_cases hmax : h.next + n ≤ maxInstructionBytes
  · rw [if_pos hmax, finish_of_size (by omega) hmax hlen, Option.getD_some]
  · rw [if_neg hmax, finish, if_pos (by omega), Option.getD_none]
    split <;> rfl

theorem populateTdOperands_displacement {e : Encoding} {start : Nat} (hmem : e.record ∈ relativeRows)
    (hptr : e.immPtr = code.drop start) (hlen : e.len = start + e.record.immSize) :
    HasDisplacement code start e.record.immSize e.address inst.id (populateTdOperands engine e inst) := by
  obtain ⟨o, hops, ho⟩ := tdOperands_of_mem hmem hptr hlen
  rw [populateTdOperands, if_neg (relative_of_mem hmem).populated]
  exact ⟨rfl, o, hops, ho⟩

theorem HasDisplacement.of_operands {start id : Nat} {inst' : Inst}
    (hinst : HasDisplacement code start n address id inst) (hid : inst'.id = inst.id)
    (hops : inst'.operands = inst.operands) : HasDisplacement code start n address id inst' := by
  obtain ⟨hid0, o, hops0, ho⟩ := hinst
  exact ⟨hid.trans hid0, o, hops.trans hops0, ho⟩

theorem HasDisplacement.isEmpty {start id : Nat} (hinst : HasDisplacement code start n address id inst) :
    inst.operands.isEmpty = false := by
  obtain ⟨-, o, hops, -⟩ := hinst
  rw [hops]
  rfl

theorem decodeTdNoModrm_displacement (hmem : record ∈ relativeRows) (hpos : 0 < h.next)
    (hmax : h.next + record.immSize ≤ maxInstructionBytes)
    (hlen : h.next + record.immSize ≤ code.length) :
    ∃ inst, decodeTdNoModrm engine code address prior h record = .ok inst ∧
      HasDisplacement code h.next record.immSize address record.id inst := by
  have hrow := relative_of_mem hmem
  simp only [decodeTdNoModrm, hrow.extraImmSize, Nat.add_zero, hrow.immPcRel, if_true]
  rw [if_neg (by omega), finish_of_size (by omega) hmax hlen, Option.getD_some]
  generalize hinst : populateTdOperands engine _ _ = inst
  have hdisp : HasDisplacement code h.next record.immSize address record.id inst := by
    rw [← hinst]
    exact populateTdOperands_displacement hmem rfl rfl
  exact ⟨_, rfl, hdisp.of_operands rfl (by simp [hdisp.isEmpty])⟩

theorem decodeTdModrm_displacement {f : ModrmForm} {start : Nat} (hchecked : f.Checked code)
    (hmem : record ∈ relativeRows) (himm : f.immSize = record.immSize)
    (hlen : f.len = start + record.immSize) :
    HasDisplacement code start record.immSize address record.id
      (decodeTdModrm engine code address prior f record) := by
  have hptr : (tdEncoding code address f record).immPtr = code.drop start := by
    simp only [tdEncoding, himm, hlen, Nat.add_sub_cancel]
  obtain ⟨o, hops, ho⟩ := tdOperands_of_mem hmem hptr hlen
  obtain ⟨_, _, _, hinst⟩ :=
    decodeTdModrm_kept hchecked (relative_of_mem hmem).populated hops (List.cons_ne_nil _ _)
  rw [hinst]
  exact ⟨rfl, o, rfl, ho⟩

/-! ## What is no direct branch -/

theorem finish_instClass {size id mnemonicId : Nat} {instClass : InstClass} {flags : BitVec 32}
    (hfinish : finish engine code address size id mnemonicId instClass flags = some inst) :
    inst.instClass = instClass := by
  unfold finish at hfinish
  split at hfinish
  · cases hfinish
  · cases hfinish
    rfl

theorem decodeOther_instClass (hdec : decodeOther engine code address h = .ok inst) :
    inst.instClass = .other := by
  simp only [decodeOther] at hdec
  split at hdec
  · cases hdec
  split at hdec
  · cases hdec
    exact finish_instClass ‹_›
  · cases hdec

theorem decodeModrmFallback_instClass {f : ModrmForm} (hf : f.Checked code) :
    (decodeModrmFallback engine code address prior f).instClass.isDirectTransfer = false := by
  have hfinish (id mnemonicId : Nat) (instClass : InstClass) (flags : BitVec 32) :
      ((finish engine code address f.len id mnemonicId instClass flags).getD prior).instClass =
        instClass := by
    rw [finish_of_size hf.pos hf.le_max hf.le_length, Option.getD_some]
  unfold decodeModrmFallback
  simp only
  split
  · exact congrArg InstClass.isDirectTransfer (hfinish _ _ _ _)
  split
  · exact congrArg InstClass.isDirectTransfer (hfinish _ _ _ _)
  split
  · exact congrArg InstClass.isDirectTransfer (hfinish _ _ _ _)
  · simp only [decodeUnknown]
    split
    · exact congrArg InstClass.isDirectTransfer (hfinish _ _ _ _)
    · exact congrArg InstClass.isDirectTransfer (hfinish _ _ _ _)

theorem decodeIo_pcRelOperand (hdec : decodeIo engine code address prior h = .ok inst) :
    pcRelOperand inst = none := by
  have hplain (o : Operand) (index : Nat) : isPcRelOperand (o.atIndex index) = isPcRelOperand o := rfl
  have hport (value : BitVec 64) : isPcRelOperand (if isIoImm h.opcode = true then
      Operand.ofImm value 8 else Operand.ofReg Reg.dx 16) = false := by
    split <;> rfl
  have hacc (reg width : Nat) : isPcRelOperand (Operand.ofReg reg width) = false := rfl
  simp only [decodeIo] at hdec
  generalize (if isIoImm h.opcode = true then 1 else 0) = immSize at hdec
  split at hdec
  · cases hdec
  · cases hdec
    rw [pcRelOperand, List.find?_eq_none]
    intro o ho
    have ho := List.mem_of_mem_take ho
    simp only at ho
    split at ho <;> simp only [List.mem_cons, List.not_mem_nil, or_false] at ho <;>
      rcases ho with rfl | rfl <;> simp only [hplain, hport, hacc, Bool.false_eq_true, not_false_eq_true]

theorem decodeTdNoModrm_class (hpos : 0 < h.next)
    (hdec : decodeTdNoModrm engine code address prior h record = .ok inst) :
    inst.instClass = record.instClass ∧
      (record.immPcRel = false → inst.flags = record.flags ||| h.prefixes.prefixFlags) := by
  simp only [decodeTdNoModrm] at hdec
  split at hdec
  · cases hdec
  next hlen =>
  rw [finish_of_size (by omega) (by omega) (by omega), Option.getD_some] at hdec
  split at hdec
  · next himm =>
    cases hdec
    exact ⟨populateTdOperands_instClass _ _, fun h => by rw [h] at himm; cases himm⟩
  · cases hdec
    exact ⟨populateTdOperands_instClass _ _, fun _ => populateTdOperands_flags _ _⟩

/-! ## Registers in ModRM -/

theorem modrmBucketClass_pos (modrm : Byte) : 0 < modrmBucketClass (some modrm) := by
  simp only [modrmBucketClass]
  split <;> omega

theorem mod_of_bucketClass {modrm : Byte} (h : 9 ≤ modrmBucketClass (some modrm)) : modrm >>> 6 = 3 := by
  by_contra hmod
  simp only [modrmBucketClass, if_neg hmod] at h
  have hreg : ((modrm >>> 3) &&& 7).toNat ≤ 7 := by
    rw [BitVec.toNat_and]
    exact Nat.and_le_right
  omega

theorem parseModrm16_register {m : Modrm} (hmod : m.mod = 3) : parseModrm16 m = m := by
  unfold parseModrm16
  rw [hmod, if_neg (fun h => absurd h.1 (by decide)), if_neg (by decide), if_neg (by decide)]

theorem modDisp_register {m : Modrm} (hmod : m.mod = 3) : modDisp m = m := by
  unfold modDisp
  rw [hmod, if_neg (by decide), if_neg (by decide)]

theorem parseModrm_register {mode : Mode} {addressWidth i : Nat} (hlen : i < code.length)
    (hmod : code.getD i 0 >>> 6 = 3) :
    parseModrm mode addressWidth code i = some { byte := code.getD i 0, next := i + 1 } := by
  have hm : Modrm.mod { byte := code.getD i 0, next := i + 1 } = 3 := hmod
  simp only [parseModrm, if_neg (not_le.2 hlen), parseModrm16_register hm, modDisp_register hm]
  split
  · rfl
  · rw [hm, if_neg (fun h => h.2 rfl), if_neg (fun h => absurd h.1 (by decide))]

theorem parseModrm16_byte (m : Modrm) : (parseModrm16 m).byte = m.byte := by
  simp only [parseModrm16, Modrm.withDisp, apply_ite Modrm.byte, ite_self]

theorem modDisp_byte (m : Modrm) : (modDisp m).byte = m.byte := by
  simp only [modDisp, Modrm.withDisp, apply_ite Modrm.byte, ite_self]

theorem parseModrm_byte {mode : Mode} {addressWidth i : Nat} {m : Modrm}
    (hparse : parseModrm mode addressWidth code i = some m) :
    i < code.length ∧ m.byte = code.getD i 0 := by
  simp only [parseModrm] at hparse
  split at hparse
  · cases hparse
  next hlen =>
  refine ⟨not_le.1 hlen, ?_⟩
  split at hparse
  · cases hparse
    exact parseModrm16_byte _
  split at hparse
  · split at hparse
    · cases hparse
    · cases hparse
      rw [modDisp_byte]
      split <;> rfl
  split at hparse
  · cases hparse
    rfl
  · cases hparse
    exact modDisp_byte _

/-! ## The decoder -/

/-- The decoder takes the `n` bytes at `start` for a displacement, whatever they are. -/
structure TakesDisplacement (engine : Engine) (tables : Tables) (code : List Byte)
    (address : BitVec 64) (prior : Inst) (start n id : Nat) : Prop where
  size : IsDispSize n
  bound : start + n ≤ 2 * maxInstructionBytes
  room : start + n ≤ code.length
  decodes : ∀ code', SameUpTo start code code' → start + n ≤ code'.length →
    ∃ inst, decodeOne engine tables code' address prior = .ok inst ∧
      HasDisplacement code' start n address id inst

theorem parseHead_nil (mode : Mode) : parseHead mode [] = none := by
  simp [parseHead, scanPrefixes]

theorem decodeOne_head (hdec : decodeOne engine tables code address prior = .ok inst) :
    ∃ h, parseHead engine.config.mode code = some h ∧
      ∀ code', parseHead engine.config.mode code' = some h →
        decodeOne engine tables code' address prior = decodeHead engine tables code' address prior h := by
  unfold decodeOne at hdec
  simp only at hdec
  split at hdec
  · cases hdec
  split at hdec
  · cases hdec
  next hmode =>
  split at hdec
  · cases hdec
  next h hhead =>
  refine ⟨h, hhead, fun code' hhead' => ?_⟩
  have hne : code' ≠ [] := by
    rintro rfl
    rw [parseHead_nil] at hhead'
    cases hhead'
  simp only [decodeOne, if_neg hne, if_neg hmode, hhead']

section

variable (hhead : parseHead engine.config.mode code = some h)
  (heq : ∀ code', parseHead engine.config.mode code' = some h →
    decodeOne engine tables code' address prior = decodeHead engine tables code' address prior h)

include hhead heq

theorem TakesDisplacement.of_head {start id : Nat} (hplain : h.Plain) (hstart : h.next ≤ start)
    (hsize : IsDispSize n) (hbound : start + n ≤ 2 * maxInstructionBytes)
    (hroom : start + n ≤ code.length)
    (hdecodes : ∀ code', SameUpTo start code code' → start + n ≤ code'.length →
      ∃ inst, decodeHead engine tables code' address prior h = .ok inst ∧
        HasDisplacement code' start n address id inst) :
    TakesDisplacement engine tables code address prior start n id := by
  refine ⟨hsize, hbound, hroom, fun code' hsame hlen => ?_⟩
  rw [heq code' (parseHead_congr hhead hplain (hsame.mono hstart))]
  exact hdecodes code' hsame hlen

theorem takesDisplacement_rel (hplain : h.Plain) (hsize : IsDispSize n)
    (hrel : ∀ code', decodeHead engine tables code' address prior h =
      decodeRelBranch engine code' address prior h n)
    (hdec : decodeRelBranch engine code address prior h n = .ok inst) :
    ∃ start n id, TakesDisplacement engine tables code address prior start n id := by
  have hparsed := parseHead_parsed hhead
  have hn : n ≤ 4 := by rcases hsize with rfl | rfl | rfl <;> decide
  have hbound := hparsed.bound
  have hroom : h.next + n ≤ code.length := by
    simp only [decodeRelBranch] at hdec
    split at hdec
    · cases hdec
    · omega
  refine ⟨h.next, n,
    if h.next + n ≤ maxInstructionBytes then (relBranch h.opcodeMap h.opcode).id else prior.id,
    .of_head hhead heq hplain (Nat.le_refl _) hsize ?_ hroom fun code' _ hlen => ?_⟩
  · unfold maxInstructionBytes at *
    omega
  · rw [hrel code']
    exact decodeRelBranch_displacement hparsed.pos hlen

theorem takesDisplacement_noModrm (hplain : h.Plain) (hmem : record ∈ relativeRows)
    (hrow : ∀ code', decodeHead engine tables code' address prior h =
      decodeTdNoModrm engine code' address prior h record)
    (hdec : decodeTdNoModrm engine code address prior h record = .ok inst) :
    ∃ start n id, TakesDisplacement engine tables code address prior start n id := by
  have hparsed := parseHead_parsed hhead
  have hbounds : h.next + record.immSize ≤ maxInstructionBytes ∧
      h.next + record.immSize ≤ code.length := by
    simp only [decodeTdNoModrm, (relative_of_mem hmem).extraImmSize] at hdec
    split at hdec
    · cases hdec
    · omega
  refine ⟨h.next, record.immSize, record.id, .of_head hhead heq hplain (Nat.le_refl _)
    (relative_of_mem hmem).immSize (by omega) hbounds.2 fun code' _ hlen => ?_⟩
  rw [hrow code']
  exact decodeTdNoModrm_displacement hmem hparsed.pos hbounds.1 hlen

theorem takesDisplacement_modrm (hplain : h.Plain) (hmap : h.opcodeMap = 0) {m : Modrm}
    (hparse : parseModrm engine.config.mode (decodeAddressWidth engine h.prefixes.address16) code h.next =
      some m) (hmod : m.byte >>> 6 = 3)
    (hlookup : lookupTdRecord tables engine (h.modrmQuery engine code m) = .ok (some record))
    (hchecked : (h.modrmForm code m (some record)).Checked code) (hmem : record ∈ relativeRows)
    (hmodrm : ∀ code', decodeHead engine tables code' address prior h =
      decodeModrm engine tables code' address prior h) :
    ∃ start n id, TakesDisplacement engine tables code address prior start n id := by
  have h3DNow : h.is3DNow = false := by simp [Head.is3DNow, hmap]
  have himm : h.modrmImm m (some record) = record.immSize := by
    simp [Head.modrmImm, h3DNow, (relative_of_mem hmem).extraImmSize]
  obtain ⟨hlen, hbyte⟩ := parseModrm_byte hparse
  rw [hbyte] at hmod
  have hm : m = { byte := code.getD h.next 0, next := h.next + 1 } := by
    rw [parseModrm_register hlen hmod] at hparse
    exact (Option.some.inj hparse).symm
  have hformLen (code' : List Byte) : (h.modrmForm code' m (some record)).len =
      h.next + 1 + record.immSize := by
    simp only [Head.modrmForm, himm]
    rw [hm]
  have hmax := hchecked.le_max
  have hroom := hchecked.le_length
  rw [hformLen] at hmax hroom
  refine ⟨h.next + 1, record.immSize, record.id, .of_head hhead heq hplain (Nat.le_succ _)
    (relative_of_mem hmem).immSize (by omega) hroom fun code' hsame hlen' => ?_⟩
  have hget : code'.getD h.next 0 = code.getD h.next 0 := hsame.bytes _ (Nat.lt_succ_self _)
  have hparse' : parseModrm engine.config.mode (decodeAddressWidth engine h.prefixes.address16) code'
      h.next = some m := by
    rw [parseModrm_register (by omega) (hget ▸ hmod), hget, hm]
  have hquery : h.modrmQuery engine code' m = h.modrmQuery engine code m := by
    simp [Head.modrmQuery, h3DNow]
  have hchecked' : (h.modrmForm code' m (some record)).Checked code' := by
    refine ⟨?_, ?_, ?_⟩ <;> rw [hformLen] <;> omega
  refine ⟨decodeTdModrm engine code' address prior (h.modrmForm code' m (some record)) record, ?_,
    decodeTdModrm_displacement hchecked' hmem himm (hformLen code')⟩
  rw [hmodrm code', decodeModrm_eq_ok]
  exact ⟨m, some record, hparse', by simp [h3DNow], hquery ▸ hlookup, hchecked', rfl⟩

end

/-! ## Every direct branch -/

theorem isDispSize_near (mode : Mode) (operand16 : Bool) : IsDispSize (nearBranchImmSize mode operand16) := by
  unfold nearBranchImmSize operandImmSize
  split
  · exact .inr (.inr rfl)
  split
  · exact .inr (.inl rfl)
  · exact .inr (.inr rfl)

theorem isDispSize_rel (mode : Mode) (h : Head) : IsDispSize (relBranchImmSize mode h) := by
  unfold relBranchImmSize
  split
  · exact .inl rfl
  · exact isDispSize_near _ _

theorem plain_of_isRel (hrel : h.isRel = true) : h.Plain := by
  have hop : ∀ op, isRelBranch op = true → op ∉ vectorOpcodes ∧ op ≠ 0xd5 := by decide
  simp only [Head.isRel, Bool.and_eq_true, Bool.or_eq_true, beq_iff_eq] at hrel
  rcases hrel.2 with ⟨-, hbranch⟩ | ⟨hmap, -⟩
  · exact .inr (hop _ hbranch)
  · exact .inl (by rw [hmap]; decide)

theorem decodeHead_rel (hrel : h.isRel = true) :
    decodeHead engine tables code address prior h =
      decodeRelBranch engine code address prior h (relBranchImmSize engine.config.mode h) := by
  obtain ⟨hnotEndbr, hnotNop⟩ := opcode_of_isRel hrel
  have hendbr : isEndbr code h = false := by
    simp only [isEndbr, Bool.and_eq_false_iff, beq_eq_false_iff_ne]
    tauto
  have hnop : isNop h = false := by
    simp only [isNop, Bool.and_eq_false_iff, beq_eq_false_iff_ne]
    tauto
  simp [decodeHead, hendbr, hnop, hrel]

theorem decodeHead_td (hendbr : isEndbr code h = false) (hnop : isNop h = false) (hrel : h.isRel = false) :
    decodeHead engine tables code address prior h = decodeTd engine tables code address prior h := by
  simp [decodeHead, hendbr, hnop, hrel]

theorem isEndbr_of_map_zero (hmap : h.opcodeMap = 0) (code : List Byte) : isEndbr code h = false := by
  simp [isEndbr, hmap]

theorem relativeRow_of_direct {opcodeMap : Nat} {opcode : Byte} {modeIndex bucketClass : Nat}
    (hrows : DirectRows tables)
    (hfiled : tables.Filed (tdBucketIndex opcodeMap opcode modeIndex bucketClass) record)
    (hdirect : record.instClass.isDirectTransfer = true)
    (hhand : ¬ (opcodeMap = 0 ∧ isRelBranch opcode = true)) (habsolute : ¬ record.Absolute bucketClass) :
    opcodeMap = 0 ∧ opcode = record.opcode ∧ record ∈ relativeRows ∧
      if record.modrmKind = .none then bucketClass = 0 else 9 ≤ bucketClass := by
  rcases hrows _ _ _ _ _ hfiled hdirect with h | h | h
  · exact absurd h habsolute
  · exact absurd h hhand
  · exact h

theorem plain_of_mem (hmem : record ∈ relativeRows) (hopcode : h.opcode = record.opcode) : h.Plain := by
  have hall : ∀ record ∈ relativeRows, record.opcode ∉ vectorOpcodes ∧ record.opcode ≠ 0xd5 := by
    decide
  exact .inr (hopcode ▸ hall _ hmem)

section

variable (hrows : DirectRows tables) (hparsed : h.Parsed)
  (hhand : ¬ (h.opcodeMap = 0 ∧ isRelBranch h.opcode = true))

include hrows hparsed hhand

theorem relativeRow_of_noModrm (hlookup : lookupNoModrm engine tables h = .ok (some record))
    (hdec : decodeTdNoModrm engine code address prior h record = .ok inst)
    (hdirect : inst.instClass.isDirectTransfer = true) (hflag : inst.has InstFlag.pcRelative = true) :
    h.opcodeMap = 0 ∧ h.opcode = record.opcode ∧ record ∈ relativeRows := by
  obtain ⟨hclass, hflags⟩ := decodeTdNoModrm_class hparsed.pos hdec
  obtain ⟨hmap, hopcode, hmem, -⟩ := relativeRow_of_direct hrows (lookupNoModrm_filed hlookup)
    (hclass ▸ hdirect) hhand fun habsolute => by
      rw [Inst.has, hflags habsolute.immPcRel,
        hasFlag_or_eq_false.2 ⟨habsolute.flags, hparsed.flags⟩] at hflag
      cases hflag
  exact ⟨hmap, hopcode, hmem⟩

theorem relativeRow_of_modrm {m : Modrm}
    (hparse : parseModrm engine.config.mode (decodeAddressWidth engine h.prefixes.address16) code h.next =
      some m)
    (hlookup : lookupTdRecord tables engine (h.modrmQuery engine code m) = .ok (some record))
    (hf : (h.modrmForm code m (some record)).Checked code)
    (hinst : inst = decodeTdModrm engine code address prior (h.modrmForm code m (some record)) record)
    (hdirect : inst.instClass.isDirectTransfer = true) (hflag : inst.has InstFlag.pcRelative = true) :
    h.opcodeMap = 0 ∧ h.opcode = record.opcode ∧ record ∈ relativeRows ∧ m.byte >>> 6 = 3 := by
  subst hinst
  obtain ⟨hclass, hflags⟩ := decodeTdModrm_class hf
  obtain ⟨hlen, hbyte⟩ := parseModrm_byte hparse
  have hfiled := lookupTdRecord_filed hlookup
  have hmap : (h.modrmQuery engine code m).opcodeMap = 0 →
      h.opcodeMap = 0 ∧ (h.modrmQuery engine code m).opcode = h.opcode := by
    simp only [Head.modrmQuery]
    cases h.is3DNow with
    | true =>
      intro h0
      rw [if_pos rfl] at h0
      cases h0
    | false => exact fun h0 => ⟨h0, rfl⟩
  have hclass0 := (modrmBucketClass_pos m.byte).ne'
  obtain ⟨h0, hopcode, hmem, hbucket⟩ := relativeRow_of_direct hrows hfiled (hclass ▸ hdirect)
    (fun hq => hhand ⟨(hmap hq.1).1, (hmap hq.1).2 ▸ hq.2⟩) fun habsolute => by
      have hmod := mod_of_bucketClass (habsolute.bucketClass.resolve_left hclass0)
      rw [parseModrm_register hlen (hbyte ▸ hmod)] at hparse
      obtain ⟨reloc, hreloc, heq⟩ := hflags (by cases hparse; rfl)
      have hrelocFlag : hasFlag reloc InstFlag.pcRelative = false := by
        rcases hreloc with rfl | rfl <;> decide
      have hhas := hasFlag_or_eq_false.2
        ⟨hasFlag_or_eq_false.2 ⟨habsolute.flags, hparsed.flags⟩, hrelocFlag⟩
      rw [Inst.has, heq] at hflag
      exact Bool.false_ne_true (hhas.symm.trans hflag)
  rw [(hmap h0).2] at hopcode
  refine ⟨(hmap h0).1, hopcode, hmem, mod_of_bucketClass ?_⟩
  split at hbucket
  · exact absurd hbucket hclass0
  · exact hbucket

end

/-- Every direct branch with a relative operand has a displacement that the decoder takes. -/
theorem takesDisplacement_of_decodeOne (hrows : DirectRows tables)
    (hdec : decodeOne engine tables code address prior = .ok inst)
    (hdirect : inst.instClass.isDirectTransfer = true) (hflag : inst.has InstFlag.pcRelative = true)
    (hop : pcRelOperand inst ≠ none) :
    ∃ start n id, TakesDisplacement engine tables code address prior start n id := by
  obtain ⟨h, hhead, heq⟩ := decodeOne_head hdec
  have hparsed := parseHead_parsed hhead
  rw [heq code hhead] at hdec
  cases hrel : h.isRel with
  | true =>
    rw [decodeHead_rel hrel] at hdec
    exact takesDisplacement_rel hhead heq (plain_of_isRel hrel) (isDispSize_rel _ _)
      (fun _ => decodeHead_rel hrel) hdec
  | false =>
  have hhand : ¬ (h.opcodeMap = 0 ∧ isRelBranch h.opcode = true) := by
    rintro ⟨hmap, hbranch⟩
    simp [Head.isRel, hparsed.legacy hmap, hmap, hbranch] at hrel
  cases hendbr : isEndbr code h with
  | true =>
    simp only [decodeHead, hendbr, if_true] at hdec
    split at hdec
    · cases hdec
      rw [finish_instClass ‹_›] at hdirect
      cases hdirect
    · cases hdec
  | false =>
  cases hnop : isNop h with
  | true =>
    simp only [decodeHead, hendbr, hnop, Bool.false_eq_true, if_true, if_false] at hdec
    split at hdec
    · cases hdec
      rw [finish_instClass ‹_›] at hdirect
      cases hdirect
    · cases hdec
  | false =>
  rw [decodeHead_td hendbr hnop hrel, decodeTd] at hdec
  split at hdec
  · cases hdec
  next found hlookup =>
  split at hdec
  · next record hfilter =>
    obtain ⟨rfl, -⟩ := Option.filter_eq_some_iff.1 hfilter
    obtain ⟨hmap, hopcode, hmem⟩ :=
      relativeRow_of_noModrm hrows hparsed hhand hlookup hdec hdirect hflag
    refine takesDisplacement_noModrm hhead heq (plain_of_mem hmem hopcode) hmem (fun code' => ?_) hdec
    rw [decodeHead_td (isEndbr_of_map_zero hmap code') hnop hrel, decodeTd, hlookup]
    simp only [hfilter]
  next hfilter =>
  split at hdec
  · next hvex =>
    have hlegacy : h.isLegacy = false := by simpa using hvex.2.1
    refine takesDisplacement_rel hhead heq (.inl (by rw [hvex.2.2.1]; decide)) (isDispSize_near _ _)
      (fun code' => ?_) hdec
    rw [decodeHead_td (by simp [isEndbr, hlegacy]) hnop hrel, decodeTd, hlookup]
    simp only [hfilter, if_pos hvex]
  next hvex =>
  split at hdec
  · exact absurd (decodeIo_pcRelOperand hdec) hop
  next hio =>
  split at hdec
  · rw [decodeOther_instClass hdec] at hdirect
    cases hdirect
  · next hends =>
    obtain ⟨m, record, hparse, h3DNow, hfound, hchecked, rfl⟩ := decodeModrm_eq_ok.1 hdec
    cases record with
    | none =>
      rw [ModrmForm.inst, decodeModrmFallback_instClass hchecked] at hdirect
      cases hdirect
    | some record =>
      obtain ⟨hmap, hopcode, hmem, hmod⟩ := relativeRow_of_modrm hrows hparsed hhand hparse hfound hchecked
        rfl hdirect hflag
      refine takesDisplacement_modrm hhead heq (plain_of_mem hmem hopcode) hmap hparse hmod hfound hchecked
        hmem fun code' => ?_
      rw [decodeHead_td (isEndbr_of_map_zero hmap code') hnop hrel, decodeTd, hlookup]
      simp only [hfilter, if_neg hvex, if_neg hio, if_neg hends]

end AsmKit.X86
