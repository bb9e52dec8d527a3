import AsmKit.Decode.Written

/-!
# Where an x86 instruction comes from

Every decoded instruction is written by one of the forms of the decoder: by hand, or from a row that
the tables hold.
-/

namespace AsmKit.X86

variable {engine : Engine} {tables : Tables} {code : List Byte} {address : BitVec 64} {prior inst : Inst}

/-! ## Rows -/

/-- The row is in a bucket, or in the index beside them. -/
def Tables.Holds (tables : Tables) (record : Record) : Prop :=
  (∃ index, record ∈ tables.bucket index) ∨
    ∃ index operand16 rexW addressWidth,
      tables.fastRecord index operand16 rexW addressWidth = some record

/-- The row is in the bucket, or in the index beside it. -/
def Tables.Filed (tables : Tables) (index : Option Nat) (record : Record) : Prop :=
  ∃ i, index = some i ∧ (record ∈ tables.bucket i ∨ ∃ operand16 rexW addressWidth,
    tables.fastRecord i operand16 rexW addressWidth = some record)

theorem Tables.Filed.holds {index : Option Nat} {record : Record} (h : tables.Filed index record) :
    tables.Holds record := by
  obtain ⟨i, -, hbucket | hfast⟩ := h
  · exact .inl ⟨i, hbucket⟩
  · exact .inr ⟨i, hfast⟩

/-- The bucket that is searched. -/
def Query.index (q : Query) (mode : Mode) : Option Nat :=
  tdBucketIndex q.opcodeMap q.opcode (modeBucketIndex mode) (modrmBucketClass q.modrm)

theorem findTdRecordExact_filed {q : Query} {rexW checkFeatures relaxed : Bool} {record : Record}
    (h : findTdRecordExact tables engine q rexW checkFeatures relaxed = some record) :
    tables.Filed (q.index engine.config.mode) record := by
  unfold findTdRecordExact at h
  simp only at h
  split at h
  · cases h
  rw [Option.orElse_eq_orElse, Option.orElse_eq_or] at h
  rcases Option.or_eq_some_iff.1 h with hfast | ⟨-, hrow⟩
  · split at hfast
    · obtain ⟨index, hindex, hrecord⟩ := Option.bind_eq_some_iff.1 hfast
      obtain ⟨hrecord, -⟩ := Option.filter_eq_some_iff.1 hrecord
      exact ⟨index, hindex, .inr ⟨_, _, _, hrecord⟩⟩
    · cases hfast
  · have hmem := List.mem_of_find?_eq_some hrow
    unfold Tables.rows at hmem
    cases hindex : q.index engine.config.mode with
    | none =>
      rw [Query.index] at hindex
      simp [hindex] at hmem
    | some index =>
      rw [Query.index] at hindex
      rw [hindex] at hmem
      exact ⟨index, rfl, .inl hmem⟩

theorem findTdRecord_filed {q : Query} {checkFeatures relaxed : Bool} {record : Record}
    (h : findTdRecord tables engine q checkFeatures relaxed = some record) :
    tables.Filed (q.index engine.config.mode) record := by
  unfold findTdRecord at h
  simp only at h
  split at h
  · rw [Option.orElse_eq_orElse, Option.orElse_eq_or] at h
    rcases Option.or_eq_some_iff.1 h with hfilter | ⟨-, hexact⟩
    · exact findTdRecordExact_filed (Option.filter_eq_some_iff.1 hfilter).1
    · exact findTdRecordExact_filed hexact
  · exact findTdRecordExact_filed h

theorem lookupTdRecord_filed {q : Query} {record : Record}
    (h : lookupTdRecord tables engine q = .ok (some record)) :
    tables.Filed (q.index engine.config.mode) record := by
  unfold lookupTdRecord at h
  simp only at h
  split at h
  · cases h
    exact findTdRecord_filed ‹_›
  split at h
  · cases h
  split at h
  · cases h
    exact findTdRecord_filed ‹_›
  split at h <;> cases h

/-! ## Filling in a row -/

theorem applySseCmpAlias_cases (inst : Inst) (record : Record) :
    applySseCmpAlias inst record = inst ∨
      ∃ predicate mnemonicId, sseCmpMnemonicId record.id predicate = some mnemonicId ∧
        applySseCmpAlias inst record = { inst with mnemonicId } := by
  unfold applySseCmpAlias
  split
  · split
    · split
      · exact .inr ⟨_, _, ‹_›, rfl⟩
      · exact .inl rfl
    · exact .inl rfl
  · exact .inl rfl

theorem ite_applySseCmpAlias (c : Prop) [Decidable c] (inst : Inst) (record : Record) :
    ∃ mnemonicId, (if c then applySseCmpAlias inst record else inst) = { inst with mnemonicId } := by
  split
  · rcases applySseCmpAlias_cases inst record with h | ⟨_, mnemonicId, -, h⟩
    · exact ⟨inst.mnemonicId, h⟩
    · exact ⟨mnemonicId, h⟩
  · exact ⟨inst.mnemonicId, rfl⟩

theorem decodeTdModrm_kept {f : ModrmForm} {record : Record} (hf : f.Checked code) {ops : List Operand}
    (hform : ¬ (record.decodeForm = .unsupported ∨ maxOperands < record.operands.length))
    (hops : tdOperands engine (tdEncoding code address f record) = ops) (hne : ops ≠ []) :
    ∃ mnemonicId attributes flags, decodeTdModrm engine code address prior f record =
      { arch := .x86, mode := engine.config.mode, id := record.id, mnemonicId
        instClass := record.instClass, address, size := f.len, bytes := code.take f.len, flags
        attributes, operands := ops } := by
  unfold decodeTdModrm
  rw [finish_of_size hf.pos hf.le_max hf.le_length, Option.getD_some]
  have hpopulate : ∀ inst, populateTdOperands engine (tdEncoding code address f record) inst =
      { inst with
        mnemonicId := tdMnemonicId (tdEncoding code address f record)
        attributes := inst.attributes ||| tdAttributes engine (tdEncoding code address f record)
        operands := ops } := by
    intro inst
    rw [← hops]
    exact if_neg hform
  simp only [hpopulate]
  have hfull : ops.isEmpty = false := by simpa using hne
  obtain ⟨mnemonicId, h⟩ := ite_applySseCmpAlias (f.head.opcodeMap = 1 ∧ f.head.opcode = 0xc2) _ record
  rw [h]
  split <;> split <;> first | exact ⟨_, _, _, rfl⟩ | exact ⟨_, _, _, by simp only [hfull]; rfl⟩

@[simp] theorem populateTdOperands_instClass (e : Encoding) (inst : Inst) :
    (populateTdOperands engine e inst).instClass = inst.instClass := by
  unfold populateTdOperands
  split <;> rfl

@[simp] theorem populateTdOperands_flags (e : Encoding) (inst : Inst) :
    (populateTdOperands engine e inst).flags = inst.flags := by
  unfold populateTdOperands
  split <;> rfl

theorem decodeTdModrm_class {f : ModrmForm} {record : Record} (hf : f.Checked code) :
    (decodeTdModrm engine code address prior f record).instClass = record.instClass ∧
      (f.modrm.pcRelative = false → ∃ reloc, (reloc = 0 ∨ reloc = InstFlag.unsupportedReloc) ∧
        (decodeTdModrm engine code address prior f record).flags =
          record.flags ||| f.head.prefixes.prefixFlags ||| reloc) := by
  unfold decodeTdModrm
  rw [finish_of_size hf.pos hf.le_max hf.le_length, Option.getD_some]
  simp only
  generalize hinst1 : populateTdOperands engine (tdEncoding code address f record) _ = inst1
  have hclass : inst1.instClass = record.instClass := by
    rw [← hinst1, populateTdOperands_instClass]
  have hflags : inst1.flags = record.flags ||| f.head.prefixes.prefixFlags := by
    rw [← hinst1, populateTdOperands_flags]
  obtain ⟨mnemonicId, h⟩ :=
    ite_applySseCmpAlias (f.head.opcodeMap = 1 ∧ f.head.opcode = 0xc2) inst1 record
  simp only [h]
  constructor
  · split <;> split <;> exact hclass
  · intro hpc
    rw [hpc, if_neg Bool.false_ne_true]
    split
    · exact ⟨_, .inr rfl, by rw [hflags]⟩
    · exact ⟨0, .inl rfl, hflags.trans BitVec.or_zero.symm⟩

/-! ## Forms -/

/-- The form that wrote the instruction. -/
inductive Origin (engine : Engine) (tables : Tables) (code : List Byte) (address : BitVec 64)
    (prior : Inst) : Inst → Prop
  | endbr {h : Head} {inst : Inst} (mnemonicId : Nat)
      (hmnemonic : mnemonicId = Mnemonic.endbr64 ∨ mnemonicId = Mnemonic.endbr32)
      (hfinish : finish engine code address (h.next + 1) Id.endbr mnemonicId .cetEndbr
        h.prefixes.prefixFlags = some inst) : Origin engine tables code address prior inst
  | nop {h : Head} {inst : Inst} (hfinish : finish engine code address h.next Id.nop Mnemonic.nop .nop
      h.prefixes.prefixFlags = some inst) : Origin engine tables code address prior inst
  | rel {h : Head} {immSize : Nat} {inst : Inst}
      (hdec : decodeRelBranch engine code address prior h immSize = .ok inst) :
      Origin engine tables code address prior inst
  | noModrm {h : Head} {record : Record} {inst : Inst} (hnext : 0 < h.next)
      (hrecord : tables.Holds record) (hmodrm : record.modrmKind = .none)
      (hdec : decodeTdNoModrm engine code address prior h record = .ok inst) :
      Origin engine tables code address prior inst
  | io {h : Head} {inst : Inst} (hdec : decodeIo engine code address prior h = .ok inst) :
      Origin engine tables code address prior inst
  | other {h : Head} {inst : Inst} (hdec : decodeOther engine code address h = .ok inst) :
      Origin engine tables code address prior inst
  | modrm {f : ModrmForm} {record : Record} (hchecked : f.Checked code)
      (hrecord : tables.Holds record) :
      Origin engine tables code address prior (decodeTdModrm engine code address prior f record)
  | fallback {f : ModrmForm} (hchecked : f.Checked code) :
      Origin engine tables code address prior (decodeModrmFallback engine code address prior f)

theorem decodeModrm_origin {h : Head} (hdec : decodeModrm engine tables code address prior h = .ok inst) :
    Origin engine tables code address prior inst := by
  obtain ⟨m, record, -, -, hrecord, hchecked, rfl⟩ := decodeModrm_eq_ok.1 hdec
  cases record with
  | some record => exact .modrm hchecked (lookupTdRecord_filed hrecord).holds
  | none => exact .fallback hchecked

theorem lookupNoModrm_filed {h : Head} {record : Record}
    (hlookup : lookupNoModrm engine tables h = .ok (some record)) :
    tables.Filed (tdBucketIndex h.opcodeMap h.opcode (modeBucketIndex engine.config.mode) 0) record := by
  unfold lookupNoModrm at hlookup
  simp only at hlookup
  split at hlookup
  · cases hlookup
  · exact lookupTdRecord_filed hlookup

theorem decodeTd_origin {h : Head} (hnext : 0 < h.next)
    (hdec : decodeTd engine tables code address prior h = .ok inst) :
    Origin engine tables code address prior inst := by
  unfold decodeTd at hdec
  split at hdec
  · cases hdec
  rename_i record hlookup
  split at hdec
  · rename_i row hrow
    obtain ⟨rfl, hmodrm⟩ := Option.filter_eq_some_iff.1 hrow
    exact .noModrm hnext (lookupNoModrm_filed hlookup).holds (by simpa using hmodrm) hdec
  split at hdec
  · exact .rel hdec
  split at hdec
  · exact .io hdec
  split at hdec
  · exact .other hdec
  · exact decodeModrm_origin hdec

theorem decodeOne_origin (hdec : decodeOne engine tables code address prior = .ok inst) :
    Origin engine tables code address prior inst := by
  unfold decodeOne at hdec
  simp only at hdec
  split at hdec
  · cases hdec
  split at hdec
  · cases hdec
  split at hdec
  · cases hdec
  rename_i h hhead
  have hnext := parseHead_next hhead
  unfold decodeHead at hdec
  simp only at hdec
  split at hdec
  · split at hdec
    · cases hdec
      refine .endbr _ ?_ ‹_›
      split
      · exact .inl rfl
      · exact .inr rfl
    · cases hdec
  split at hdec
  · split at hdec
    · cases hdec
      exact .nop ‹_›
    · cases hdec
  split at hdec
  · exact .rel hdec
  · exact decodeTd_origin hnext hdec

end AsmKit.X86
