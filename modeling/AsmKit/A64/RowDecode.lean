import AsmKit.A64.PcRelDecode
import AsmKit.Lib.Pattern

/-!
# Words with one row

What the decoder makes of a word that only one row matches, from the operands of the row one by one.
-/

namespace AsmKit.A64

open SignedField

/-! ## Operands -/

theorem decodeTdOperand_imm {record : Record} {w : BitVec 32} {desc : OperandDesc}
    (address : BitVec 64) (hkind : desc.kind = .imm)
    (htransform : desc.transform = .rawUnsigned ∨ desc.transform = .movShift32 ∨
      desc.transform = .movShift64) :
    decodeTdOperand record w address desc =
      some (Operand.ofImm ((tdOperandValue record w desc.operandIndex).setWidth 64) desc.width) := by
  rcases htransform with h | h | h <;> simp only [decodeTdOperand, hkind, tdImmValue, h] <;> rfl

theorem foldTdMemoryOperands_of_class {tables : Tables} {record : Record}
    (hload : record.instClass ≠ .load) (hstore : record.instClass ≠ .store)
    (hprefetch : record.isPrefetchMemory = false) (w : BitVec 32) (operands : List Operand) :
    foldTdMemoryOperands tables record w operands = operands := by
  unfold foldTdMemoryOperands
  exact if_pos ⟨hload, hstore, by simp [hprefetch]⟩

theorem tdRecordOperandsMatch_of_map {record : Record} {w : BitVec 32} {address : BitVec 64}
    {operands : List Operand} (hok : record.indicesOk = true)
    (hops : record.descs.map (decodeTdOperand record w address) = operands.map some) :
    tdRecordOperandsMatch record w = true := by
  rw [tdRecordOperandsMatch, hok, Bool.true_and, List.all_eq_true]
  intro desc hdesc
  have hmem : decodeTdOperand record w address desc ∈ operands.map some := by
    rw [← hops]
    exact List.mem_map_of_mem hdesc
  obtain ⟨operand, -, hoperand⟩ := List.mem_map.1 hmem
  unfold decodeTdOperand at hoperand
  cases hkind : desc.kind with
  | reg =>
    simp only [hkind] at hoperand
    simp [← hoperand]
  | imm =>
    simp only [hkind] at hoperand
    have hsome : ((tdImmValue (tdOperandValue record w desc.operandIndex) desc).map
        (Operand.ofImm · desc.width)).isSome = true := by rw [← hoperand]; rfl
    simpa using hsome
  | opaque_ | pcRel | unknown => rfl

/-! ## The instruction -/

/-- What a row needs to be decoded from its operands: they stand in order, nothing is asked of the
word besides the pattern, and no landing pad fits it. -/
structure Record.WellFormed (record : Record) : Prop where
  nonempty : record.descs ≠ []
  indicesOk : record.indicesOk = true
  ordered : record.descs.map (·.operandIndex) = List.range' 0 record.descs.length
  predicate : record.predicate = .none
  notBti : ¬ record.MatchesBti

theorem finishTd_of_operands {tables : Tables} {engine : Engine} {record : Record} {code : List Byte}
    {address : BitVec 64} {operands : List Operand} {inst : Inst} (hwf : record.WellFormed)
    (hops : record.descs.map (decodeTdOperand record (load32le code) address) = operands.map some)
    (h : finishTd tables engine code address record = .ok inst) :
    inst.mnemonicId = record.mnemonicId ∧ inst.instClass = record.instClass ∧
      inst.id = record.id ∧ inst.operands =
        foldTdMemoryOperands tables record (load32le code)
          (operands.mapIdx fun i operand => operand.atIndex i) := by
  rw [finishTd, decodeTdOperands_in_order _ address hwf.nonempty hwf.indicesOk hwf.ordered hops] at h
  cases h
  exact ⟨rfl, rfl, rfl, rfl⟩

theorem decodeOne_of_operands {tables : Tables} {engine : Engine} {record : Record}
    {code : List Byte} {address : BitVec 64} {operands : List Operand} {inst : Inst}
    (halone : tables.Alone record) (hwf : record.WellFormed)
    (hw : load32le code &&& record.mask = record.value)
    (hops : record.descs.map (decodeTdOperand record (load32le code) address) = operands.map some)
    (hmode : engine.config.mode = .aarch64) (h : decodeOne tables engine code address = .ok inst) :
    inst.mnemonicId = record.mnemonicId ∧ inst.instClass = record.instClass ∧
      inst.id = record.id ∧ inst.operands =
        foldTdMemoryOperands tables record (load32le code)
          (operands.mapIdx fun i operand => operand.atIndex i) := by
  have hlen := length_of_decodeOne h
  have hmatch := tdRecordOperandsMatch_of_map hwf.indicesOk hops
  rw [decodeOne_alone halone hw hwf.predicate hmatch hwf.notBti hmode hlen] at h
  split at h
  · exact finishTd_of_operands hwf hops h
  · cases h

/-! ## Tables of disjoint rows -/

/-- Two rows ask for different bits of a word. -/
def Record.Disjoint (record other : Record) : Prop :=
  record.mask &&& other.mask &&& (record.value ^^^ other.value) ≠ 0

instance (record other : Record) : Decidable (record.Disjoint other) :=
  inferInstanceAs (Decidable (_ ≠ _))

theorem Record.Disjoint.not_matches {record other : Record} {w : BitVec 32}
    (h : record.Disjoint other) (hw : w &&& record.mask = record.value) :
    (w &&& other.mask == other.value) = false :=
  beq_eq_false_iff_ne.2 (BitPattern.and_ne_of_disjoint hw h)

theorem Record.Disjoint.symm {record other : Record} (h : record.Disjoint other) :
    other.Disjoint record := by
  unfold Disjoint at h ⊢
  rwa [BitVec.and_comm other.mask, BitVec.xor_comm other.value]

def Tables.ofRecords (records : List Record) : Tables where
  candidates _ := records.map fun record => (record.id, record)
  pstateLiterals := []
  hasWritebackBaseFirst _ := false

theorem filter_of_disjoint {records : List Record} (h : records.Pairwise Record.Disjoint)
    {record : Record} (hmem : record ∈ records) {w : BitVec 32}
    (hw : w &&& record.mask = record.value) :
    records.filter (fun other => w &&& other.mask == other.value) = [record] := by
  induction records with
  | nil => cases hmem
  | cons first rest ih =>
    obtain ⟨hfirst, hrest⟩ := List.pairwise_cons.1 h
    rcases List.mem_cons.1 hmem with rfl | hmem
    · have hnone : rest.filter (fun other => w &&& other.mask == other.value) = [] := by
        rw [List.filter_eq_nil_iff]
        intro other hother
        rw [(hfirst other hother).not_matches hw]
        decide
      have hyes : (w &&& record.mask == record.value) = true := beq_iff_eq.2 hw
      rw [List.filter_cons, if_pos hyes, hnone]
    · have hno := (hfirst record hmem).symm.not_matches hw
      rw [List.filter_cons, if_neg (by rw [hno]; decide), ih hrest hmem]

theorem Tables.ofRecords_alone {records : List Record} (h : records.Pairwise Record.Disjoint)
    {record : Record} (hmem : record ∈ records) : (Tables.ofRecords records).Alone record := by
  intro w hw
  refine ⟨record.id, ?_⟩
  rw [ofRecords, List.filter_map]
  exact congrArg (List.map fun record => (record.id, record)) (filter_of_disjoint h hmem hw)

end AsmKit.A64
