import AsmKit.A64.Origin
import AsmKit.A64.RowDecode
import AsmKit.A64.RelocatePcRel
import AsmKit.Isa.A64Branch

/-!
# The rows of the direct branches

What the rows of the direct branches have in common, and what the decoder makes of their words
whatever the offset is.
-/

namespace AsmKit.A64

open SignedField
open Isa.A64 (OffsetPlace branchPlace)

/-! ## Rows -/

/-- A row whose last operand is the offset of a branch, in words. The other operands decode whatever
the word holds. -/
structure Record.BranchAt (record : Record) (place : OffsetPlace) (lead : List OperandDesc)
    (desc : OperandDesc) : Prop where
  wellFormed : record.WellFormed
  free : record.mask &&& place.fieldMask = 0
  prefetch : record.isPrefetchMemory = false
  descs : record.descs = lead ++ [desc]
  decodes : ∀ d ∈ lead, d.decodes = true ∧ d.sourceMask ≠ 0
  kind : desc.kind = .pcRel
  transform : desc.transform = .pcRelWords4
  source : tdSourceWidth desc.sourceMask = place.bits ∧ desc.sourceMask ≠ 0
  pieces : record.pieces.filter (·.operandIndex == lead.length) =
    pieceRun lead.length 0 place.lo place.bits

/-- The rows of the tables that stand for a direct branch with an offset: the known ones, and no
other row matches their words. -/
structure DirectRows (tables : Tables) : Prop where
  pcRel : PcRelRows tables
  branches : ∀ w i record, (i, record) ∈ tables.candidates w → w &&& record.mask = record.value →
    record.instClass.isDirectTransfer = true → hasFlag record.flags InstFlag.pcRelative = true →
    tables.Alone record ∧ ∃ place lead desc, branchPlace w = some place ∧
      record.BranchAt place lead desc

/-! ## Gathering the offset -/

theorem gather_of_filter {pieces : List Piece} {k lo n : Nat}
    (h : pieces.filter (·.operandIndex == k) = pieceRun k 0 lo n) (w : BitVec 32) :
    gather pieces k w = (field n lo w).setWidth 32 := by
  apply BitVec.eq_of_getLsbD_eq
  intro i hi
  have hfilter : (pieces.any fun p => p.operandIndex == k && p.srcBit == i && w.getLsbD p.dstBit) =
      (pieceRun k 0 lo n).any fun p => p.operandIndex == k && p.srcBit == i && w.getLsbD p.dstBit := by
    rw [← h, List.any_filter]
    refine List.any_congr rfl fun p => ?_
    cases p.operandIndex == k <;> simp
  rw [gather_getLsbD _ _ _ _ hi, hfilter, pieceRun_any, BitVec.getLsbD_setWidth, field_getLsbD]
  simp [hi]

namespace Record.BranchAt

variable {record : Record} {place : OffsetPlace} {lead : List OperandDesc} {desc : OperandDesc}
  {w w' : BitVec 32}

theorem operandIndex (h : record.BranchAt place lead desc) : desc.operandIndex = lead.length := by
  have hordered := h.wellFormed.ordered
  rw [h.descs, List.map_append, List.length_append, List.length_singleton, List.range'_concat] at hordered
  have hlast := List.append_inj_right' hordered rfl
  simpa using hlast

theorem tdOperandValue (h : record.BranchAt place lead desc) (w : BitVec 32) :
    tdOperandValue record w desc.operandIndex = (field place.bits place.lo w).setWidth 32 := by
  have hmasked : ∀ d ∈ record.descs, d.sourceMask ≠ 0 := by
    rw [h.descs]
    intro d hd
    rcases List.mem_append.1 hd with hlead | hlast
    · exact (h.decodes d hlead).2
    · rw [List.mem_singleton.1 hlast]
      exact h.source.2
  rw [tdOperandValue_of_masked hmasked, h.operandIndex, gather_of_filter h.pieces]

theorem matches_of_sameOpcode (h : record.BranchAt place lead desc) (hw : w &&& record.mask = record.value)
    (hsame : place.SameOpcode w w') : w' &&& record.mask = record.value := by
  have hmask : record.mask &&& ~~~place.fieldMask = record.mask := by
    have hsplit : record.mask &&& ~~~place.fieldMask ||| record.mask &&& place.fieldMask = record.mask := by
      rw [← BitVec.and_or_distrib_left, BitVec.or_comm, BitVec.or_not_self, BitVec.and_allOnes]
    rw [h.free] at hsplit
    simpa using hsplit
  rw [← hw, ← hmask, BitVec.and_comm record.mask, ← BitVec.and_assoc, hsame, BitVec.and_assoc]

theorem decodeTdOperand (h : record.BranchAt place lead desc) (hpos : 0 < place.bits)
    (hbits : place.bits ≤ 32) (w : BitVec 32) (address : BitVec 64) :
    ∃ o, decodeTdOperand record w address desc = some o ∧ o.kind = .pcRel ∧
      o.imm = place.offset w ∧ o.absTarget = address + place.offset w := by
  have hoff : signExtend ((field place.bits place.lo w).setWidth 32) place.bits * 4 = place.offset w := by
    rw [signExtend_setWidth _ hpos hbits]
    exact (BitVec.shiftLeft_eq_mul_twoPow _ 2).symm
  simp only [A64.decodeTdOperand, h.kind, h.tdOperandValue, tdPcRelOperand, h.source.1, if_neg hpos.ne',
    h.transform, hoff]
  exact ⟨_, rfl, rfl, rfl, rfl⟩

end Record.BranchAt

/-! ## The decoded branch -/

/-- What a row makes of a word of its branch. -/
structure DecodedBranch (record : Record) (place : OffsetPlace) (w : BitVec 32) (address : BitVec 64)
    (inst : Inst) : Prop where
  id : inst.id = record.id
  instClass : inst.instClass = record.instClass
  target : ∃ o, findPcRelOperand inst = some o ∧ o.imm = place.offset w ∧
    o.absTarget = address + place.offset w

variable {tables : Tables} {engine : Engine} {record : Record} {place : OffsetPlace}
  {lead : List OperandDesc} {desc : OperandDesc} {code : List Byte}

theorem decodeOne_branch (h : record.BranchAt place lead desc) (hpos : 0 < place.bits)
    (hbits : place.bits ≤ 32) (hdirect : record.instClass.isDirectTransfer = true)
    (halone : tables.Alone record) (hw : load32le code &&& record.mask = record.value)
    (hmode : engine.config.mode = .aarch64) (hlen : 4 ≤ code.length) (address : BitVec 64) :
    if featuresMatch engine record.featureBits then
      ∃ inst, decodeOne tables engine code address = .ok inst ∧
        DecodedBranch record place (load32le code) address inst
    else decodeOne tables engine code address = .error .unsupportedFeature := by
  obtain ⟨o, ho, hkind, himm, htarget⟩ := h.decodeTdOperand hpos hbits (load32le code) address
  obtain ⟨operands, hops, hkinds⟩ := exists_decodes record (load32le code) address fun d hd =>
    (h.decodes d hd).1
  have hall : record.descs.map (decodeTdOperand record (load32le code) address) =
      (operands ++ [o]).map some := by
    rw [h.descs, List.map_append, List.map_append, hops, List.map_singleton, ho, List.map_singleton]
  have hclass : record.instClass ≠ .load ∧ record.instClass ≠ .store := by
    constructor <;> intro hclass <;> rw [hclass] at hdirect <;> cases hdirect
  have hmatch := tdRecordOperandsMatch_of_map h.wellFormed.indicesOk hall
  rw [decodeOne_alone halone hw h.wellFormed.predicate hmatch h.wellFormed.notBti hmode hlen]
  split
  · have hshort : operands.length < maxOperands := by
      have hok := h.wellFormed.indicesOk
      have hlength : operands.length = lead.length := by simpa using (congrArg List.length hops).symm
      simp only [Record.indicesOk, Bool.and_eq_true, decide_eq_true_eq, h.descs] at hok
      have hle := hok.1.1
      rw [List.length_append, List.length_singleton] at hle
      omega
    rw [finishTd, decodeTdOperands_in_order _ address h.wellFormed.nonempty h.wellFormed.indicesOk
      h.wellFormed.ordered hall, List.mapIdx_append]
    simp only [foldTdMemoryOperands_of_class hclass.1 hclass.2 h.prefetch]
    refine ⟨_, rfl, rfl, rfl, _, findPcRelOperand_append rfl ?_ ?_ (by simpa using hshort), himm, htarget⟩
    · intro operand hmem
      obtain ⟨i, hi, rfl⟩ := List.mem_mapIdx.1 hmem
      simpa using hkinds _ (List.getElem_mem hi)
    · exact hkind
  · rfl

/-! ## Every decoded branch has a row -/

theorem offsetKind_ite {c : Prop} [Decidable c] {a b : Inst} {w : BitVec 32}
    (ha : c → a.instClass.isDirectTransfer = true → (Isa.A64.offsetKind w).isSome)
    (hb : b.instClass.isDirectTransfer = true → (Isa.A64.offsetKind w).isSome) :
    (if c then a else b).instClass.isDirectTransfer = true → (Isa.A64.offsetKind w).isSome := by
  split
  · exact ha ‹_›
  · exact hb

theorem offsetKind_isSome {w : BitVec 32}
    (h : Isa.A64.isB w = true ∨ Isa.A64.isBCond w = true ∨ Isa.A64.isCb w = true ∨
      Isa.A64.isTb w = true) : (Isa.A64.offsetKind w).isSome := by
  unfold Isa.A64.offsetKind
  split_ifs <;> simp_all

theorem offsetKind_of_fallback {address : BitVec 64} {w : BitVec 32} :
    (decodeFallback engine code address w).instClass.isDirectTransfer = true →
      (Isa.A64.offsetKind w).isSome := by
  have hb {value : BitVec 32} (h : w &&& 0xfc000000 = value) (hvalue : value &&& 0x7c000000 = 0x14000000) :
      Isa.A64.isB w = true :=
    beq_iff_eq.2 (BitPattern.and_eq_of_refines h (by decide) hvalue)
  unfold decodeFallback
  refine offsetKind_ite (fun h _ => offsetKind_isSome (.inl (hb h (by decide)))) ?_
  refine offsetKind_ite (fun h _ => offsetKind_isSome (.inl (hb h (by decide)))) ?_
  refine offsetKind_ite (fun h _ => offsetKind_isSome (.inr (.inl (beq_iff_eq.2 h)))) ?_
  refine offsetKind_ite (fun h _ => offsetKind_isSome (.inr (.inr (.inl (beq_iff_eq.2 h))))) ?_
  refine offsetKind_ite (fun h _ => offsetKind_isSome (.inr (.inr (.inr (beq_iff_eq.2 h))))) ?_
  refine offsetKind_ite (fun _ => offsetKind_ite (fun _ h => absurd h Bool.false_ne_true)
    fun h => absurd h Bool.false_ne_true) ?_
  iterate 6 refine offsetKind_ite (fun _ h => absurd h Bool.false_ne_true) ?_
  exact fun h => absurd h Bool.false_ne_true

theorem branch_of_decodeOne {address : BitVec 64} {inst : Inst} (hrows : DirectRows tables)
    (hmode : engine.config.mode = .aarch64) (hdec : decodeOne tables engine code address = .ok inst)
    (hdirect : inst.instClass.isDirectTransfer = true) (hflag : inst.has InstFlag.pcRelative = true) :
    ∃ record place lead desc, tables.Alone record ∧ branchPlace (load32le code) = some place ∧
      record.BranchAt place lead desc ∧ load32le code &&& record.mask = record.value ∧
      record.instClass.isDirectTransfer = true := by
  have hrow {i : Nat} {record : Record} (hmem : (i, record) ∈ tables.candidates (load32le code))
      (hw : load32le code &&& record.mask = record.value)
      (hfinish : finishTd tables engine code address record = .ok inst) :
      ∃ record place lead desc, tables.Alone record ∧ branchPlace (load32le code) = some place ∧
        record.BranchAt place lead desc ∧ load32le code &&& record.mask = record.value ∧
        record.instClass.isDirectTransfer = true := by
    have hinst : inst.instClass = record.instClass ∧ inst.flags = record.flags := by
      simp only [finishTd] at hfinish
      split at hfinish
      · cases hfinish
      · cases hfinish
        exact ⟨rfl, rfl⟩
    rw [hinst.1] at hdirect
    rw [Inst.has, hinst.2] at hflag
    obtain ⟨halone, place, lead, desc, hplace, hat⟩ :=
      hrows.branches _ i record hmem hw hdirect hflag
    exact ⟨record, place, lead, desc, halone, hplace, hat, hw, hdirect⟩
  cases decodeOne_origin hdec with
  | bti operands => cases hdirect
  | row hmem hpattern hfinish => exact hrow hmem hpattern hfinish
  | fallback =>
    -- The rows leave no such word to the decoder.
    obtain ⟨kind, hkind⟩ := Option.isSome_iff_exists.1 (offsetKind_of_fallback hdirect)
    obtain ⟨row, hmem, -, hw⟩ := exists_row hkind
    obtain ⟨i, hfilter⟩ := hrows.pcRel row hmem _ hw
    have hcandidate : (i, row.record) ∈ tables.candidates (load32le code) :=
      (List.mem_filter.1 (hfilter ▸ List.mem_singleton_self _)).1
    rw [decodeOne_eq_finishTd hrows.pcRel hmem hw hmode (length_of_decodeOne hdec)] at hdec
    split at hdec
    · exact hrow hcandidate hw hdec
    · cases hdec

/-! ## The known rows -/

/-- The rows of the direct branches among the known ones. -/
def PcRelRow.isDirect (row : PcRelRow) : Bool :=
  row.instClass.isDirectTransfer && hasFlag row.flags InstFlag.pcRelative

/-- Where the known branches keep their offset. -/
def PcRelRow.offsetPlace (row : PcRelRow) : OffsetPlace :=
  match row.kind with
  | .imm26 => ⟨26, 0⟩
  | .imm19 => ⟨19, 5⟩
  | _ => ⟨14, 5⟩

theorem branchAt_of_mem {row : PcRelRow} (hmem : row ∈ pcRelRows) (hdirect : row.isDirect = true) :
    row.record.BranchAt row.offsetPlace row.lead (pcRelDesc row.lead.length row.kind) := by
  have hwf : ∀ row ∈ pcRelRows, row.isDirect = true → row.record.descs ≠ [] ∧ row.record.indicesOk = true ∧
      row.record.descs.map (·.operandIndex) = List.range' 0 row.record.descs.length ∧
      row.record.predicate = .none := by decide
  have hbti : ∀ row ∈ pcRelRows, ¬ (0xd503241f &&& row.mask = row.value ∨
      0xd503245f &&& row.mask = row.value ∨ 0xd503249f &&& row.mask = row.value ∨
      0xd50324df &&& row.mask = row.value) := by decide
  have hfree : ∀ row ∈ pcRelRows, row.isDirect = true → row.mask &&& row.offsetPlace.fieldMask = 0 ∧
      row.record.isPrefetchMemory = false ∧ ∀ d ∈ row.lead, d.decodes = true ∧ d.sourceMask ≠ 0 := by
    decide
  have hdesc : ∀ row ∈ pcRelRows, row.isDirect = true →
      (pcRelDesc row.lead.length row.kind).kind = .pcRel ∧
      (pcRelDesc row.lead.length row.kind).transform = .pcRelWords4 ∧
      tdSourceWidth (pcRelDesc row.lead.length row.kind).sourceMask = row.offsetPlace.bits ∧
      (pcRelDesc row.lead.length row.kind).sourceMask ≠ 0 := by decide
  have hpieces : ∀ row ∈ pcRelRows, row.isDirect = true →
      row.record.pieces.filter (·.operandIndex == row.lead.length) =
        pieceRun row.lead.length 0 row.offsetPlace.lo row.offsetPlace.bits := by decide
  obtain ⟨hnonempty, hindices, hordered, hpredicate⟩ := hwf row hmem hdirect
  obtain ⟨hmask, hprefetch, hlead⟩ := hfree row hmem hdirect
  obtain ⟨hkind, htransform, hsource⟩ := hdesc row hmem hdirect
  exact ⟨⟨hnonempty, hindices, hordered, hpredicate, hbti row hmem⟩, hmask, hprefetch, rfl, hlead, hkind,
    htransform, hsource, hpieces row hmem hdirect⟩

theorem branchPlace_row {row : PcRelRow} {w : BitVec 32} (hmem : row ∈ pcRelRows)
    (hw : w &&& row.mask = row.value) (hdirect : row.isDirect = true) :
    branchPlace w = some row.offsetPlace := by
  have hrow : ∀ row ∈ pcRelRows, row.isDirect = true → branchPlace row.value = some row.offsetPlace := by
    decide
  have htest (m v : BitVec 32)
      (hd : ∀ row ∈ pcRelRows, row.mask &&& m = m ∨ row.mask &&& m &&& (row.value ^^^ v) ≠ 0#32) :
      (w &&& m == v) = (row.value &&& m == v) := test_row hmem hw m v hd
  rw [← hrow row hmem hdirect]
  unfold branchPlace Isa.A64.isB Isa.A64.isCb Isa.A64.isTb Isa.A64.isCmpBr
  rw [htest 0x7c000000 0x14000000 (by decide), htest 0xff000000 0x54000000 (by decide),
    htest 0x7e000000 0x34000000 (by decide), htest 0x7e000000 0x36000000 (by decide),
    htest 0x7e000000 0x74000000 (by decide)]

theorem pcRelTables_direct : DirectRows pcRelTables := by
  refine ⟨pcRelTables_rows, fun w i record hcandidate hw hdirect hflag => ?_⟩
  obtain ⟨row, hmem, heq⟩ := List.mem_map.1 hcandidate
  cases heq
  have hrow : row.isDirect = true := by
    rw [PcRelRow.isDirect, Bool.and_eq_true]
    exact ⟨hdirect, hflag⟩
  exact ⟨pcRelTables_rows row hmem, row.offsetPlace, row.lead, _, branchPlace_row hmem hw hrow,
    branchAt_of_mem hmem hrow⟩

end AsmKit.A64
