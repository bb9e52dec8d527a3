import AsmKit.A64.LoadSignedRows
import AsmKit.A64.Branches
import AsmKit.Encode.Agree

/-!
# AArch64 instructions encoded anew

`a64_encode` knows the branches and `ret`, and takes the register of `ret` for granted.
-/

namespace AsmKit.A64

open SignedField

/-! ## The rows -/

/-- A branch to the register at bit 5. -/
def regBranchRecord (id mnemonicId : Nat) (value : BitVec 32) (instClass : InstClass)
    (flags : BitVec 32) : Record :=
  { id, mnemonicId, mask := 0xfffffc1f, value, fixedBits := 27, instClass, flags
    descs := [regDesc .gpr 64], pieces := pieceRun 0 0 5 5 }

def brRecord : Record :=
  regBranchRecord 65974 Mnemonic.br 0xd61f0000 .indirectBranch InstFlag.terminator

def blrRecord : Record :=
  regBranchRecord 65967 Mnemonic.blr 0xd63f0000 .directCall (InstFlag.call ||| InstFlag.direct)

def retRecord : Record :=
  regBranchRecord 69707 Mnemonic.ret 0xd65f0000 .return_ (InstFlag.return_ ||| InstFlag.terminator)

def regBranchRecords : List Record := [brRecord, blrRecord, retRecord]

def bRow : PcRelRow := branchRow 65779 Mnemonic.b 0x14000000 .directBranch InstFlag.terminator

def blRow : PcRelRow := branchRow 65966 Mnemonic.bl 0x94000000 .directCall InstFlag.call

/-- The mnemonics that `a64_encode` knows. -/
def ownMnemonics : List Nat := [Mnemonic.b, Mnemonic.bl, Mnemonic.br, Mnemonic.blr, Mnemonic.ret]

def ownRecords : List Record := bCondRow.record :: bRow.record :: blRow.record :: regBranchRecords

/-- The tables hold the rows of the branches, and no others of their mnemonics. -/
structure BranchRows (tables : Tables) : Prop where
  pcRel : PcRelRows tables
  alone : ∀ record ∈ regBranchRecords, tables.Alone record
  only : ∀ w i record, (i, record) ∈ tables.candidates w → record.mnemonicId ∈ ownMnemonics →
    record ∈ ownRecords

/-- Tables of the pc-relative rows and of these. -/
def branchTables : Tables := .ofRecords (pcRelRows.map PcRelRow.record ++ regBranchRecords)

theorem branchTables_rows : BranchRows branchTables := by
  have hdisjoint : (pcRelRows.map PcRelRow.record ++ regBranchRecords).Pairwise Record.Disjoint := by
    decide
  refine ⟨?_, ?_, ?_⟩
  · intro row hmem
    exact Tables.ofRecords_alone hdisjoint (List.mem_append_left _ (List.mem_map_of_mem hmem))
  · intro record hmem
    exact Tables.ofRecords_alone hdisjoint (List.mem_append_right _ hmem)
  · have hall : ∀ record ∈ pcRelRows.map PcRelRow.record ++ regBranchRecords,
        record.mnemonicId ∈ ownMnemonics → record ∈ ownRecords := by decide
    intro w i record hmem
    obtain ⟨other, hother, heq⟩ := List.mem_map.1 hmem
    cases heq
    exact hall _ hother

/-! ## The words of the branches -/

variable {tables : Tables} {engine : Engine} {code : List Byte} {address : BitVec 64} {inst : Inst}

/-- One of the rows fits the word. -/
def IsOwnWord (w : BitVec 32) : Prop := ∃ record ∈ ownRecords, w &&& record.mask = record.value

theorem ite_own {w : BitVec 32} {c : Prop} [Decidable c] {a b : Inst}
    (ha : c → a.mnemonicId ∈ ownMnemonics → IsOwnWord w)
    (hb : b.mnemonicId ∈ ownMnemonics → IsOwnWord w)
    (h : (if c then a else b).mnemonicId ∈ ownMnemonics) : IsOwnWord w := by
  split at h
  · exact ha ‹_› h
  · exact hb h

theorem finish_own {w : BitVec 32} {id : Nat} {instClass : InstClass} {flags : BitVec 32}
    {operands : List Operand} (hno : mnemonicId id ∉ ownMnemonics)
    (h : (finish engine code address id instClass flags operands).mnemonicId ∈ ownMnemonics) :
    IsOwnWord w :=
  absurd h hno

theorem decodeFallback_own (w : BitVec 32) :
    (decodeFallback engine code address w).mnemonicId ∈ ownMnemonics → IsOwnWord w := by
  have hcompare : ∀ c : Bool, mnemonicId (if c then Id.cbnz else Id.cbz) ∉ ownMnemonics := by decide
  have htest : ∀ c : Bool, mnemonicId (if c then Id.tbnz else Id.tbz) ∉ ownMnemonics := by decide
  unfold decodeFallback
  refine ite_own (fun hw _ => ⟨bRow.record, by decide, hw⟩) ?_
  refine ite_own (fun hw _ => ⟨blRow.record, by decide, hw⟩) ?_
  refine ite_own (fun hw _ => ⟨bCondRow.record, by decide, hw⟩) ?_
  refine ite_own (fun _ => finish_own ?_) ?_
  · simpa using hcompare (decide (w &&& 0x01000000 ≠ 0))
  refine ite_own (fun _ => finish_own ?_) ?_
  · simpa using htest (decide (w &&& 0x01000000 ≠ 0))
  refine ite_own (fun _ => ite_own (fun _ => finish_own (by decide)) (finish_own (by decide))) ?_
  refine ite_own (fun _ => finish_own (by decide)) ?_
  refine ite_own (fun _ => finish_own (by decide)) ?_
  refine ite_own (fun hw _ => ⟨brRecord, by decide, hw⟩) ?_
  refine ite_own (fun hw _ => ⟨blrRecord, by decide, hw⟩) ?_
  refine ite_own (fun hw _ => ⟨retRecord, by decide, hw⟩) ?_
  exact ite_own (fun _ => finish_own (by decide)) (finish_own (by decide))

theorem decodeOne_own (hrows : BranchRows tables)
    (hdec : decodeOne tables engine code address = .ok inst)
    (hmnemonic : inst.mnemonicId ∈ ownMnemonics) : IsOwnWord (load32le code) := by
  cases decodeOne_origin hdec with
  | bti operands => exact finish_own (by decide) hmnemonic
  | row hmem hpattern hrow =>
    rw [finishTd_mnemonicId hrow] at hmnemonic
    exact ⟨_, hrows.only _ _ _ hmem hmnemonic, hpattern⟩
  | fallback => exact decodeFallback_own _ hmnemonic

/-! ## The branches to a register -/

/-- The register of a branch. -/
def branchReg (w : BitVec 32) : Operand :=
  (Operand.ofReg (tdGprId (field 5 5 w).toNat 64 false) 64).atIndex 0

theorem regBranch_cases : ∀ record ∈ regBranchRecords, record.descs = [regDesc .gpr 64] ∧
    record.pieces = pieceRun 0 0 5 5 ∧ record.mask = 0xfffffc1f ∧ record.predicate = .none ∧
    record.instClass ≠ .load ∧ record.instClass ≠ .store ∧ record.isPrefetchMemory = false ∧
    record.indicesOk = true ∧ ¬ record.MatchesBti ∧ record.featureBits = .replicate 8 0 := by
  decide

theorem decodeTdOperand_regBranch {record : Record} (hmem : record ∈ regBranchRecords) (w : BitVec 32) :
    decodeTdOperand record w address (regDesc .gpr 64) =
      some (Operand.ofReg (tdGprId (field 5 5 w).toNat 64 false) 64) := by
  obtain ⟨hdescs, hpieces, -⟩ := regBranch_cases record hmem
  have hmasked : ∀ desc ∈ record.descs, desc.sourceMask ≠ 0 := by
    rw [hdescs]
    decide
  refine decodeTdOperand_gpr ?_ rfl rfl (.inr rfl) rfl rfl
  have hgather := @gather_pieceRun [] [] 0 5 (by simp) (by simp) 5 w
  rw [List.nil_append, List.append_nil] at hgather
  rw [tdOperandValue_of_masked hmasked, hpieces]
  exact hgather

/-- What a row of the register branches makes of its word. -/
structure RegBranchDecoded (record : Record) (w : BitVec 32) (inst : Inst) : Prop where
  arch : inst.arch = .aarch64
  id : inst.id = record.id
  mnemonicId : inst.mnemonicId = record.mnemonicId
  instClass : inst.instClass = record.instClass
  operands : inst.operands = [branchReg w]

theorem decodeOne_regBranch (hrows : BranchRows tables) {record : Record}
    (hmem : record ∈ regBranchRecords) (hmode : engine.config.mode = .aarch64)
    (hlen : 4 ≤ code.length) (hw : load32le code &&& record.mask = record.value) :
    ∃ inst, decodeOne tables engine code address = .ok inst ∧
      RegBranchDecoded record (load32le code) inst := by
  obtain ⟨hdescs, -, -, hpredicate, hload, hstore, hprefetch, hok, hbti, hfeatures⟩ :=
    regBranch_cases record hmem
  have hops : record.descs.map (decodeTdOperand record (load32le code) address) =
      [Operand.ofReg (tdGprId (field 5 5 (load32le code)).toNat 64 false) 64].map some := by
    rw [hdescs, List.map_singleton, decodeTdOperand_regBranch hmem, List.map_singleton]
  have hdecode : decodeTdOperands record (load32le code) address = some [branchReg (load32le code)] :=
    decodeTdOperands_in_order _ _ (by simp [hdescs]) hok (by simp [hdescs, regDesc]) hops
  rw [decodeOne_alone (hrows.alone record hmem) hw hpredicate (tdRecordOperandsMatch_of_map hok hops)
    hbti hmode hlen, hfeatures, if_pos featuresMatch_none, finishTd]
  simp only [hdecode, foldTdMemoryOperands_of_class hload hstore hprefetch]
  exact ⟨_, rfl, rfl, rfl, rfl, rfl, rfl⟩

theorem tdGprId_64 : ∀ n ≤ 31, tdGprId n 64 false = if n = 31 then Reg.xzr else Reg.x0 + n := by
  decide

theorem tdGprId_inj {n m : Nat} (hn : n ≤ 31) (hm : m ≤ 31)
    (h : tdGprId n 64 false = tdGprId m 64 false) : n = m := by
  rw [tdGprId_64 n hn, tdGprId_64 m hm, Reg.xzr, Reg.x0] at h
  split_ifs at h <;> omega

theorem branchReg_reg_inj {w w' : BitVec 32} (h : (branchReg w').reg = (branchReg w).reg) :
    field 5 5 w' = field 5 5 w := by
  apply BitVec.eq_of_toNat_eq
  exact tdGprId_inj (by omega) (by omega) h

theorem RegBranchDecoded.agrees_iff {record : Record} {w w' : BitVec 32} {inst inst' : Inst}
    (h : RegBranchDecoded record w inst) (h' : RegBranchDecoded record w' inst')
    (tables : AsmKit.Tables) :
    (applyOperandMetadata tables inst).Agrees (applyOperandMetadata tables inst') ↔
      field 5 5 w' = field 5 5 w := by
  have hops : ∀ {w : BitVec 32} {inst : Inst}, RegBranchDecoded record w inst →
      (applyOperandMetadata tables inst).operands =
        [(branchReg w).withInfos (tables.operandInfos .aarch64 record.id)] := by
    intro w inst h
    rw [applyOperandMetadata, h.operands, h.arch, h.id]
    rfl
  have hplain : ∀ {w : BitVec 32} {inst : Inst}, RegBranchDecoded record w inst →
      (applyOperandMetadata tables inst).plainOperands =
        [(branchReg w).withInfos (tables.operandInfos .aarch64 record.id)] := by
    intro w inst h
    rw [Inst.plainOperands, hops h]
    simp [branchReg, Operand.ofReg]
  have htargets : ∀ {w : BitVec 32} {inst : Inst}, RegBranchDecoded record w inst →
      (applyOperandMetadata tables inst).targetOperands = [] := by
    intro w inst h
    rw [Inst.targetOperands, hops h]
    simp [branchReg, Operand.ofReg]
  constructor
  · intro hagrees
    have hregs := hagrees.operands
    rw [hplain h, hplain h', List.singleton_inj] at hregs
    have hreg := congrArg Operand.reg hregs
    rw [Operand.withInfos_reg, Operand.withInfos_reg] at hreg
    exact branchReg_reg_inj hreg
  · intro hfield
    refine ⟨?_, ?_, ?_, ?_, ?_⟩
    · exact h'.mnemonicId.trans h.mnemonicId.symm
    · exact h'.instClass.trans h.instClass.symm
    · intro state
      have harch : (applyOperandMetadata tables inst).arch = .aarch64 := h.arch
      have harch' : (applyOperandMetadata tables inst').arch = .aarch64 := h'.arch
      rw [Inst.predicateIn_of_ne_arm (by rw [harch']; decide),
        Inst.predicateIn_of_ne_arm (by rw [harch]; decide)]
    · rw [hplain h, hplain h', branchReg, branchReg, hfield]
    · rw [htargets h, htargets h']

theorem regBranchWord_fits (isCall : Bool) (n : BitVec 5) :
    regBranchWord isCall n.toNat &&& 0xfffffc1f = (if isCall then 0xd63f0000 else 0xd61f0000) ∧
      field 5 5 (regBranchWord isCall n.toNat) = n := by
  have hset : regBranchWord isCall n.toNat =
      setField 5 5 (if isCall then 0xd63f0000 else 0xd61f0000) (n.setWidth 32) := by
    rw [← or_and_mask_eq_setField _ _ _ _ (by cases isCall <;> rfl), regBranchWord,
      BitVec.ofNat_toNat]
    rfl
  rw [hset]
  constructor
  · rw [setField_and _ _ _ _ _ (by rfl)]
    cases isCall <;> rfl
  · rw [field_setField _ _ _ _ (by omega), BitVec.setWidth_setWidth_of_le _ (by omega),
      BitVec.setWidth_eq]

/-! ## What is emitted -/

/-- The generated names of the 64-bit registers. -/
def RegisterInfos (encoders : Encoders) : Prop :=
  ∀ n ≤ 31, encoders.registerInfo (tdGprId n 64 false) = some ⟨n, 64⟩

section

variable {encoders : Encoders} {tables : AsmKit.Tables} {inst prior : Inst} {capacity : Nat}
  {out : EncodeOut}

theorem regEncoding_gpr (hregs : RegisterInfos encoders) {o : Operand} (hkind : o.kind = .reg)
    {n : Nat} (hn : n ≤ 31) (hreg : o.reg = tdGprId n 64 false) :
    regEncoding encoders o 64 = some n := by
  have hnamed : (some ({ encoding := n, width := 64 } : RegisterInfo)).filter (fun info =>
      decide (info.encoding ≤ 31) && ((64 : Nat) == 0 || info.width == 64 ||
        (o.width != 0 && o.width == 64))) = some { encoding := n, width := 64 } := by
    simp [Option.filter, hn]
  rw [regEncoding, if_neg (not_not.2 hkind), hreg, hregs n hn]
  simp only [hnamed]

theorem instMnemonic_own (hmnemonic : inst.mnemonicId ∈ ownMnemonics) :
    instMnemonic inst = inst.mnemonicId := by
  have hne : ∀ mnemonic ∈ ownMnemonics, mnemonic ≠ 0 := by decide
  rw [instMnemonic, if_pos (hne _ hmnemonic)]

/-- The word that is emitted for a branch to a register is one of its row. The register of `ret` is
always the link register. -/
theorem encodeOwn_regBranch (hregs : RegisterInfos encoders) {record : Record}
    (hmem : record ∈ regBranchRecords) {w : BitVec 32} (h : RegBranchDecoded record w inst)
    (hown : encodeOwn encoders (applyOperandMetadata tables inst) capacity = some out)
    (hok : out.status = .ok) :
    ∃ w', out.code = store32le w' ∧ w' &&& record.mask = record.value ∧
      field 5 5 w' = if record.mnemonicId = Mnemonic.ret then 30 else field 5 5 w := by
  have hhead : (applyOperandMetadata tables inst).operands.head? =
      some ((branchReg w).withInfos (tables.operandInfos inst.arch inst.id)) := by
    rw [applyOperandMetadata, h.operands]
    rfl
  have hencoding : regEncoding encoders
      ((branchReg w).withInfos (tables.operandInfos inst.arch inst.id)) 64 =
        some (field 5 5 w).toNat := by
    refine regEncoding_gpr hregs ?_ (by omega) ?_
    · rw [Operand.withInfos_kind]
      rfl
    · rw [Operand.withInfos_reg]
      rfl
  have hmnemonic : instMnemonic (applyOperandMetadata tables inst) = record.mnemonicId := by
    have hid : (applyOperandMetadata tables inst).mnemonicId = record.mnemonicId := h.mnemonicId
    have hall : ∀ record ∈ regBranchRecords, record.mnemonicId ∈ ownMnemonics := by decide
    rw [instMnemonic_own (hid ▸ hall record hmem), hid]
  have hbytes : ∀ {code : List Byte}, encodeBytes code capacity = out → out.code = code := by
    intro code h
    subst h
    exact encodeBytes_code_of_ok hok
  rw [encodeOwn, hmnemonic, hhead, Option.bind_some, hencoding] at hown
  simp only [regBranchRecords, List.mem_cons, List.not_mem_nil, or_false] at hmem
  rcases hmem with rfl | rfl | rfl
  · have hout : encodeBytes (store32le (regBranchWord false (field 5 5 w).toNat)) capacity = out :=
      Option.some_inj.1 hown
    obtain ⟨hfits, hfield⟩ := regBranchWord_fits false (field 5 5 w)
    exact ⟨_, hbytes hout, hfits, hfield⟩
  · have hout : encodeBytes (store32le (regBranchWord true (field 5 5 w).toNat)) capacity = out :=
      Option.some_inj.1 hown
    obtain ⟨hfits, hfield⟩ := regBranchWord_fits true (field 5 5 w)
    exact ⟨_, hbytes hout, hfits, hfield⟩
  · have hout : encodeBytes (store32le 0xd65f03c0) capacity = out := Option.some_inj.1 hown
    have hlink : field 5 5 (0xd65f03c0 : BitVec 32) = 30 := by decide
    exact ⟨_, hbytes hout, by decide, hlink⟩

/-! ## The branches to an address -/

def directRows : List PcRelRow := [bRow, blRow]

theorem direct_cases : ∀ row ∈ directRows, row ∈ pcRelRows ∧ row.kind = .imm26 ∧ row.lead = [] ∧
    row.mnemonicId ∈ ownMnemonics ∧ row.featureBits = .replicate 8 0 ∧ row.mask = 0xfc000000 ∧
    row.value = if row.mnemonicId == Mnemonic.bl then 0x94000000 else 0x14000000 := by
  decide

theorem DecodedAs.plainForm {row : PcRelRow} {w : BitVec 32} {address : BitVec 64}
    (h : DecodedAs row w address inst) (hlead : row.lead = []) :
    inst.PlainForm row.mnemonicId row.instClass [row.kind.target w address] := by
  obtain ⟨lead, hlen, -, hops⟩ := h.operands
  rw [hlead, List.length_nil, List.length_eq_zero_iff] at hlen
  rw [hlen, List.nil_append] at hops
  refine ⟨h.mnemonicId, h.instClass, ?_, ?_⟩
  · rw [Inst.plainOperands, hops]
    rfl
  · rw [Inst.targetOperands, hops]
    rfl

theorem relWord_fits (isCall : Bool) {disp : BitVec 64} (hfits : i64FitsI26Words4 disp = true) :
    relWord isCall disp &&& 0xfc000000 = (if isCall then 0x94000000 else 0x14000000) ∧
      Isa.A64.OffsetKind.imm26.offset (relWord isCall disp) = disp := by
  have hoff : Isa.A64.off26 (relWord isCall disp) = (disp.sshiftRight 2).setWidth 26 := by
    rw [relWord_eq_setField, Isa.A64.off26, field_setField _ _ _ _ (by omega),
      BitVec.setWidth_setWidth_of_le _ (by omega)]
  constructor
  · rw [relWord_eq_setField, setField_and _ _ _ _ _ (by rfl)]
    cases isCall <;> rfl
  · rw [Isa.A64.OffsetKind.offset, hoff, scaled_of_fits hfits]

def directRow (isCall : Bool) : PcRelRow := if isCall then blRow else bRow

theorem decodeOne_relWord (hrows : PcRelRows tables.a64) (hmode : engine.config.mode = .aarch64)
    (isCall : Bool) {disp : BitVec 64} (hfits : i64FitsI26Words4 disp = true) (address : BitVec 64) :
    ∃ inst, decodeOne tables.a64 engine (store32le (relWord isCall disp)) address = .ok inst ∧
      DecodedAs (directRow isCall) (relWord isCall disp) address inst ∧ inst.LeadsWith disp := by
  have hmem : directRow isCall ∈ directRows := by
    cases isCall <;> decide
  have hcall : ((directRow isCall).mnemonicId == Mnemonic.bl) = isCall := by
    cases isCall <;> rfl
  obtain ⟨hrow, hkind, hlead, -, hfeatures, hmask, hvalue⟩ := direct_cases _ hmem
  obtain ⟨hword, hoffset⟩ := relWord_fits isCall hfits
  have hload := load32le_store32le (relWord isCall disp) []
  rw [List.append_nil] at hload
  have hmatch : load32le (store32le (relWord isCall disp)) &&& (directRow isCall).mask =
      (directRow isCall).value := by
    rw [hload, hmask, hvalue, hcall, hword]
  have hdecode := decodeOne_row hrows hrow hmatch hmode (by rw [store32le_length]) address
  rw [hfeatures, if_pos featuresMatch_none, hload] at hdecode
  obtain ⟨inst, hdec, h⟩ := hdecode
  refine ⟨inst, hdec, h, ?_⟩
  obtain ⟨lead, hlen, -, hops⟩ := h.operands
  rw [hlead, List.length_nil, List.length_eq_zero_iff] at hlen
  rw [hlen, List.nil_append, hkind] at hops
  refine ⟨(targetOperand .imm26 (relWord isCall disp) address).atIndex (directRow isCall).lead.length,
    ?_, hoffset⟩
  rw [Inst.leadingTarget, hops]
  rfl

theorem leading_of_decodedAs {row : PcRelRow} {w : BitVec 32} {address : BitVec 64}
    (h : DecodedAs row w address inst) (hlead : row.lead = []) (hkind : row.kind = .imm26)
    (tables : AsmKit.Tables) :
    (∃ o, (applyOperandMetadata tables inst).leadingTarget = some o) ∧
      branchTarget (applyOperandMetadata tables inst) = row.kind.target w address := by
  obtain ⟨lead, hlen, -, hops⟩ := h.operands
  rw [hlead, List.length_nil, List.length_eq_zero_iff] at hlen
  rw [hlen, hlead, List.nil_append] at hops
  have hops' : (applyOperandMetadata tables inst).operands =
      [((targetOperand row.kind w address).atIndex 0).withInfos
        (tables.operandInfos inst.arch inst.id)] := by
    rw [applyOperandMetadata, hops]
    rfl
  have hkind' : (targetOperand row.kind w address).kind = .pcRel := rfl
  have hpcRel : findPcRelOperand (applyOperandMetadata tables inst) =
      some (((targetOperand row.kind w address).atIndex 0).withInfos
        (tables.operandInfos inst.arch inst.id)) := by
    rw [findPcRelOperand, hops']
    simp [hkind', maxOperands]
  have htarget : row.kind.target w address = address + row.kind.offset w := by
    rw [hkind]
    rfl
  have haddress : (applyOperandMetadata tables inst).address = address := h.address
  constructor
  · refine ⟨((targetOperand row.kind w address).atIndex 0).withInfos
      (tables.operandInfos inst.arch inst.id), ?_⟩
    rw [Inst.leadingTarget, hops', List.head?_cons, Option.filter_some, if_pos (by simp [hkind'])]
  · simp only [branchTarget, hpcRel, operandTarget, Operand.withInfos_absTarget,
      Operand.withInfos_imm, haddress]
    have himm : ((targetOperand row.kind w address).atIndex 0).imm = row.kind.offset w := rfl
    have habs : ((targetOperand row.kind w address).atIndex 0).absTarget =
        row.kind.target w address := rfl
    rw [himm, habs, htarget]
    exact ite_self _

theorem decodesBack_direct (harch : engine.target.arch = .aarch64) (hrows : BranchRows tables.a64)
    {row : PcRelRow} (hmem : row ∈ directRows) {w : BitVec 32} {address : BitVec 64}
    (h : DecodedAs row w address inst)
    (hown : encodeOwn encoders (applyOperandMetadata tables inst) capacity = some out)
    (hok : out.status = .ok) :
    (applyOperandMetadata tables inst).DecodesBack tables engine out.code prior := by
  obtain ⟨hrow, hkind, hlead, hmnemonic, hfeatures, hmask, hvalue⟩ := direct_cases row hmem
  obtain ⟨⟨o, hleading⟩, htarget⟩ := leading_of_decodedAs h hlead hkind tables
  have hid : (applyOperandMetadata tables inst).mnemonicId = row.mnemonicId := h.mnemonicId
  have hbranch : row.mnemonicId = Mnemonic.b ∨ row.mnemonicId = Mnemonic.bl := by
    simp only [directRows, List.mem_cons, List.not_mem_nil, or_false] at hmem
    rcases hmem with rfl | rfl
    · exact .inl rfl
    · exact .inr rfl
  have hown' : (emitRel (row.mnemonicId == Mnemonic.bl) address (row.kind.target w address)
      capacity).encoded = out := by
    have haddress : (applyOperandMetadata tables inst).address = address := h.address
    rw [encodeOwn, instMnemonic_own (hid ▸ hmnemonic), hid] at hown
    simp only [if_pos hbranch, hleading, Option.map_some, htarget, haddress,
      Option.some_inj] at hown
    exact hown
  have hemit : (emitRel (row.mnemonicId == Mnemonic.bl) address (row.kind.target w address)
      capacity).status = .ok := by
    rw [← hok, ← hown']
    rfl
  obtain ⟨hfits, heq⟩ := emitRel_of_ok hemit
  have hsame : directRow (row.mnemonicId == Mnemonic.bl) = row := by
    simp only [directRows, List.mem_cons, List.not_mem_nil, or_false] at hmem
    rcases hmem with rfl | rfl <;> rfl
  have hcode : out.code = store32le (relWord (row.mnemonicId == Mnemonic.bl)
      (relDisp address (row.kind.target w address))) := by
    rw [← hown', EmitOut.encoded, heq]
  obtain ⟨inst', hdec, h', -⟩ := decodeOne_relWord hrows.pcRel (engine.mode_of_aarch64 harch)
    (row.mnemonicId == Mnemonic.bl) hfits address
  rw [hsame] at h'
  rw [← hcode] at hdec
  have hdec' : AsmKit.decodeOne tables engine out.code (applyOperandMetadata tables inst).address
      prior = .ok (applyOperandMetadata tables inst') := by
    have haddress : (applyOperandMetadata tables inst).address = address := h.address
    rw [AsmKit.decodeOne, targetDecodeOne, harch, haddress, hdec]
    rfl
  have hform := (h.plainForm hlead).withMetadata tables
  have hform' := (h'.plainForm hlead).withMetadata tables
  have hback' : row.kind.target (relWord (row.mnemonicId == Mnemonic.bl)
      (relDisp address (row.kind.target w address))) address = row.kind.target w address := by
    have hoffset := (relWord_fits (row.mnemonicId == Mnemonic.bl) hfits).2
    rw [hkind] at hoffset ⊢
    have hbase : Isa.A64.OffsetKind.imm26.base address = address := rfl
    rw [Isa.A64.OffsetKind.target, hbase, hoffset, relDisp]
    bv_omega
  rw [hback'] at hform'
  rw [Inst.decodesBack_iff hdec', hform'.agrees_iff]
  refine ⟨hform, fun state => ?_⟩
  have hinst : (applyOperandMetadata tables inst).arch = .aarch64 := h.arch
  have hinst' : (applyOperandMetadata tables inst').arch = .aarch64 := h'.arch
  rw [Inst.predicateIn_of_ne_arm (by rw [hinst']; decide),
    Inst.predicateIn_of_ne_arm (by rw [hinst]; decide)]

/-! ## The instructions that come back -/

/-- A `ret` names the link register. -/
def ReturnsToLink (inst : Inst) : Prop :=
  inst.mnemonicId = Mnemonic.ret → inst.operand0.reg = Reg.lr

theorem decodesBack_regBranch (harch : engine.target.arch = .aarch64)
    (hrows : BranchRows tables.a64) (hregs : RegisterInfos encoders) {record : Record}
    (hmem : record ∈ regBranchRecords) {w : BitVec 32} (h : RegBranchDecoded record w inst)
    (hown : encodeOwn encoders (applyOperandMetadata tables inst) capacity = some out)
    (hok : out.status = .ok) :
    (applyOperandMetadata tables inst).DecodesBack tables engine out.code prior ↔
      ReturnsToLink (applyOperandMetadata tables inst) := by
  obtain ⟨w', hcode, hword, hfield⟩ := encodeOwn_regBranch hregs hmem h hown hok
  have hload := load32le_store32le w' []
  rw [List.append_nil, ← hcode] at hload
  obtain ⟨inst', hdec, h'⟩ := @decodeOne_regBranch tables.a64 engine out.code
    (applyOperandMetadata tables inst).address hrows record hmem (engine.mode_of_aarch64 harch)
    (by rw [hcode, store32le_length]) (by rw [hload, hword])
  rw [hload] at h'
  have hdec' : AsmKit.decodeOne tables engine out.code (applyOperandMetadata tables inst).address
      prior = .ok (applyOperandMetadata tables inst') := by
    rw [AsmKit.decodeOne, targetDecodeOne, harch, hdec]
    rfl
  have hmnemonic : (applyOperandMetadata tables inst).mnemonicId = record.mnemonicId := h.mnemonicId
  have hreg : (applyOperandMetadata tables inst).operand0.reg =
      tdGprId (field 5 5 w).toNat 64 false := by
    rw [Inst.operand0, applyOperandMetadata, h.operands]
    exact Operand.withInfos_reg _ _
  have hlink : tdGprId (30#5).toNat 64 false = Reg.lr := rfl
  rw [Inst.decodesBack_iff hdec', h.agrees_iff h', hfield, ReturnsToLink, hmnemonic, hreg, ← hlink]
  split
  · rename_i hret
    constructor
    · intro heq _
      exact congrArg (fun n : BitVec 5 => tdGprId n.toNat 64 false) heq.symm
    · intro heq
      exact (BitVec.eq_of_toNat_eq (tdGprId_inj (by omega) (by decide) (heq hret))).symm
  · rename_i hret
    exact iff_of_true rfl fun heq => absurd heq hret

theorem encodeOwn_bCond {w : BitVec 32} {address : BitVec 64} (h : DecodedAs bCondRow w address inst) :
    encodeOwn encoders (applyOperandMetadata tables inst) capacity = none := by
  obtain ⟨lead, hlen, hkinds, hops⟩ := h.operands
  have hid : (applyOperandMetadata tables inst).mnemonicId = Mnemonic.b := h.mnemonicId
  have hnone : (applyOperandMetadata tables inst).leadingTarget = none := by
    cases lead with
    | nil => cases hlen
    | cons o rest =>
      rw [Inst.leadingTarget, applyOperandMetadata, hops]
      simp [hkinds o List.mem_cons_self]
  rw [encodeOwn, instMnemonic_own (by rw [hid]; decide), hid]
  simp only [true_or, if_true, hnone, Option.map_none]

theorem decodesBack_iff (harch : engine.target.arch = .aarch64) (hrows : BranchRows tables.a64)
    (hregs : RegisterInfos encoders) {prior' : Inst}
    (hdec : AsmKit.decodeOne tables engine code address prior' = .ok inst)
    (hmnemonic : inst.mnemonicId ∈ ownMnemonics)
    (hown : encodeOwn encoders inst capacity = some out) (hok : out.status = .ok) :
    inst.DecodesBack tables engine out.code prior ↔ ReturnsToLink inst := by
  obtain ⟨inst0, hdec0, rfl⟩ := decodeOne_aarch64 harch hdec
  have hmode := engine.mode_of_aarch64 harch
  have hlen := length_of_decodeOne hdec0
  have hmnemonic0 : inst0.mnemonicId ∈ ownMnemonics := hmnemonic
  have hpcRel : ∀ row ∈ pcRelRows, load32le code &&& row.mask = row.value →
      DecodedAs row (load32le code) address inst0 := by
    intro row hmem hword
    exact (operands_of_decodeOne hrows.pcRel hmem hword hmode hlen hdec0).1
  have hdirect : ∀ row ∈ directRows, load32le code &&& row.mask = row.value →
      ((applyOperandMetadata tables inst0).DecodesBack tables engine out.code prior ↔
        ReturnsToLink (applyOperandMetadata tables inst0)) := by
    intro row hmem hword
    obtain ⟨hrow, -⟩ := direct_cases row hmem
    have hdecoded := hpcRel row hrow hword
    have hnotRet : ∀ row ∈ directRows, row.mnemonicId ≠ Mnemonic.ret := by decide
    refine iff_of_true (decodesBack_direct harch hrows hmem hdecoded hown hok) fun hret => ?_
    exact absurd (hdecoded.mnemonicId.symm.trans hret) (hnotRet row hmem)
  obtain ⟨record, hmem, hword⟩ := decodeOne_own hrows hdec0 hmnemonic0
  rcases List.mem_cons.1 hmem with rfl | hmem
  · -- The conditional branch begins with its condition, so the generated encoder is asked.
    exact absurd hown (by rw [encodeOwn_bCond (hpcRel bCondRow (by decide) hword)]; simp)
  rcases List.mem_cons.1 hmem with rfl | hmem
  · exact hdirect bRow (by decide) hword
  rcases List.mem_cons.1 hmem with rfl | hmem
  · exact hdirect blRow (by decide) hword
  · obtain ⟨inst', hdec', h⟩ := decodeOne_regBranch hrows hmem hmode hlen hword
    rw [hdec0] at hdec'
    cases hdec'
    exact decodesBack_regBranch harch hrows hregs hmem h hown hok

end

end AsmKit.A64
