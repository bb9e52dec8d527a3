import AsmKit.A64.BranchRows
import AsmKit.Isa.A64Words

/-!
# Words that are never moved

The pc-relative rows whose offset the relocation does not know, such as the compares of two
registers. It refuses their words.
-/

namespace AsmKit.A64

open SignedField BitPattern
open Isa.A64 (OffsetPlace offsetKind)

/-! ## Rows -/

/-- A pc-relative row with an offset that cannot be patched. -/
structure Record.Foreign (record : Record) (w : BitVec 32) : Prop where
  mnemonic : record.mnemonicId ≠ 0 ∧ record.mnemonicId ≠ Mnemonic.b ∧ record.mnemonicId ≠ Mnemonic.bl
  allocated : w &&& 0xff000000 ≠ 0xdc000000
  instClass : record.instClass ≠ .load ∧ record.instClass ≠ .store
  branch : ∃ place lead desc, record.BranchAt place lead desc ∧ 0 < place.bits ∧ place.bits ≤ 32

/-- The pc-relative rows: the known ones, and foreign ones. -/
structure OffsetRows (tables : Tables) : Prop where
  known : PcRelRows tables
  others : ∀ w i record, (i, record) ∈ tables.candidates w → w &&& record.mask = record.value →
    hasFlag record.flags InstFlag.pcRelative = true → offsetKind w = none → record.Foreign w

/-! ## What the overlay makes of a foreign word -/

variable {tables : Tables} {engine : Engine} {code : List Byte} {address relocatedAddress : BitVec 64}
  {inst : Inst} {w : BitVec 32} {capacity : Nat}

theorem patchWord_of_offsetKind (h : offsetKind w = none) (htop : w &&& 0xff000000 ≠ 0xdc000000) :
    wordIsUnconditionalBBl w = false ∧ ∀ disp, patchWord w disp = none := by
  unfold offsetKind at h
  split_ifs at h with hb h19 htb hadr hadrp
  simp only [Bool.or_eq_true, not_or, Bool.not_eq_true] at h19
  obtain ⟨⟨hcond, hcb⟩, hlit⟩ := h19
  have hldr : wordIsLdrLiteral w = false := by
    have hlit' : (wordIsLdrLiteral w && w &&& 0xff000000 != 0xdc000000) = false := hlit
    rwa [bne_iff_ne.2 htop, Bool.and_true] at hlit'
  have hprfm : wordIsPrfmLiteral w = false := by
    by_contra hprfm
    have hword : w &&& 0xff000000 = 0xd8000000 := beq_iff_eq.1 (Bool.eq_true_of_not_eq_false hprfm)
    have hldr' : wordIsLdrLiteral w = true :=
      beq_iff_eq.2 (and_eq_of_refines hword (by decide) (by decide))
    rw [hldr] at hldr'
    cases hldr'
  constructor
  · have hno (value : BitVec 32) (hvalue : value &&& 0x7c000000 = 0x14000000) :
        (w &&& 0xfc000000 == value) = false := by
      refine beq_eq_false_iff_ne.2 fun hword => hb ?_
      exact beq_iff_eq.2 (and_eq_of_refines hword (by decide) hvalue)
    rw [wordIsUnconditionalBBl, hno _ (by decide), hno _ (by decide)]
    rfl
  · intro disp
    have h19 : wordHasOff19 w = false := by
      rw [wordHasOff19, hldr, hprfm, show wordIsBCond w = false from hcond,
        show wordIsCbzCbnz w = false from hcb]
      rfl
    have htb' : wordIsTbzTbnz w = false := Bool.eq_false_of_not_eq_true htb
    have hadr' : wordIsAdr w = false := Bool.eq_false_of_not_eq_true hadr
    have hadrp' : wordIsAdrp w = false := Bool.eq_false_of_not_eq_true hadrp
    rw [patchWord]
    simp only [h19, htb', hadr', hadrp']
    rfl

theorem isConditional_of_offsetKind (h : offsetKind w = none) :
    (wordIsBCond w || wordIsCbzCbnz w || wordIsTbzTbnz w) = false := by
  unfold offsetKind at h
  split_ifs at h with hb h19 htb
  simp only [Bool.or_eq_true, not_or, Bool.not_eq_true] at h19
  rw [show wordIsBCond w = false from h19.1.1, show wordIsCbzCbnz w = false from h19.1.2,
    show wordIsTbzTbnz w = false from Bool.eq_false_of_not_eq_true htb]
  rfl

theorem relocate_refuses {operand : Operand} (hfind : findPcRelOperand inst = some operand)
    (hflag : inst.has InstFlag.pcRelative = true)
    (hmnemonic : inst.mnemonicId ≠ 0 ∧ inst.mnemonicId ≠ Mnemonic.b ∧ inst.mnemonicId ≠ Mnemonic.bl)
    (hsize : inst.size = 4) (hkind : offsetKind (load32le inst.bytes) = none)
    (htop : load32le inst.bytes &&& 0xff000000 ≠ 0xdc000000) :
    (relocate inst relocatedAddress capacity).status ≠ .ok := by
  obtain ⟨hbbl, hpatch⟩ := patchWord_of_offsetKind hkind htop
  have hword : instWord inst = load32le inst.bytes := by rw [instWord, hsize, if_pos (Nat.le_refl 4)]
  have hunconditional : isUnconditionalPcBranchOrCall inst = false := by
    rw [isUnconditionalPcBranchOrCall, hword, hbbl, instMnemonic, if_pos hmnemonic.1,
      beq_eq_false_iff_ne.2 hmnemonic.2.1, beq_eq_false_iff_ne.2 hmnemonic.2.2, Bool.false_and, Bool.false_and,
      Bool.or_self, Bool.or_self, Bool.and_false]
  have hconditional : isConditionalPcBranch inst = false := by
    rw [isConditionalPcBranch, hword]
    simp only [isConditional_of_offsetKind hkind, Bool.and_false]
  rw [relocate, hfind]
  simp only [hunconditional, hconditional, hflag, hpatch]
  cases relocDisp inst (operandTarget inst operand) relocatedAddress with
  | none =>
    intro h
    cases h
  | some disp =>
    simp only [if_true, Bool.false_eq_true, if_false]
    split_ifs <;> intro h <;> cases h

theorem Record.Foreign.findPcRelOperand {record : Record} (h : record.Foreign (load32le code))
    (hdec : finishTd tables engine code address record = .ok inst) :
    ∃ operand, A64.findPcRelOperand inst = some operand := by
  obtain ⟨place, lead, desc, hat, hpos, hbits⟩ := h.branch
  obtain ⟨o, ho, hkind, -, -⟩ := hat.decodeTdOperand hpos hbits (load32le code) address
  obtain ⟨operands, hops, hkinds⟩ := exists_decodes record (load32le code) address fun d hd =>
    (hat.decodes d hd).1
  have hall : record.descs.map (decodeTdOperand record (load32le code) address) =
      (operands ++ [o]).map some := by
    rw [hat.descs, List.map_append, List.map_append, hops, List.map_singleton, ho, List.map_singleton]
  have hshort : operands.length < maxOperands := by
    have hok := hat.wellFormed.indicesOk
    have hlength : operands.length = lead.length := by simpa using (congrArg List.length hops).symm
    simp only [Record.indicesOk, Bool.and_eq_true, decide_eq_true_eq, hat.descs] at hok
    have hle := hok.1.1
    rw [List.length_append, List.length_singleton] at hle
    omega
  obtain ⟨-, -, -, hoperands⟩ := finishTd_of_operands hat.wellFormed hall hdec
  rw [foldTdMemoryOperands_of_class h.instClass.1 h.instClass.2 hat.prefetch, List.mapIdx_append] at hoperands
  refine ⟨_, findPcRelOperand_append hoperands ?_ ?_ (by simpa using hshort)⟩
  · intro operand hmem
    obtain ⟨i, hi, rfl⟩ := List.mem_mapIdx.1 hmem
    simpa using hkinds _ (List.getElem_mem hi)
  · exact hkind

/-! ## The words the relocation moves -/

theorem finish_has {id : Nat} {instClass : InstClass} {flags flag : BitVec 32} {operands : List Operand} :
    (finish engine code address id instClass flags operands).has flag = hasFlag flags flag :=
  rfl

theorem has_ite {c : Prop} [Decidable c] {a b : Inst} {flag : BitVec 32} {P : Prop}
    (ha : c → a.has flag = true → P) (hb : b.has flag = true → P) :
    (if c then a else b).has flag = true → P := by
  split
  · exact ha ‹_›
  · exact hb

theorem unallocated_of_fallback (h : offsetKind w = none) :
    (decodeFallback engine code address w).has InstFlag.pcRelative = true →
      w &&& 0xff000000 = 0xdc000000 := by
  unfold offsetKind at h
  split_ifs at h with hb h19 htb hadr hadrp
  simp only [Bool.or_eq_true, not_or] at h19
  obtain ⟨⟨hcond, hcb⟩, hlit⟩ := h19
  have hbbl {value : BitVec 32} (hw : w &&& 0xfc000000 = value) (hvalue : value &&& 0x7c000000 = 0x14000000) :
      Isa.A64.isB w = true :=
    beq_iff_eq.2 (and_eq_of_refines hw (by decide) hvalue)
  have hliteral (hw : w &&& 0x3b000000 = 0x18000000) : w &&& 0xff000000 = 0xdc000000 := by
    by_contra htop
    refine hlit ?_
    rw [Isa.A64.isLiteral, beq_iff_eq.2 hw, bne_iff_ne.2 htop]
    rfl
  unfold decodeFallback
  refine has_ite (fun hw _ => absurd (hbbl hw (by decide)) hb) ?_
  refine has_ite (fun hw _ => absurd (hbbl hw (by decide)) hb) ?_
  refine has_ite (fun hw _ => absurd (beq_iff_eq.2 hw) hcond) ?_
  refine has_ite (fun hw _ => absurd (beq_iff_eq.2 hw) hcb) ?_
  refine has_ite (fun hw _ => absurd (beq_iff_eq.2 hw) htb) ?_
  refine has_ite (fun hw _ => hw.elim (fun hw => absurd (beq_iff_eq.2 hw) hadr)
    fun hw => absurd (beq_iff_eq.2 hw) hadrp) ?_
  refine has_ite (fun hw _ => hliteral hw) ?_
  refine has_ite (fun hw _ => hliteral (and_eq_of_refines hw (by decide) (by decide))) ?_
  iterate 4 refine has_ite (fun _ h => absurd (finish_has.symm.trans h) (by decide)) ?_
  exact fun h => absurd (finish_has.symm.trans h) (by decide)

theorem decodeFallback_unallocated (h : w &&& 0xff000000 = 0xdc000000) :
    (decodeFallback engine code address w).mnemonicId = Mnemonic.ldr := by
  have hno (m v : BitVec 32) (hd : 0xff000000#32 &&& m &&& (0xdc000000 ^^^ v) ≠ 0#32) : w &&& m ≠ v :=
    and_ne_of_disjoint h hd
  unfold decodeFallback
  rw [if_neg (hno _ _ (by decide)), if_neg (hno _ _ (by decide)), if_neg (hno _ _ (by decide)),
    if_neg (hno _ _ (by decide)), if_neg (hno _ _ (by decide)),
    if_neg (not_or.2 ⟨hno _ _ (by decide), hno _ _ (by decide)⟩),
    if_pos (and_eq_of_refines h (by decide) (by decide))]
  rfl

theorem finishTd_fields {record : Record} (h : finishTd tables engine code address record = .ok inst) :
    inst.mnemonicId = record.mnemonicId ∧ inst.flags = record.flags := by
  rw [finishTd] at h
  split at h
  · cases h
  · cases h
    exact ⟨rfl, rfl⟩

/-- A word with a target and no known offset is accepted by the relocation only where it is the
literal load that is not allocated. -/
theorem unallocated_of_relocate (hrows : OffsetRows tables)
    (hdec : decodeOne tables engine code address = .ok inst)
    (hflag : inst.has InstFlag.pcRelative = true) (hkind : offsetKind (load32le code) = none)
    (hok : (relocate inst relocatedAddress capacity).status = .ok) :
    load32le code &&& 0xff000000 = 0xdc000000 ∧ inst.mnemonicId = Mnemonic.ldr := by
  have hfrom := decodeOne_fromCode hdec
  have hload : load32le inst.bytes = load32le code := by
    rw [hfrom.bytes, load32le_eq, List.take_take, Nat.min_self, ← load32le_eq]
  have horigin := decodeOne_origin hdec
  cases horigin with
  | bti operands => exact absurd (finish_has.symm.trans hflag) (by decide)
  | row hmem hpattern hfinish =>
    obtain ⟨hmnemonicId, hflags⟩ := finishTd_fields hfinish
    have hforeign := hrows.others _ _ _ hmem hpattern (by rwa [← hflags]) hkind
    obtain ⟨operand, hfind⟩ := hforeign.findPcRelOperand hfinish
    rw [← hload] at hkind hforeign
    refine absurd hok (relocate_refuses hfind hflag ?_ hfrom.size hkind hforeign.allocated)
    rw [hmnemonicId]
    exact hforeign.mnemonic
  | fallback =>
    have htop := unallocated_of_fallback hkind hflag
    exact ⟨htop, decodeFallback_unallocated htop⟩

/-! ## The known rows -/

theorem offsetKind_row {row : PcRelRow} (hmem : row ∈ pcRelRows) (hw : w &&& row.mask = row.value) :
    offsetKind w = some row.kind := by
  have hrow : ∀ row ∈ pcRelRows, offsetKind row.value = some row.kind := by decide
  have htest (m v : BitVec 32)
      (hd : ∀ row ∈ pcRelRows, row.mask &&& m = m ∨ row.mask &&& m &&& (row.value ^^^ v) ≠ 0#32) :
      (w &&& m == v) = (row.value &&& m == v) := test_row hmem hw m v hd
  rw [← hrow row hmem]
  unfold offsetKind Isa.A64.isB Isa.A64.isBCond Isa.A64.isCb Isa.A64.isLiteral Isa.A64.isTb Isa.A64.isAdr
    Isa.A64.isAdrp bne
  rw [htest 0x7c000000 0x14000000 (by decide), htest 0xff000010 0x54000000 (by decide),
    htest 0x7e000000 0x34000000 (by decide), htest 0x3b000000 0x18000000 (by decide),
    htest 0xff000000 0xdc000000 (by decide), htest 0x7e000000 0x36000000 (by decide),
    htest 0x9f000000 0x10000000 (by decide), htest 0x9f000000 0x90000000 (by decide)]

theorem pcRelTables_offset : OffsetRows pcRelTables := by
  refine ⟨pcRelTables_rows, fun w i record hcandidate hw hflag hkind => ?_⟩
  obtain ⟨row, hmem, heq⟩ := List.mem_map.1 hcandidate
  cases heq
  rw [offsetKind_row hmem hw] at hkind
  cases hkind

end AsmKit.A64
