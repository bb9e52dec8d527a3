import AsmKit.Encode.Agree
import AsmKit.Relocate.Jcc

/-!
# x86 instructions encoded anew

`x86_encode` knows one form of `nop`, `ret` and the relative `jmp` and `call`. What it emits is
decoded by hand, but for `ret`, which has a row.
-/

namespace AsmKit.X86

open SignedField

/-! ## The row of `ret` -/

/-- The rows of the byte `c3`. -/
def retRecord (id : Nat) (opSize : OpSize) (nameHas64 : Bool) : Record :=
  { id, mnemonicId := Mnemonic.ret, opcode := 0xc3, opcodeMap := 0, modrmKind := .none, opSize
    nameHas64, instClass := .return_, flags := InstFlag.return_ ||| InstFlag.terminator
    decodeForm := .raw }

def retRecords : List Record :=
  [retRecord 68369 .o16 false, retRecord 68370 .o32 false, retRecord 68371 .o32 true]

/-- The byte `c3` without prefixes. -/
def retHead (mode : Mode) : Head := ⟨.init mode, 0, 0xc3, 1⟩

/-- The search finds one of the rows. -/
def RetRow (engine : Engine) (tables : Tables) : Prop :=
  ∃ record ∈ retRecords, lookupNoModrm engine tables (retHead engine.config.mode) = .ok (some record)

/-! ## The emitted forms -/

theorem parseHead_emitted {mode : Mode} {op : Byte} (hop : op ∈ ([0x90, 0xc3, 0xe8, 0xe9] : List Byte))
    (rest : List Byte) : parseHead mode (op :: rest) = some ⟨.init mode, 0, op, 1⟩ := by
  have hplain : ∀ op ∈ ([0x90, 0xc3, 0xe8, 0xe9] : List Byte), isPrefix mode op = false ∧ op ≠ 0xd5 ∧
      op ∉ ([0x62, 0xc4, 0xc5, 0x8f] : List Byte) ∧ op ≠ 0x0f ∧
      Head.markRep ⟨.init mode, 0, op, 1⟩ = ⟨.init mode, 0, op, 1⟩ := by
    cases mode <;> decide
  obtain ⟨hnone, hrex2, hescape, h0f, hrep⟩ := hplain op hop
  unfold parseHead
  rw [scanPrefixes_stop hnone hrex2]
  simp only
  rw [if_neg (by simp [maxInstructionBytes]),
    parseOpcode_legacy (by rwa [List.getD_cons_zero]), parseLegacyOpcode]
  simp only [List.getD_cons_zero]
  rw [if_pos h0f, Option.map_some, hrep]

section

variable {engine : Engine} {tables : Tables} {code : List Byte} {address : BitVec 64} {prior : Inst}
  (harch : engine.target.arch = .x86)

include harch

theorem decodeOne_emitted {op : Byte} (hop : op ∈ ([0x90, 0xc3, 0xe8, 0xe9] : List Byte))
    (rest : List Byte) :
    decodeOne engine tables (op :: rest) address prior =
      decodeHead engine tables (op :: rest) address prior ⟨.init engine.config.mode, 0, op, 1⟩ := by
  have hmode : ¬ (engine.config.mode ≠ .x86_16 ∧ engine.config.mode ≠ .x86_32 ∧
      engine.config.mode ≠ .x86_64) := by
    rcases engine.mode_of_x86 harch with h | h | h <;> simp [h]
  unfold decodeOne
  simp only [if_neg hmode, parseHead_emitted hop]
  rfl

theorem decodeOne_nop : ∃ inst, decodeOne engine tables [0x90] address prior = .ok inst ∧
    inst.arch = .x86 ∧ inst.PlainForm Mnemonic.nop .nop [] := by
  rw [decodeOne_emitted harch (by decide)]
  exact ⟨_, rfl, rfl, rfl, rfl, rfl, rfl⟩

theorem decodeOne_ret (hrow : RetRow engine tables) :
    ∃ inst, decodeOne engine tables [0xc3] address prior = .ok inst ∧
      inst.arch = .x86 ∧ inst.PlainForm Mnemonic.ret .return_ [] := by
  obtain ⟨record, hmem, hlookup⟩ := hrow
  have hhead : decodeHead engine tables [0xc3] address prior (retHead engine.config.mode) =
      decodeTd engine tables [0xc3] address prior (retHead engine.config.mode) := rfl
  rw [decodeOne_emitted harch (by decide)]
  change ∃ inst, decodeHead engine tables [0xc3] address prior (retHead engine.config.mode) = _ ∧ _
  rw [hhead, decodeTd, hlookup]
  simp only [retRecords, List.mem_cons, List.not_mem_nil, or_false] at hmem
  rcases hmem with rfl | rfl | rfl <;> exact ⟨_, rfl, rfl, rfl, rfl, rfl, rfl⟩

theorem decodeOne_rel (isCall : Bool) {disp : BitVec 64} (hfits : fitsDirect engine disp = true) :
    ∃ inst, decodeOne engine tables (relCode engine isCall disp) address prior = .ok inst ∧
      inst.arch = .x86 ∧ inst.LeadsWith disp ∧
      inst.PlainForm (if isCall then Mnemonic.call else Mnemonic.jmp)
        (if isCall then .directCall else .directBranch)
        [address + BitVec.ofNat 64 (directSize engine) + disp] := by
  have hsize : relBranchImmSize engine.config.mode
      ⟨.init engine.config.mode, 0, if isCall then 0xe8 else 0xe9, 1⟩ = directSize engine - 1 := by
    rcases engine.mode_of_x86 harch with h | h | h <;> cases isCall <;>
      simp only [directSize, h] <;> rfl
  have hread : readSigned ((relCode engine isCall disp).drop 1) (directSize engine - 1) = disp := by
    unfold fitsDirect at hfits
    rw [relCode, List.drop_one, List.tail_cons, directSize]
    by_cases h16 : engine.config.mode = .x86_16
    · simp only [h16, if_true, i64FitsI16_iff] at hfits ⊢
      have hload := load16le_store16le (disp.setWidth 16) []
      rw [List.append_nil] at hload
      rw [readSigned, if_neg (by omega), if_pos rfl, hload,
        signExtend_setWidth_of_fits disp (by omega) (by omega) hfits]
    · simp only [h16, if_false, i64FitsI32_iff] at hfits ⊢
      have hload := load32le_store32le (disp.setWidth 32) []
      rw [List.append_nil] at hload
      rw [readSigned, if_neg (by omega), if_neg (by omega), hload,
        signExtend_setWidth_of_fits disp (by omega) (by omega) hfits]
  have hlen : 1 + (directSize engine - 1) = directSize engine := by
    unfold directSize
    split <;> rfl
  have hlength : (relCode engine isCall disp).length = directSize engine := relCode_length disp
  obtain ⟨tail, hcode⟩ : ∃ tail, relCode engine isCall disp = (if isCall then 0xe8 else 0xe9) :: tail :=
    ⟨_, rfl⟩
  rw [hcode] at hread hlength ⊢
  have hhead : decodeHead engine tables ((if isCall then 0xe8 else 0xe9) :: tail) address prior
      ⟨.init engine.config.mode, 0, if isCall then 0xe8 else 0xe9, 1⟩ =
      decodeRelBranch engine ((if isCall then 0xe8 else 0xe9) :: tail) address prior
        ⟨.init engine.config.mode, 0, if isCall then 0xe8 else 0xe9, 1⟩ (directSize engine - 1) := by
    rw [← hsize]
    cases isCall <;> rfl
  have hfinish : ¬ (directSize engine = 0 ∨ maxInstructionBytes < directSize engine ∨
      ((if isCall then 0xe8 else 0xe9) :: tail).length < directSize engine) := by
    rw [hlength]
    unfold directSize maxInstructionBytes
    split <;> omega
  have hshort : ¬ ((if isCall then 0xe8 else 0xe9) :: tail).length < directSize engine := by
    rw [hlength]
    exact Nat.lt_irrefl _
  rw [decodeOne_emitted harch (by cases isCall <;> decide), hhead, decodeRelBranch]
  simp only [hlen]
  rw [if_neg hshort, finish, if_neg hfinish, Option.getD_some]
  refine ⟨_, rfl, rfl, ⟨_, rfl, hread⟩, ?_, ?_, rfl, ?_⟩
  · cases isCall <;> rfl
  · cases isCall <;> rfl
  · simp only [Inst.targetOperands, pcOperand, hread]
    rfl

end

/-! ## The instructions that come back -/

/-- The mnemonics that `x86_encode` knows. -/
def ownMnemonics : List Nat := [Mnemonic.nop, Mnemonic.ret, Mnemonic.jmp, Mnemonic.call]

def plainClass (mnemonic : Nat) : InstClass :=
  if mnemonic = Mnemonic.nop then .nop
  else if mnemonic = Mnemonic.ret then .return_
  else if mnemonic = Mnemonic.call then .directCall
  else .directBranch

/-- No long `nop`, which has another class, no immediate behind `ret`, and a target that is held. -/
structure IsPlain (engine : Engine) (inst : Inst) : Prop where
  instClass : inst.instClass = plainClass inst.mnemonicId
  operands : inst.plainOperands = []
  targets : if inst.mnemonicId = Mnemonic.nop ∨ inst.mnemonicId = Mnemonic.ret then
      inst.targetOperands = []
    else inst.HoldsTarget (directSize engine)

section

variable {engine : Engine} {tables : AsmKit.Tables} {inst prior : Inst} {capacity : Nat}
  {out : EncodeOut}

theorem instMnemonic_own (hmnemonic : inst.mnemonicId ∈ ownMnemonics) :
    instMnemonic inst = inst.mnemonicId := by
  have hne : ∀ mnemonic ∈ ownMnemonics, mnemonic ≠ 0 := by decide
  rw [instMnemonic, if_pos (hne _ hmnemonic)]

theorem decodeOne_encodeOwn (harch : engine.target.arch = .x86) (hrow : RetRow engine tables.x86)
    (hmnemonic : inst.mnemonicId ∈ ownMnemonics)
    (hown : encodeOwn engine inst capacity = some out) (hok : out.status = .ok) (prior : Inst) :
    ∃ inst' targets, decodeOne engine tables.x86 out.code inst.address prior = .ok inst' ∧
      inst'.arch = .x86 ∧
      inst'.PlainForm inst.mnemonicId (plainClass inst.mnemonicId) targets ∧
      (inst.targetOperands.map (·.absTarget) = targets ↔
        if inst.mnemonicId = Mnemonic.nop ∨ inst.mnemonicId = Mnemonic.ret then
          inst.targetOperands = []
        else inst.HoldsTarget (directSize engine)) := by
  rw [encodeOwn, instMnemonic_own hmnemonic] at hown
  have hbytes : ∀ {code : List Byte}, encodeBytes code capacity = out → out.code = code := by
    intro code h
    subst h
    exact encodeBytes_code_of_ok hok
  simp only [ownMnemonics, List.mem_cons, List.not_mem_nil, or_false] at hmnemonic
  rcases hmnemonic with hid | hid | hbranch
  · rw [hid, if_pos rfl, Option.some_inj] at hown
    obtain ⟨inst', hdec, hinst', hform⟩ := decodeOne_nop harch
    rw [hbytes hown, hid]
    exact ⟨inst', [], hdec, hinst', hform, by simp⟩
  · rw [hid, if_neg (by decide), if_pos rfl, Option.some_inj] at hown
    obtain ⟨inst', hdec, hinst', hform⟩ := decodeOne_ret harch hrow
    rw [hbytes hown, hid]
    exact ⟨inst', [], hdec, hinst', hform, by simp⟩
  · have hne : inst.mnemonicId ≠ Mnemonic.nop ∧ inst.mnemonicId ≠ Mnemonic.ret := by
      rcases hbranch with h | h <;> rw [h] <;> decide
    rw [if_neg hne.1, if_neg hne.2, if_pos hbranch, Option.map_eq_some_iff] at hown
    obtain ⟨o, hlead, hout⟩ := hown
    have hemit : (emitRel engine (inst.mnemonicId == Mnemonic.call) inst.address
        (branchTarget inst o (directSize engine)) capacity).status = .ok := by
      rw [← hok, ← hout]
      rfl
    obtain ⟨hfits, heq⟩ := emitRel_of_ok hemit
    obtain ⟨inst', hdec, hinst', -, hform⟩ := decodeOne_rel harch
      (inst.mnemonicId == Mnemonic.call) hfits
    have hform' : inst'.PlainForm inst.mnemonicId (plainClass inst.mnemonicId)
        [branchTarget inst o (directSize engine)] := by
      have hback : inst.address + BitVec.ofNat 64 (directSize engine) +
          relDisp engine inst.address (branchTarget inst o (directSize engine)) =
            branchTarget inst o (directSize engine) := by
        unfold relDisp
        bv_omega
      rw [hback] at hform
      rcases hbranch with h | h <;> rw [h] at hform ⊢ <;> exact hform
    refine ⟨inst', _, ?_, hinst', hform', ?_⟩
    · rw [← hout, EmitOut.encoded, heq]
      exact hdec
    · rw [if_neg (not_or.2 hne)]
      exact holdsTarget_iff hlead rfl

theorem decodesBack_iff (harch : engine.target.arch = .x86) (hrow : RetRow engine tables.x86)
    (hmnemonic : inst.mnemonicId ∈ ownMnemonics) (hinst : inst.arch = .x86)
    (hown : encodeOwn engine inst capacity = some out) (hok : out.status = .ok) (prior : Inst) :
    inst.DecodesBack tables engine out.code prior ↔ IsPlain engine inst := by
  obtain ⟨inst', targets, hdec, hinst', hform, htargets⟩ :=
    decodeOne_encodeOwn harch hrow hmnemonic hown hok prior
  have hdec' : AsmKit.decodeOne tables engine out.code inst.address prior =
      .ok (applyOperandMetadata tables inst') := by
    rw [AsmKit.decodeOne, targetDecodeOne, harch, hdec]
    rfl
  have hpredicate : ∀ state,
      (applyOperandMetadata tables inst').predicateIn state = inst.predicateIn state := by
    intro state
    have harch' : (applyOperandMetadata tables inst').arch = .x86 := hinst'
    rw [Inst.predicateIn_of_ne_arm (by rw [harch']; decide),
      Inst.predicateIn_of_ne_arm (by rw [hinst]; decide)]
  rw [Inst.decodesBack_iff hdec', (hform.withMetadata tables).agrees_iff]
  constructor
  · rintro ⟨h, -⟩
    exact ⟨h.instClass, h.operands, htargets.1 h.targets⟩
  · intro h
    exact ⟨⟨rfl, h.instClass, h.operands, htargets.2 h.targets⟩, hpredicate⟩

end

end AsmKit.X86
