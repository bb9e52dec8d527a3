import AsmKit.A64.Operands

/-!
# The AArch64 decoder

`asmkit_gen_aarch64_decode_one`. The generated tables are a parameter: the rows the buckets offer
for a word, the `msr` literals, and the ids of the write-back loads and stores.
-/

namespace AsmKit.A64

/-! ## Tables -/

structure PstateLiteral where
  encoding : BitVec 32
  kind : Predicate
  featureBits : Vector (BitVec 64) 8
deriving DecidableEq, Repr

structure Tables where
  /-- The rows the buckets offer for a word, with their index, in the order they are tried. -/
  candidates : BitVec 32 → List (Nat × Record)
  pstateLiterals : List PstateLiteral
  hasWritebackBaseFirst : Nat → Bool

/-- `a64_td_features_match`. -/
def featuresMatch (engine : Engine) (required : Vector (BitVec 64) 8) : Bool :=
  (List.range 8).all fun i => required[i]?.getD 0 &&& ~~~engine.featureWord i == 0

theorem featuresMatch_none {engine : Engine} : featuresMatch engine (.replicate 8 0) = true := by
  simp +contextual [featuresMatch, Vector.getElem?_replicate]

variable (tables : Tables)

def pstateLiteralMatch (engine : Engine) (kind : Predicate) (encoding : BitVec 32) : Bool :=
  tables.pstateLiterals.any fun literal =>
    literal.kind == kind && literal.encoding == encoding && featuresMatch engine literal.featureBits

def tdPredicateMatch (engine : Engine) (record : Record) (word : BitVec 32) : Bool :=
  let op1 := (word >>> 16) &&& 7
  let op2 := (word >>> 5) &&& 7
  let crmHigh := (word >>> 9) &&& 7
  match record.predicate with
  | .none => true
  | .pstateImm0_15 =>
    if op1 = 0 ∧ op2 ≤ 2 then false
    else pstateLiteralMatch tables engine .pstateImm0_15 ((op1 <<< 3) ||| op2)
  | .pstateImm0_1 =>
    if op1 = 0 ∧ op2 ≤ 2 then false
    else pstateLiteralMatch tables engine .pstateImm0_1 ((crmHigh <<< 6) ||| (op1 <<< 3) ||| op2)

/-- The row can be the one of the word. -/
def tdRecordMatches (engine : Engine) (word : BitVec 32) (checkFeatures : Bool)
    (record : Record) : Bool :=
  word &&& record.mask == record.value &&
    (!checkFeatures || featuresMatch engine record.featureBits) &&
    tdPredicateMatch tables engine record word && tdRecordOperandsMatch record word

/-- `a64_consider_td_record`: more fixed bits win, then the smaller index. -/
def considerTdRecord (engine : Engine) (word : BitVec 32) (checkFeatures : Bool)
    (best : Option (Nat × Record)) (candidate : Nat × Record) : Option (Nat × Record) :=
  if tdRecordMatches tables engine word checkFeatures candidate.2 then
    match best with
    | none => some candidate
    | some b =>
      if b.2.fixedBits < candidate.2.fixedBits ∨
          (candidate.2.fixedBits = b.2.fixedBits ∧ candidate.1 < b.1) then some candidate
      else some b
  else best

def findTdRecord (engine : Engine) (word : BitVec 32) (checkFeatures : Bool) : Option Record :=
  ((tables.candidates word).foldl (considerTdRecord tables engine word checkFeatures) none).map (·.2)

/-! ## Memory operands -/

def operandIsGpr64Base (operand : Operand) : Bool :=
  operand.kind == .reg && operand.width == 64 &&
    ((Reg.x0 ≤ operand.reg && operand.reg ≤ Reg.x28) || operand.reg == Reg.fp ||
      operand.reg == Reg.lr || operand.reg == Reg.sp)

def memoryAccessWidth (word : BitVec 32) (data : Option Operand) : Nat :=
  match data with
  | some operand => if 64 < operand.width then operand.width else 8 <<< ((word >>> 30) &&& 3).toNat
  | none => 8 <<< ((word >>> 30) &&& 3).toNat

/-- `asmkit_operand_mem_full` with the flags and the index of the operand it replaces. -/
def memOperand (base index : Nat) (scale : Nat) (disp : BitVec 64) (width : Nat) (flags : BitVec 32)
    (operandIndex : Nat) : Operand :=
  { kind := .mem, flags, width, operandIndex
    mem := { base, index, displacement := disp, addressWidth := 64
             scale := BitVec.ofNat 8 (if scale = 0 then 1 else scale) } }

/-- `a64_remove_operands`. The operands that move up are numbered anew. -/
def removeOperands (operands : List Operand) (first count : Nat) : List Operand :=
  operands.take first ++ (operands.drop (first + count)).mapIdx fun i operand =>
    { operand with operandIndex := first + i }

/-- The operand whose width decides the access: the first one, unless it is the base. -/
def dataOperand (operands : List Operand) (baseIndex : Nat) : Option Operand :=
  if baseIndex ≠ 0 then operands[0]? else none

def replaceBaseDispMemory (operands : List Operand) (baseIndex dispIndex : Nat) (word flags : BitVec 32) :
    List Operand :=
  match operands[baseIndex]?, operands[dispIndex]? with
  | some base, some disp =>
    if ¬ operandIsGpr64Base base ∨ disp.kind ≠ .imm then operands
    else
      let width := memoryAccessWidth word (dataOperand operands baseIndex)
      let mem := memOperand base.reg 0 1 disp.imm width flags baseIndex
      removeOperands (operands.set baseIndex mem) dispIndex 1
  | _, _ => operands

def replaceBaseIndexMemory (operands : List Operand) (baseIndex indexIndex optionIndex : Nat)
    (word flags : BitVec 32) : List Operand :=
  match operands[baseIndex]?, operands[indexIndex]?, operands[optionIndex]? with
  | some base, some index, some option =>
    if ¬ operandIsGpr64Base base ∨ index.kind ≠ .reg then operands
    else if option.kind ≠ .opaque_ ∧
        (option.kind ≠ .imm ∨ 8 < option.width ∨ option.imm.toInt < 0 ∨ 15 < option.imm.toInt) then
      operands
    else
      let scale := if (word >>> 12) &&& 1 ≠ 0 then 1 <<< ((word >>> 30) &&& 3).toNat else 1
      let width := memoryAccessWidth word (dataOperand operands baseIndex)
      let mem := memOperand base.reg index.reg scale 0 width flags baseIndex
      removeOperands (operands.set baseIndex mem) indexIndex 2
  | _, _, _ => operands

def replaceBaseIndexFixedScaleMemory (operands : List Operand) (baseIndex indexIndex scale width : Nat)
    (flags : BitVec 32) : List Operand :=
  match operands[baseIndex]?, operands[indexIndex]? with
  | some base, some index =>
    if ¬ operandIsGpr64Base base ∨ index.kind ≠ .reg then operands
    else
      let mem := memOperand base.reg index.reg scale 0 width flags baseIndex
      removeOperands (operands.set baseIndex mem) indexIndex 1
  | _, _ => operands

def replaceBaseOnlyMemory (operands : List Operand) (baseIndex : Nat) (word flags : BitVec 32) :
    List Operand :=
  match operands[baseIndex]? with
  | some base =>
    if ¬ operandIsGpr64Base base then operands
    else
      let width := memoryAccessWidth word (dataOperand operands baseIndex)
      operands.set baseIndex (memOperand base.reg 0 1 0 width flags baseIndex)
  | none => operands

/-- `a64_replace_writeback_base_disp_memory` on base, data and displacement. -/
def replaceWritebackBaseDispMemory (operands : List Operand) (word flags : BitVec 32) : List Operand :=
  match operands[0]?, operands[1]?, operands[2]? with
  | some base, some data, some disp =>
    if ¬ operandIsGpr64Base base ∨ data.kind ≠ .reg ∨ disp.kind ≠ .imm then operands
    else
      [data, memOperand base.reg 0 1 disp.imm (memoryAccessWidth word (some data)) flags 0]
  | _, _, _ => operands

namespace Mnemonic

def base : Nat := 0x03000000
def other : Nat := base + 1
def adr : Nat := base + 26
def adrp : Nat := base + 27
def b : Nat := base + 63
def bl : Nat := base + 111
def blr : Nat := base + 112
def br : Nat := base + 119
def bti : Nat := base + 139
def cbnz : Nat := base + 185
def cbz : Nat := base + 186
def ldff1h : Nat := base + 670
def ldr : Nat := base + 714
def ldrsw : Nat := base + 721
def pac : Nat := base + 865
def prfm : Nat := base + 901
def prfum : Nat := base + 902
def ret : Nat := base + 984
def tbnz : Nat := base + 1395
def tbz : Nat := base + 1398

end Mnemonic

def Record.isPrefetchMemory (record : Record) : Bool :=
  record.mnemonicId == Mnemonic.prfm || record.mnemonicId == Mnemonic.prfum

def loadFlags : BitVec 32 := OperandFlag.explicit ||| OperandFlag.memory ||| OperandFlag.read
def storeFlags : BitVec 32 := OperandFlag.explicit ||| OperandFlag.memory ||| OperandFlag.write
def writebackFlags : BitVec 32 := loadFlags ||| OperandFlag.write

/-- The shape of the operand list, as `a64_fold_td_memory_operands` tells them apart. -/
def foldTdMemoryOperands (record : Record) (word : BitVec 32) (operands : List Operand) :
    List Operand :=
  let accessFlags := if record.instClass = .load then loadFlags else storeFlags
  let isReg (operand : Operand) : Bool := operand.kind == .reg
  if record.instClass ≠ .load ∧ record.instClass ≠ .store ∧ ¬ record.isPrefetchMemory then operands
  else if word &&& 0x3a000000 = 0x28000000 then operands
  else if tables.hasWritebackBaseFirst record.id ∧ operands.length = 3 then
    replaceWritebackBaseDispMemory operands word writebackFlags
  else
    match operands with
    | [o0, o1, o2, o3] =>
      if isReg o0 ∧ isReg o1 ∧ isReg o2 ∧ operandIsGpr64Base o3 then
        replaceBaseOnlyMemory operands 3 word accessFlags
      else if isReg o0 ∧ operandIsGpr64Base o1 ∧ isReg o2 then
        replaceBaseIndexMemory operands 1 2 3 word accessFlags
      else if isReg o0 ∧ isReg o1 ∧ operandIsGpr64Base o2 ∧ isReg o3 then
        let scale := if record.mnemonicId = Mnemonic.ldff1h then 2 else 1
        replaceBaseIndexFixedScaleMemory operands 2 3 scale (scale * 8) loadFlags
      else operands
    | [o0, o1, o2] =>
      if record.isPrefetchMemory ∧ o0.kind = .opaque_ ∧ operandIsGpr64Base o1 ∧ o2.kind = .imm then
        replaceBaseDispMemory operands 1 2 word loadFlags
      else if isReg o0 ∧ operandIsGpr64Base o1 ∧ o2.kind = .imm then
        replaceBaseDispMemory operands 1 2 word accessFlags
      else if isReg o0 ∧ isReg o1 ∧ operandIsGpr64Base o2 then
        replaceBaseOnlyMemory operands 2 word writebackFlags
      else operands
    | [o0, o1] =>
      if isReg o0 ∧ operandIsGpr64Base o1 then replaceBaseOnlyMemory operands 1 word accessFlags
      else operands
    | _ => operands

/-! ## Finishing -/

namespace Id

def other : Nat := 1
def b : Nat := 2
def bl : Nat := 3
def bCond : Nat := 4
def cbz : Nat := 5
def cbnz : Nat := 6
def tbz : Nat := 7
def tbnz : Nat := 8
def adr : Nat := 9
def adrp : Nat := 10
def ldrLiteral : Nat := 11
def prfmLiteral : Nat := 12
def br : Nat := 13
def blr : Nat := 14
def ret : Nat := 15
def bti : Nat := 16
def pac : Nat := 17

end Id

/-- `a64_mnemonic_id`. -/
def mnemonicId (id : Nat) : Nat :=
  ([(Id.other, Mnemonic.other), (Id.b, Mnemonic.b), (Id.bl, Mnemonic.bl), (Id.bCond, Mnemonic.b),
    (Id.cbz, Mnemonic.cbz), (Id.cbnz, Mnemonic.cbnz), (Id.tbz, Mnemonic.tbz),
    (Id.tbnz, Mnemonic.tbnz), (Id.adr, Mnemonic.adr), (Id.adrp, Mnemonic.adrp),
    (Id.ldrLiteral, Mnemonic.ldr), (Id.prfmLiteral, Mnemonic.prfm), (Id.br, Mnemonic.br),
    (Id.blr, Mnemonic.blr), (Id.ret, Mnemonic.ret), (Id.bti, Mnemonic.bti),
    (Id.pac, Mnemonic.pac)].lookup id).getD 0

/-- `a64_finish`. -/
def finish (engine : Engine) (code : List Byte) (address : BitVec 64) (id : Nat)
    (instClass : InstClass) (flags : BitVec 32) (operands : List Operand := []) : Inst :=
  { arch := .aarch64, mode := engine.config.mode, id, mnemonicId := mnemonicId id, instClass, address
    size := 4, bytes := code.take 4, flags, operands }

/-- `a64_finish_td`. -/
def finishTd (engine : Engine) (code : List Byte) (address : BitVec 64) (record : Record) :
    Except Status Inst :=
  let word := load32le code
  match decodeTdOperands record word address with
  | none => .error .decodeFailed
  | some operands =>
    .ok { arch := .aarch64, mode := engine.config.mode, id := record.id
          mnemonicId := record.mnemonicId, instClass := record.instClass, address
          size := 4, bytes := code.take 4, flags := record.flags
          operands := foldTdMemoryOperands tables record word operands }

/-- `a64_set_reg_operand`, `a64_set_imm_operand`: an operand that is read, at its place. -/
def readOperand (operand : Operand) (index : Nat) : Operand :=
  { operand with operandIndex := index, flags := operand.flags ||| OperandFlag.explicit ||| OperandFlag.read }

/-- `a64_set_pc_operand`. -/
def pcOperand (index : Nat) (disp target : BitVec 64) (width : Nat) : Operand :=
  { readOperand (Operand.ofPcRel disp width) index with
    absTarget := target
    flags := OperandFlag.explicit ||| OperandFlag.read ||| OperandFlag.relative ||| OperandFlag.signed }

/-- `a64_set_literal_rt_operand`. -/
def literalRtOperand (w : BitVec 32) : Operand :=
  let rt := (w &&& 0x1f).toNat
  let opc := (w >>> 30) &&& 3
  if w &&& 0x04000000 ≠ 0 then
    let width := if opc = 0 then 32 else if opc = 1 then 64 else 128
    readOperand (Operand.ofReg (tdSimdId rt width) width) 0
  else
    let width := if opc = 0 then 32 else 64
    readOperand (Operand.ofReg (tdGprId rt width false) width) 0

/-! ## Decoding -/

def featureBranchTargetId : Nat := 11

/-- The words that no row of the tables decodes. -/
def decodeFallback (engine : Engine) (code : List Byte) (address : BitVec 64) (w : BitVec 32) : Inst :=
  let words19 := signExtend ((w >>> 5) &&& 0x7ffff) 19 * 4
  let rt := (w &&& 0x1f).toNat
  if w &&& 0xfc000000 = 0x14000000 then
    let disp := signExtend (w &&& 0x03ffffff) 26 * 4
    finish engine code address Id.b .directBranch
      (InstFlag.pcRelative ||| InstFlag.direct ||| InstFlag.terminator)
      [pcOperand 0 disp (address + disp) 26]
  else if w &&& 0xfc000000 = 0x94000000 then
    let disp := signExtend (w &&& 0x03ffffff) 26 * 4
    finish engine code address Id.bl .directCall
      (InstFlag.pcRelative ||| InstFlag.direct ||| InstFlag.call)
      [pcOperand 0 disp (address + disp) 26]
  else if w &&& 0xff000010 = 0x54000000 then
    finish engine code address Id.bCond .condBranch
      (InstFlag.pcRelative ||| InstFlag.direct ||| InstFlag.conditional)
      [readOperand (Operand.ofImm ((w &&& 0x0f).setWidth 64) 4) 0,
        pcOperand 1 words19 (address + words19) 19]
  else if w &&& 0x7e000000 = 0x34000000 then
    let width := if w &&& 0x80000000 ≠ 0 then 64 else 32
    finish engine code address (if w &&& 0x01000000 ≠ 0 then Id.cbnz else Id.cbz) .condBranch
      (InstFlag.pcRelative ||| InstFlag.direct ||| InstFlag.conditional)
      [readOperand (Operand.ofReg (tdGprId rt width false) width) 0,
        pcOperand 1 words19 (address + words19) 19]
  else if w &&& 0x7e000000 = 0x36000000 then
    let disp := signExtend ((w >>> 5) &&& 0x3fff) 14 * 4
    let imm := ((w >>> 19) &&& 0x1f) ||| ((w >>> 26) &&& 0x20)
    let width := if 32 ≤ imm then 64 else 32
    finish engine code address (if w &&& 0x01000000 ≠ 0 then Id.tbnz else Id.tbz) .condBranch
      (InstFlag.pcRelative ||| InstFlag.direct ||| InstFlag.conditional)
      [readOperand (Operand.ofReg (tdGprId rt width false) width) 0,
        readOperand (Operand.ofImm (imm.setWidth 64) 6) 1, pcOperand 2 disp (address + disp) 14]
  else if w &&& 0x9f000000 = 0x10000000 ∨ w &&& 0x9f000000 = 0x90000000 then
    let imm := ((w >>> 29) &&& 0x3) ||| (((w >>> 5) &&& 0x7ffff) <<< 2)
    let disp := signExtend imm 21
    let rd := readOperand (Operand.ofReg (tdGprId rt 64 false) 64) 0
    if w &&& 0x9f000000 = 0x90000000 then
      let page := address &&& ~~~0xfff
      finish engine code address Id.adrp .alu InstFlag.pcRelative
        [rd, pcOperand 1 (disp * 4096) (page + disp * 4096) 21]
    else
      finish engine code address Id.adr .alu InstFlag.pcRelative
        [rd, pcOperand 1 disp (address + disp) 21]
  else if w &&& 0x3b000000 = 0x18000000 then
    finish engine code address Id.ldrLiteral .load (InstFlag.pcRelative ||| InstFlag.literal)
      [literalRtOperand w, pcOperand 1 words19 (address + words19) 19]
  else if w &&& 0xff000000 = 0xd8000000 then
    finish engine code address Id.prfmLiteral .hint (InstFlag.pcRelative ||| InstFlag.literal)
      [Operand.ofOpaque ((w &&& 0x1f).setWidth 64) 5, pcOperand 1 words19 (address + words19) 19]
  else if w &&& 0xfffffc1f = 0xd61f0000 then
    finish engine code address Id.br .indirectBranch InstFlag.terminator
  else if w &&& 0xfffffc1f = 0xd63f0000 then
    finish engine code address Id.blr .indirectCall InstFlag.call
  else if w &&& 0xfffffc1f = 0xd65f0000 then
    finish engine code address Id.ret .return_ (InstFlag.return_ ||| InstFlag.terminator)
  else if w &&& 0xfffff000 = 0xd5032000 then finish engine code address Id.pac .pac 0
  else finish engine code address Id.other .other 0

/-- `asmkit_gen_aarch64_decode_one`. -/
def decodeOne (engine : Engine) (code : List Byte) (address : BitVec 64) : Except Status Inst :=
  let w := load32le code
  if engine.config.mode ≠ .aarch64 ∨ code.length < 4 then .error .decodeFailed
  else if w = 0xd503241f ∨ w = 0xd503245f ∨ w = 0xd503249f ∨ w = 0xd50324df then
    if ¬ engine.featureEnabled featureBranchTargetId then .error .unsupportedFeature
    else
      .ok (finish engine code address Id.bti .bti 0
        [readOperand (Operand.ofImm (((w >>> 5) &&& 0x7f).setWidth 64) 7) 0])
  else
    match findTdRecord tables engine w true with
    | some record => finishTd tables engine code address record
    | none =>
      if (findTdRecord tables engine w false).isSome then .error .unsupportedFeature
      else .ok (decodeFallback engine code address w)

/-! ## What every instruction has -/

section

variable {tables : Tables} {engine : Engine} {code : List Byte} {address : BitVec 64} {inst : Inst}

/-- An instruction of the engine, with the word it was decoded from. -/
structure FromCode (engine : Engine) (code : List Byte) (address : BitVec 64) (inst : Inst) : Prop where
  arch : inst.arch = .aarch64
  mode : inst.mode = engine.config.mode
  address : inst.address = address
  size : inst.size = 4
  bytes : inst.bytes = code.take 4

theorem finish_fromCode {id : Nat} {instClass : InstClass} {flags : BitVec 32}
    {operands : List Operand} :
    FromCode engine code address (finish engine code address id instClass flags operands) :=
  ⟨rfl, rfl, rfl, rfl, rfl⟩

theorem FromCode.ite {c : Prop} [Decidable c] {a b : Inst} (ha : FromCode engine code address a)
    (hb : FromCode engine code address b) : FromCode engine code address (if c then a else b) := by
  split
  · exact ha
  · exact hb

theorem decodeFallback_fromCode (w : BitVec 32) :
    FromCode engine code address (decodeFallback engine code address w) := by
  unfold decodeFallback
  repeat' first | exact finish_fromCode | apply FromCode.ite

theorem length_of_decodeOne (h : decodeOne tables engine code address = .ok inst) :
    4 ≤ code.length := by
  by_contra hshort
  simp only [decodeOne, if_pos (Or.inr (Nat.lt_of_not_le hshort) :
    engine.config.mode ≠ .aarch64 ∨ code.length < 4)] at h
  cases h

theorem decodeOne_fromCode (h : decodeOne tables engine code address = .ok inst) :
    FromCode engine code address inst := by
  simp only [decodeOne] at h
  split at h
  · cases h
  split at h
  · split at h
    · cases h
    · cases h
      exact finish_fromCode
  split at h
  · simp only [finishTd] at h
    split at h
    · cases h
    · cases h
      exact ⟨rfl, rfl, rfl, rfl, rfl⟩
  · split at h
    · cases h
    · cases h
      exact decodeFallback_fromCode _

end

end AsmKit.A64
