import AsmKit.Core.Bits
import AsmKit.Core.Engine

/-!
# The ARM decoder

`asmkit_gen_arm_decode_one` and `arm_decode` of the overlay. The branches, `it`, `bx`, `blx` and
the A32 literal load are decoded by hand, the rest by the generated tables, which are a parameter
together with the operands they give.
-/

namespace AsmKit.Arm

/-! ## Rows -/

/-- `ASMKIT_ARM_TD_SPACE_*` of a row. -/
inductive Space where
  | default | vfp | vfpv8 | neonData | neonLoadStore | neonDup | v8Neon | v8Crypto
  | thumb2Coproc | thumb2Cde | coproc
deriving DecidableEq, Repr

/-- The space a search asks for. -/
inductive SpaceRequest where
  | primary | any | only (space : Space)
deriving DecidableEq, Repr

structure Record where
  id : Nat
  mnemonicId : Nat
  mask : BitVec 32
  value : BitVec 32
  size : Nat
  fixedBits : Nat
  priority : Nat
  decodeSpace : Space
  featureBits : Vector (BitVec 64) 8 := .replicate 8 0
  instClass : InstClass
  flags : BitVec 32
deriving DecidableEq, Repr

structure Tables where
  /-- The A32 rows the buckets offer for a word, with their index, in the order they are tried. -/
  a32Candidates : BitVec 32 → List (Nat × Record)
  /-- The Thumb rows for a word of 2 or 4 bytes. -/
  thumbCandidates : Nat → BitVec 32 → List (Nat × Record)
  /-- `arm_decode_td_operands`. -/
  decodeTdOperands : Record → BitVec 32 → BitVec 64 → Option (List Operand)

/-- `arm_td_features_match`. -/
def tdFeaturesMatch (engine : Engine) (record : Record) : Bool :=
  (List.range 8).all fun i => record.featureBits[i]?.getD 0 &&& ~~~engine.featureWord i == 0

def tdSpaceMatches (recordSpace : Space) : SpaceRequest → Bool
  | .any => true
  | .primary => recordSpace != .thumb2Coproc && recordSpace != .thumb2Cde
  | .only space => recordSpace == space

/-- The order of the rows: priority, then fixed bits, then the smaller index. -/
def ranksBefore (a b : Nat × Record) : Bool :=
  b.2.priority < a.2.priority ||
    (a.2.priority == b.2.priority && b.2.fixedBits < a.2.fixedBits) ||
    (a.2.priority == b.2.priority && a.2.fixedBits == b.2.fixedBits && a.1 < b.1)

/-- The best row so far, and the best one the features block. -/
structure Search where
  best : Option (Nat × Record) := none
  blocked : Option (Nat × Record) := none

def betterOf (best : Option (Nat × Record)) (candidate : Nat × Record) : Option (Nat × Record) :=
  if best.all (ranksBefore candidate ·) then some candidate else best

variable (tables : Tables)

/-- `arm_consider_td_record`. -/
def considerTdRecord (engine : Engine) (word : BitVec 32) (space : SpaceRequest)
    (checkFeatures : Bool) (search : Search) (candidate : Nat × Record) : Search :=
  if ¬ tdSpaceMatches candidate.2.decodeSpace space then search
  else if word &&& candidate.2.mask ≠ candidate.2.value then search
  else if (tables.decodeTdOperands candidate.2 word 0).isNone then search
  else if checkFeatures ∧ ¬ tdFeaturesMatch engine candidate.2 then
    { search with blocked := betterOf search.blocked candidate }
  else { search with best := betterOf search.best candidate }

/-- A blocked row hides the rows below it; the index does not count here. -/
def Search.result (search : Search) (checkFeatures : Bool) : Option Record :=
  match search.best, search.blocked with
  | none, _ => none
  | some best, none => some best.2
  | some best, some blocked =>
    if checkFeatures ∧ (best.2.priority < blocked.2.priority ∨
        (blocked.2.priority = best.2.priority ∧ best.2.fixedBits < blocked.2.fixedBits)) then none
    else some best.2

def findTdRecord (engine : Engine) (candidates : List (Nat × Record)) (word : BitVec 32)
    (space : SpaceRequest) (checkFeatures : Bool) : Option Record :=
  (candidates.foldl (considerTdRecord tables engine word space checkFeatures) {}).result checkFeatures

def findA32TdRecord (engine : Engine) (word : BitVec 32) (space : SpaceRequest)
    (checkFeatures : Bool) : Option Record :=
  findTdRecord tables engine (tables.a32Candidates word) word space checkFeatures

def findThumbTdRecord (engine : Engine) (word : BitVec 32) (size : Nat) (space : SpaceRequest)
    (checkFeatures : Bool) : Option Record :=
  findTdRecord tables engine (tables.thumbCandidates size word) word space checkFeatures

/-! ## Finishing -/

namespace Mnemonic

def base : Nat := 0x02000000
def other : Nat := base + 1
def b : Nat := base + 15
def bl : Nat := base + 25
def blx : Nat := base + 26
def bx : Nat := base + 29
def it : Nat := base + 86
def ldr : Nat := base + 103

end Mnemonic

namespace Id

def other : Nat := 1
def b : Nat := 2
def bl : Nat := 3
def bx : Nat := 4
def blx : Nat := 5
def ldrLiteral : Nat := 6
def thumbB : Nat := 7
def thumbBl : Nat := 8
def thumbBCond : Nat := 9
def thumbBx : Nat := 10
def thumbBlx : Nat := 11
def thumbIt : Nat := 12
def t2It : Nat := 68540

end Id

def mnemonicId (id : Nat) : Nat :=
  ([(Id.other, Mnemonic.other), (Id.b, Mnemonic.b), (Id.thumbB, Mnemonic.b),
    (Id.thumbBCond, Mnemonic.b), (Id.bl, Mnemonic.bl), (Id.thumbBl, Mnemonic.bl),
    (Id.bx, Mnemonic.bx), (Id.thumbBx, Mnemonic.bx), (Id.blx, Mnemonic.blx),
    (Id.thumbBlx, Mnemonic.blx), (Id.ldrLiteral, Mnemonic.ldr),
    (Id.thumbIt, Mnemonic.it)].lookup id).getD 0

/-- An A32 word with a condition below 14 is conditional, whatever it is. -/
def conditionalFlag (engine : Engine) (size : Nat) (word : BitVec 32) : BitVec 32 :=
  if engine.config.mode = .armA32 ∧ size = 4 ∧ word >>> 28 < 14 then InstFlag.conditional else 0

/-- `arm_finish`. -/
def finish (engine : Engine) (code : List Byte) (address : BitVec 64) (size id : Nat)
    (instClass : InstClass) (flags : BitVec 32) (operands : List Operand := []) : Inst :=
  { arch := .arm, mode := engine.config.mode, id, mnemonicId := mnemonicId id, instClass, address
    size, bytes := code.take size
    flags := flags ||| conditionalFlag engine size (load32le code), operands }

/-- `arm_finish_td`. -/
def finishTd (engine : Engine) (code : List Byte) (address : BitVec 64) (word : BitVec 32)
    (record : Record) : Except Status Inst :=
  match tables.decodeTdOperands record word address with
  | none => .error .decodeFailed
  | some operands =>
    let operands := match operands with
      | o :: rest =>
        if record.id = Id.t2It ∧ o.kind = .imm ∧ o.imm = 15 then { o with imm := 14 } :: rest
        else operands
      | [] => []
    .ok { arch := .arm, mode := engine.config.mode, id := record.id, mnemonicId := record.mnemonicId
          instClass := record.instClass, address, size := record.size
          bytes := code.take record.size
          flags := record.flags ||| conditionalFlag engine record.size word, operands }

/-- `arm_add_pc_operand`. -/
def pcOperand (index : Nat) (disp target : BitVec 64) (width : Nat) : Operand :=
  { Operand.ofPcRel disp width with
    absTarget := target, operandIndex := index
    flags := OperandFlag.explicit ||| OperandFlag.read ||| OperandFlag.relative ||| OperandFlag.signed }

namespace Reg

def r0 : Nat := 1
def pc : Nat := 16

end Reg

/-- `arm_append_gpr_operand` at place 0. Every encoding is a register. -/
def gprOperand (encoding : BitVec 32) (flags : BitVec 32) : Operand :=
  { Operand.ofReg (Reg.r0 + (encoding &&& 0x0f).toNat) 32 with
    flags := OperandFlag.explicit ||| flags }

/-- `arm_sign_extend`. -/
def signExtend (value : BitVec 32) (bits : Nat) : BitVec 64 :=
  let sign := BitVec.twoPow 32 (bits - 1)
  (value ^^^ sign).setWidth 64 - sign.setWidth 64

/-- The row of a search with the features, else what the rows without them mean. -/
def decodeTd (engine : Engine) (code : List Byte) (address : BitVec 64) (word : BitVec 32)
    (find : Bool → Option Record) : Option (Except Status Inst) :=
  match find true with
  | some record => some (finishTd tables engine code address word record)
  | none => if (find false).isSome then some (.error .unsupportedFeature) else none

/-! ## A32 -/

def isA32Branch (w : BitVec 32) : Bool := w >>> 28 != 0x0f && w &&& 0x0e000000 == 0x0a000000

def a32BranchDisp (w : BitVec 32) : BitVec 64 := signExtend (w &&& 0x00ffffff) 24 * 4 + 8

/-- `b` and `bl`, told apart by bit 24. -/
def decodeA32Branch (engine : Engine) (code : List Byte) (address : BitVec 64) (w : BitVec 32) : Inst :=
  let isCall : Bool := w &&& 0x01000000 != 0
  finish engine code address 4 (if isCall then Id.bl else Id.b)
    (if isCall then .directCall else .directBranch)
    (InstFlag.pcRelative ||| InstFlag.direct |||
      if isCall then InstFlag.call else InstFlag.terminator)
    [pcOperand 0 (a32BranchDisp w) (address + a32BranchDisp w) 24]

def literalDisp (w : BitVec 32) : BitVec 64 :=
  let imm := (w &&& 0x00000fff).setWidth 64
  (if w &&& 0x00800000 = 0 then -imm else imm) + 8

/-- `arm_decode_a32`. -/
def decodeA32 (engine : Engine) (code : List Byte) (address : BitVec 64) : Except Status Inst :=
  let w := load32le code
  if code.length < 4 then .error .decodeFailed
  else if isA32Branch w then .ok (decodeA32Branch engine code address w)
  else if w &&& 0x0ffffff0 = 0x012fff10 then
    .ok (finish engine code address 4 Id.bx .indirectBranch
      (InstFlag.terminator ||| InstFlag.stateSwitch) [gprOperand w OperandFlag.read])
  else if w &&& 0x0ffffff0 = 0x012fff30 then
    .ok (finish engine code address 4 Id.blx .indirectCall
      (InstFlag.call ||| InstFlag.stateSwitch) [gprOperand w OperandFlag.read])
  else if w &&& 0x0f7f0000 = 0x051f0000 then
    .ok (finish engine code address 4 Id.ldrLiteral .load (InstFlag.pcRelative ||| InstFlag.literal)
      [gprOperand (w >>> 12) OperandFlag.write,
        pcOperand 1 (literalDisp w) (address + literalDisp w) 12])
  else
    (decodeTd tables engine code address w (findA32TdRecord tables engine w .any)).getD
      (.ok (finish engine code address 4 Id.other .other 0))

/-! ## Thumb -/

/-- The A32 spaces that a Thumb word shares, with the word as the A32 tables have it. -/
def sharedSpaces (w : BitVec 32) : List (BitVec 32 × Space) :=
  let data := (w &&& 0xf0ffffff) ||| ((w &&& 0x10000000) >>> 4) ||| 0x12000000
  (if w >>> 28 = 0x0e then [(w, .vfp)] else []) ++ [(w, .vfpv8)] ++
    (if w >>> 28 = 0x0e then [(w, .neonDup)] else []) ++
    (if w >>> 24 = 0xf9 then [((w &&& 0xf0ffffff) ||| 0x04000000, .neonLoadStore)] else []) ++
    (if (w >>> 24) &&& 0x0f = 0x0f then
      [(data, .neonData), (data, .v8Crypto), (w &&& 0xf3ffffff, .v8Neon)] else [])

/-- The tables for a 32-bit Thumb word, in the order the decoder tries them. -/
def decodeThumb32Td (engine : Engine) (code : List Byte) (address : BitVec 64) (w : BitVec 32) :
    Option (Except Status Inst) :=
  decodeTd tables engine code address w (findThumbTdRecord tables engine w 4 .primary) <|>
    (sharedSpaces w).findSome? (fun (word, space) =>
      decodeTd tables engine code address word (findA32TdRecord tables engine word (.only space))) <|>
    decodeTd tables engine code address w (findThumbTdRecord tables engine w 4 (.only .thumb2Coproc)) <|>
    decodeTd tables engine code address w (findThumbTdRecord tables engine w 4 (.only .thumb2Cde))

/-- The displacement of `bl`: `S:I1:I2:imm10:imm11:0`. -/
def thumbBlDisp (h1 h2 : BitVec 16) : BitVec 64 :=
  let h1 := h1.setWidth 32
  let h2 := h2.setWidth 32
  let s := (h1 >>> 10) &&& 1
  let i1 := 1 ^^^ (((h2 >>> 13) &&& 1) ^^^ s)
  let i2 := 1 ^^^ (((h2 >>> 11) &&& 1) ^^^ s)
  let imm : BitVec 32 := (s <<< 24) ||| (i1 <<< 23) ||| (i2 <<< 22) ||| ((h1 &&& 0x3ff) <<< 12) |||
    ((h2 &&& 0x7ff) <<< 1)
  signExtend imm 25 + 4

/-- The instructions that begin with a halfword from `0xe800` on. -/
def decodeThumb32 (engine : Engine) (code : List Byte) (address : BitVec 64) (h1 : BitVec 16) :
    Except Status Inst :=
  if code.length < 4 then .error .decodeFailed
  else
    let h2 := load16le (code.drop 2)
    if h1 &&& 0xf800 = 0xf000 ∧ h2 &&& 0xd000 = 0xd000 then
      .ok (finish engine code address 4 Id.thumbBl .directCall
        (InstFlag.pcRelative ||| InstFlag.direct ||| InstFlag.call)
        [pcOperand 0 (thumbBlDisp h1 h2) (address + thumbBlDisp h1 h2) 24])
    else
      let w := (h1.setWidth 32 <<< 16) ||| h2.setWidth 32
      (decodeThumb32Td tables engine code address w).getD
        (.ok (finish engine code address 4 Id.other .other 0))

def thumbBranchDisp (h1 : BitVec 16) (bits : Nat) (mask : BitVec 32) : BitVec 64 :=
  signExtend (h1.setWidth 32 &&& mask) bits * 2 + 4

def itOperands (h1 : BitVec 16) : List Operand :=
  let cond := (h1 >>> 4) &&& 0x0f
  [Operand.ofImm ((if cond = 0x0f then 0x0e else cond).setWidth 64) 4,
    (Operand.ofImm ((h1 &&& 0x0f).setWidth 64) 4).atIndex 1]

/-- `arm_decode_thumb`. -/
def decodeThumb (engine : Engine) (code : List Byte) (address : BitVec 64) : Except Status Inst :=
  let h1 := load16le code
  let target := h1.setWidth 32 >>> 3
  if code.length < 2 then .error .decodeFailed
  else if h1 &&& 0xff00 = 0xbf00 ∧ h1 &&& 0x000f ≠ 0 then
    .ok (finish engine code address 2 Id.thumbIt .armIt 0 (itOperands h1))
  else if h1 &&& 0xf800 = 0xe000 then
    let disp := thumbBranchDisp h1 11 0x07ff
    .ok (finish engine code address 2 Id.thumbB .directBranch
      (InstFlag.pcRelative ||| InstFlag.direct ||| InstFlag.terminator)
      [pcOperand 0 disp (address + disp) 11])
  else if h1 &&& 0xf000 = 0xd000 ∧ (h1 >>> 8) &&& 0x0f < 0x0e then
    let disp := thumbBranchDisp h1 8 0x00ff
    .ok (finish engine code address 2 Id.thumbBCond .condBranch
      (InstFlag.pcRelative ||| InstFlag.direct ||| InstFlag.conditional)
      [pcOperand 0 disp (address + disp) 8])
  else if h1 &&& 0xff80 = 0x4700 then
    .ok (finish engine code address 2 Id.thumbBx .indirectBranch
      (InstFlag.terminator ||| InstFlag.stateSwitch) [gprOperand target OperandFlag.read])
  else if h1 &&& 0xff80 = 0x4780 then
    .ok (finish engine code address 2 Id.thumbBlx .indirectCall
      (InstFlag.call ||| InstFlag.stateSwitch) [gprOperand target OperandFlag.read])
  else if 0xe800 ≤ h1 &&& 0xf800 then decodeThumb32 tables engine code address h1
  else
    let word := h1.setWidth 32
    (decodeTd tables engine code address word (findThumbTdRecord tables engine word 2 .primary)).getD
      (.ok (finish engine code address 2 Id.other .other 0))

/-! ## The decoder -/

/-- `asmkit_gen_arm_decode_one`. -/
def genDecodeOne (engine : Engine) (code : List Byte) (address : BitVec 64) : Except Status Inst :=
  match engine.config.mode with
  | .armA32 => decodeA32 tables engine code address
  | .armThumb => decodeThumb tables engine code address
  | _ => .error .unsupportedMode

/-- `bx` and `blx` may switch the instruction set. -/
def markStateSwitch (inst : Inst) : Inst :=
  if inst.mnemonicId = Mnemonic.bx ∨ inst.mnemonicId = Mnemonic.blx then
    { inst with flags := inst.flags ||| InstFlag.stateSwitch }
  else inst

/-- The target of a direct `blx` carries the instruction set in its low bit. -/
def markBlxTarget (inst : Inst) : Inst :=
  match inst.operands with
  | o :: rest =>
    if inst.mnemonicId = Mnemonic.blx ∧ inst.has InstFlag.direct then
      let target := if inst.mode = .armA32 then o.absTarget ||| 1 else o.absTarget &&& ~~~1
      { inst with operands := { o with absTarget := target } :: rest }
    else inst
  | [] => inst

/-- `arm_decode`. -/
def decodeOne (engine : Engine) (code : List Byte) (address : BitVec 64) : Except Status Inst :=
  (genDecodeOne tables engine code address).map fun inst => markBlxTarget (markStateSwitch inst)

end AsmKit.Arm
