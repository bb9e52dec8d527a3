import AsmKit.Core.Bits
import AsmKit.Core.Engine

/-!
# Rows and registers of x86

The rows of the generated tables, the prefixes of an instruction, and the search for the row that
fits. The rows themselves are a parameter: the buckets by map, opcode, mode and ModRM, and the
direct index beside them.
-/

namespace AsmKit.X86

/-! ## Rows -/

inductive ModrmKind where
  | none | any | reg | mem | fixed
deriving DecidableEq, Repr

inductive OpSize where
  | fixed | o16 | o32
deriving DecidableEq, Repr

inductive VectorType where
  | normal | vex | xop | evex
deriving DecidableEq, Repr

inductive DecodeForm where
  | raw | addReg | modrmRmReg | modrmRegRm | modrmFixedRm | rawImmPair | rawMemoffs | rawStringSrc
  | rawStringDst | rawStringDstSrc | rawImm | fixedModrm | unsupported
deriving DecidableEq, Repr

inductive RegClass where
  | none | gpr | xmm | ymm | zmm | mmx | mask | segment | control | debug | x87 | tile
deriving DecidableEq, Repr

structure RecordOperand where
  kind : OperandKind := .none
  regClass : RegClass := .none
  width : Nat := 0
deriving DecidableEq, Repr

/-- The number the tables give an operand an instruction does not have. -/
def noOperand : Nat := 255

/-- `operands` holds the first `operand_count` entries of the operand columns. -/
structure Record where
  id : Nat
  mnemonicId : Nat
  opcode : Byte
  opcodeMap : Nat
  mandatoryPrefix : Byte := 0
  modrmKind : ModrmKind
  fixedReg : Option Byte := none
  fixedModrm : Option Byte := none
  immSize : Nat := 0
  extraImmSize : Nat := 0
  immPcRel : Bool := false
  opSize : OpSize := .fixed
  adSize : Nat := 0
  rexW : Bool := false
  ignoresW : Bool := false
  vectorType : VectorType := .normal
  vexL : Bool := false
  evexL2 : Bool := false
  ignoresVexL : Bool := false
  hasVex4v : Bool := false
  evexK : Bool := false
  evexZ : Bool := false
  evexB : Bool := false
  evexNf : Bool := false
  evexU : Bool := false
  usesEvexAaa : Bool := false
  isNd : Bool := false
  allowHlePrefix : Bool := false
  nameHas64 : Bool := false
  featureBits : Vector (BitVec 64) 8 := .replicate 8 0
  instClass : InstClass
  flags : BitVec 32 := 0
  decodeForm : DecodeForm
  decodeImmSigned : Bool := false
  operands : List RecordOperand := []
  rmOperand : Nat := noOperand
  regOperand : Nat := noOperand
  immOperand : Nat := noOperand
  immRegOperand : Nat := noOperand
  extraImmOperand : Nat := noOperand
  opcodeRegOperand : Nat := noOperand
  fixedAccumulatorOperand : Nat := noOperand
  fixedDxOperand : Nat := noOperand
  fixedRegisterOperand : Nat := noOperand
  fixedRegisterId : Nat := 0
  vvvvOperand : Nat := noOperand
  evexMaskOperand : Nat := noOperand
  roundOperand : Nat := noOperand
deriving DecidableEq, Repr

/-- The columns of one operand. -/
def Record.operand (record : Record) (index : Nat) : RecordOperand := record.operands.getD index {}

structure Tables where
  /-- The rows of a bucket, in the order they are tried. -/
  bucket : Nat → List Record
  /-- `x86_td_fast_record_index`: by bucket, `operand16`, `rex_w` and address width. -/
  fastRecord : Nat → Bool → Bool → Nat → Option Record

/-! ## Prefixes -/

/-- The prefixes of an instruction, with what the decoder keeps beside them. -/
structure PrefixState where
  operand16 : Bool
  address16 : Bool := false
  prefix66 : Bool := false
  prefixF2 : Bool := false
  prefixF3 : Bool := false
  segmentReg : Nat := 0
  prefixFlags : BitVec 32 := 0
  rexSeen : Bool := false
  rexW : Bool := false
  rexR : Byte := 0
  rexX : Byte := 0
  rexB : Byte := 0
  evexRmHigh16 : Byte := 0
  mandatoryPrefix : Byte := 0
  vectorType : VectorType := .normal
  vectorW : Bool := false
  vectorL : Bool := false
  vectorL2 : Bool := false
  vectorPp : Byte := 0
  vectorVvvv : Byte := 0
  evexAaa : Byte := 0
  evexZ : Bool := false
  evexB : Bool := false
  evexNf : Bool := false
  evexU : Bool := false
deriving DecidableEq, Repr

def prefixFromPp (pp : Byte) : Byte :=
  if pp = 1 then 0x66 else if pp = 2 then 0xf3 else if pp = 3 then 0xf2 else 0

def isRepeatableStringOpcode (opcode : Byte) : Bool :=
  opcode ∈ ([0x6c, 0x6d, 0x6e, 0x6f, 0xa4, 0xa5, 0xa6, 0xa7, 0xaa, 0xab, 0xac, 0xad, 0xae, 0xaf] : List Byte)

def acceptsRedundantRepPrefix (opcodeMap : Nat) (opcode : Byte) : Bool :=
  opcodeMap = 0 && (isRepeatableStringOpcode opcode ||
    opcode ∈ ([0xc2, 0xc3, 0xca, 0xcb] : List Byte))

def decodeAddressWidth (engine : Engine) (addressOverride : Bool) : Nat :=
  match engine.config.mode with
  | .x86_16 => if addressOverride then 32 else 16
  | .x86_32 => if addressOverride then 16 else 32
  | _ => if addressOverride then 32 else 64

/-! ## The search -/

/-- What a row is looked up by. -/
structure Query where
  opcodeMap : Nat
  opcode : Byte
  prefixes : PrefixState
  addressWidth : Nat
  modrm : Option Byte
deriving DecidableEq, Repr

def modeBucketIndex : Mode → Nat
  | .x86_16 => 0
  | .x86_32 => 1
  | .x86_64 => 2
  | _ => 0xff

/-- `x86_modrm_bucket_class`: memory forms at 1, register forms at 9, by the `reg` field. -/
def modrmBucketClass : Option Byte → Nat
  | none => 0
  | some modrm => (if modrm >>> 6 = 3 then 9 else 1) + ((modrm >>> 3) &&& 7).toNat

def anyModrmBucket : Nat := 17

def tdBucketIndex (opcodeMap : Nat) (opcode : Byte) (modeIndex bucketClass : Nat) : Option Nat :=
  if 12 ≤ opcodeMap ∨ 3 ≤ modeIndex ∨ 18 ≤ bucketClass then none
  else some (((opcodeMap * 256 + opcode.toNat) * 3 + modeIndex) * 18 + bucketClass)

/-- The rows of a bucket, none where there is no such bucket. -/
def Tables.rows (tables : Tables) (index : Option Nat) : List Record :=
  (index.map tables.bucket).getD []

/-- `x86_td_vector_matches`. -/
def tdVectorMatches (record : Record) (prefixes : PrefixState) (mode : Mode) (rexW : Bool) : Bool :=
  if record.vectorType = .normal then
    !(record.rexW && (mode != .x86_64 || !rexW)) &&
      !(!record.ignoresW && !record.rexW && rexW && record.opSize != .fixed)
  else
    prefixes.vectorType == record.vectorType &&
    (record.ignoresW || record.rexW == rexW) &&
    (record.roundOperand < record.operands.length || record.ignoresVexL ||
      if record.vectorType = .evex then
        record.evexL2 == prefixes.vectorL2 &&
          (record.vexL == prefixes.vectorL || (record.evexL2 && prefixes.vectorL))
      else record.vexL == prefixes.vectorL && record.evexL2 == prefixes.vectorL2) &&
    (record.hasVex4v || prefixes.vectorVvvv &&& 0x0f == 0) &&
    (record.vectorType != .evex ||
      ((if record.evexK then prefixes.evexAaa != 0 || record.evexZ
        else if record.usesEvexAaa then true
        else if record.evexNf then prefixes.evexAaa &&& 4 != 0
        else prefixes.evexAaa == 0) &&
        record.evexZ == prefixes.evexZ && record.evexB == prefixes.evexB &&
        (!record.evexNf || prefixes.evexNf) && (!record.evexU || prefixes.evexU)))

/-- `x86_td_modrm_matches`. -/
def tdModrmMatches (record : Record) : Option Byte → Bool
  | none => record.modrmKind == .none
  | some modrm =>
    match record.modrmKind with
    | .none => false
    | .fixed => record.fixedModrm == some modrm
    | kind =>
      record.fixedReg.all (· == (modrm >>> 3) &&& 7) &&
        match kind with
        | .reg => modrm >>> 6 == 3
        | .mem => modrm >>> 6 != 3
        | _ => true

/-- `x86_td_features_match`. -/
def tdFeaturesMatch (engine : Engine) (record : Record) : Bool :=
  (List.range 8).all fun i => record.featureBits[i]?.getD 0 &&& ~~~engine.featureWord i == 0

/-- The operand and the address size a row asks for. -/
def tdSizesMatch (record : Record) (q : Query) : Bool :=
  (match record.opSize with
    | .fixed => true
    | .o16 => q.prefixes.operand16
    | .o32 => !q.prefixes.operand16) &&
  (record.adSize == 0 || record.adSize == q.addressWidth)

/-- The mandatory prefix a row asks for. With `relaxed`, prefixes that mean nothing are ignored. -/
def tdPrefixMatches (record : Record) (p : PrefixState) (relaxed : Bool) : Bool :=
  if record.vectorType ≠ .normal then
    p.vectorType == record.vectorType && prefixFromPp p.vectorPp == record.mandatoryPrefix
  else
    p.vectorType == .normal &&
    if record.mandatoryPrefix = 0x66 then p.mandatoryPrefix == 0x66
    else if record.mandatoryPrefix = 0xf2 then
      if record.opSize = .fixed then p.mandatoryPrefix == 0xf2 else p.prefixF2
    else if record.mandatoryPrefix = 0xf3 then
      if record.opSize = .fixed then p.mandatoryPrefix == 0xf3 else p.prefixF3
    else
      ((p.prefixF2 || p.prefixF3) &&
        (acceptsRedundantRepPrefix record.opcodeMap record.opcode ||
          (record.opcodeMap == 0 && 0xd8 ≤ record.opcode && record.opcode ≤ 0xdf))) ||
      record.allowHlePrefix || p.mandatoryPrefix == 0 || p.mandatoryPrefix == 0x66 || relaxed

variable (tables : Tables) (engine : Engine)

/-- `x86_find_td_record_exact`. -/
def findTdRecordExact (q : Query) (rexW checkFeatures ignoredPrefixFallback : Bool) :
    Option Record :=
  let mode := engine.config.mode
  let p := q.prefixes
  let index := tdBucketIndex q.opcodeMap q.opcode (modeBucketIndex mode) (modrmBucketClass q.modrm)
  let rows := tables.rows index
  let allowed (record : Record) := !checkFeatures || tdFeaturesMatch engine record
  if rows.isEmpty then none
  else
    let fast :=
      if ¬ ignoredPrefixFallback ∧ p.vectorType = .normal ∧ p.mandatoryPrefix = 0 ∧
          ¬ p.prefixF2 ∧ ¬ p.prefixF3 then
        index.bind fun index =>
          (tables.fastRecord index p.operand16 rexW q.addressWidth).filter allowed
      else none
    fast <|> rows.find? fun record =>
      tdVectorMatches record p mode rexW && tdSizesMatch record q &&
        tdPrefixMatches record p ignoredPrefixFallback && tdModrmMatches record q.modrm &&
        allowed record

def needsNon64VectorWFallback (p : PrefixState) : Bool :=
  engine.config.mode != .x86_64 && p.vectorType != .normal && p.vectorW && p.rexW

/-- `x86_find_td_record`. -/
def findTdRecord (q : Query) (checkFeatures ignoredPrefixFallback : Bool) : Option Record :=
  let find rexW := findTdRecordExact tables engine q rexW checkFeatures ignoredPrefixFallback
  if needsNon64VectorWFallback engine q.prefixes then
    ((find q.prefixes.rexW).filter (!·.nameHas64)) <|> find false
  else find q.prefixes.rexW

/-- `x86_opcode_may_have_modrm`. -/
def opcodeMayHaveModrm (q : Query) : Bool :=
  let mode := engine.config.mode
  let fallback := needsNon64VectorWFallback engine q.prefixes
  let rows := tables.rows (tdBucketIndex q.opcodeMap q.opcode (modeBucketIndex mode) anyModrmBucket)
  rows.any fun record =>
    (tdVectorMatches record q.prefixes mode (if fallback then false else q.prefixes.rexW) ||
      (fallback && !record.nameHas64 && tdVectorMatches record q.prefixes mode q.prefixes.rexW)) &&
    tdSizesMatch record q && tdPrefixMatches record q.prefixes true

/-- The row with the features of the engine, first with every prefix meant, then with the
meaningless ones ignored. A row that only lacks features rejects the instruction. -/
def lookupTdRecord (q : Query) : Except Status (Option Record) :=
  let checkFeatures := !hasFlag engine.config.flags EngineFlag.allTargetFeatures
  let find := findTdRecord tables engine q
  match find checkFeatures false with
  | some record => .ok (some record)
  | none =>
    if checkFeatures ∧ (find false false).isSome then .error .unsupportedFeature
    else match find checkFeatures true with
      | some record => .ok (some record)
      | none =>
        if checkFeatures ∧ (find false true).isSome then .error .unsupportedFeature else .ok none

/-! ## Registers -/

namespace Reg

def invalid : Nat := 0
def cl : Nat := 3
def dx : Nat := 37
def bx : Nat := 39
def si : Nat := 40
def di : Nat := 41
def bp : Nat := 42
def rip : Nat := 118
def mm0 : Nat := 135
def k0 : Nat := 183
def tmm0 : Nat := 192
def st0 : Nat := 200
def cs : Nat := 215
def ds : Nat := 216
def ss : Nat := 217
def es : Nat := 218
def fs : Nat := 219
def gs : Nat := 220
def dr0 : Nat := 223
def cr0 : Nat := 239

def gpr8Legacy : List Nat := [1, 3, 2, 4, 5, 7, 6, 8, 13, 14, 15, 16, 17, 18, 19, 20]
def gpr8Rex : List Nat := [1, 3, 2, 4, 12, 11, 9, 10, 13, 14, 15, 16, 17, 18, 19, 20]
def gpr16 : List Nat := [36, 38, 37, 39, 43, 42, 40, 41, 45, 46, 47, 48, 49, 50, 51, 52]
def gpr32 : List Nat := [69, 71, 70, 72, 76, 75, 73, 74, 78, 79, 80, 81, 82, 83, 84, 85]
def gpr64 : List Nat :=
  [102, 104, 103, 105, 109, 108, 106, 107, 110, 111, 112, 113, 114, 115, 116, 117]
def xmm : List Nat := List.range' 151 32
/-- The generated numbers of the wide registers are in the order of their names. -/
def ymm : List Nat :=
  [259, 260, 271, 282] ++ List.range' 285 6 ++ List.range' 261 10 ++ List.range' 272 10 ++ [283, 284]
def zmm : List Nat := ymm.map (· + 32)
def segment : List Nat := [es, cs, ss, ds, fs, gs]

end Reg

/-- `x86_gpr_from_encoding`. -/
def gprFromEncoding (encoding : Byte) (width : Nat) (rexSeen : Bool) : Nat :=
  let registers :=
    match width with
    | 8 => if rexSeen then Reg.gpr8Rex else Reg.gpr8Legacy
    | 16 => Reg.gpr16
    | 32 => Reg.gpr32
    | 64 => Reg.gpr64
    | _ => []
  registers.getD (encoding &&& 15).toNat Reg.invalid

/-- `x86_accumulator_register`. -/
def accumulatorRegister (width : Nat) : Nat := gprFromEncoding 0 width false

/-- `x86_register_from_encoding_class`. -/
def registerFromEncodingClass (encoding : Byte) (width : Nat) (regClass : RegClass)
    (rexSeen : Bool) : Nat :=
  let listed (registers : List Nat) := registers.getD encoding.toNat Reg.invalid
  let counted (first count : Nat) := listed (List.range' first count)
  match regClass with
  | .none | .gpr => gprFromEncoding encoding width rexSeen
  | .xmm => listed Reg.xmm
  | .ymm => listed Reg.ymm
  | .zmm => listed Reg.zmm
  | .mmx => counted Reg.mm0 8
  | .mask => counted Reg.k0 8
  | .tile => counted Reg.tmm0 8
  | .segment => listed Reg.segment
  | .control => counted Reg.cr0 16
  | .debug => counted Reg.dr0 16
  | .x87 => counted Reg.st0 8

end AsmKit.X86
