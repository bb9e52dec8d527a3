import AsmKit.Core.Bits
import AsmKit.Core.Engine

/-!
# The BPF decoder

`asmkit_gen_bpf_decode_one`: the rows of the table, and an instruction of its own for the words that
have none.
-/

namespace AsmKit.Bpf

/-! ## Rows -/

inductive Kind where
  | alu | load | store | directBranch | condBranch | indirectBranch | directCall | indirectCall
  | return_ | pseudo
deriving DecidableEq, Repr

inductive Form where
  | aluRR | aluRI | aluDst | loadMem | storeMemReg | storeMemImm | branch | branchRR | branchRI
  | callImm | callReg | ldImm64 | loadAbs | loadInd
deriving DecidableEq, Repr

/-- `asmkit_bpf_td_record_t`, with its match flags taken apart. -/
structure Record where
  id : Nat
  mnemonicId : Nat
  opcode : Byte
  kind : Kind
  form : Form
  matchOff : Bool := false
  matchImm : Bool := false
  matchSrc : Bool := false
  fixedOff : BitVec 16 := 0
  fixedImm : BitVec 32 := 0
  fixedSrc : Byte := 0
  size : Nat
  width : Nat
  featureBits : Vector (BitVec 64) 8 := .replicate 8 0
deriving DecidableEq, Repr

def src (code : List Byte) : Byte := code.getD 1 0 >>> 4
def dst (code : List Byte) : Byte := code.getD 1 0 &&& 0x0f
def off (code : List Byte) : BitVec 16 := load16le (code.drop 2)
def imm (code : List Byte) : BitVec 32 := load32le (code.drop 4)

/-- The row is one of the word, whatever features it needs. -/
def Record.matches (record : Record) (code : List Byte) : Bool :=
  record.opcode == code.getD 0 0 && (!record.matchOff || record.fixedOff == off code) &&
    (!record.matchImm || record.fixedImm == imm code) &&
    (!record.matchSrc || record.fixedSrc == src code)

/-- `bpf_find_record`: the first row whose features are on. -/
def findRecord (records : List Record) (engine : Engine) (code : List Byte) : Option Record :=
  records.find? fun record => record.matches code && engine.featuresMatch record.featureBits

/-! ## Operands -/

def regId (reg : Byte) (width : Nat) : Nat :=
  if reg > 11 then 0 else (if width = 32 then 1 else 2) + reg.toNat * 2

def regOperand (index : Nat) (reg : Byte) (width : Nat) : Operand :=
  (Operand.ofReg (regId reg width) width).atIndex index

def immOperand (index : Nat) (imm : BitVec 64) (width : Nat) : Operand :=
  (Operand.ofImm imm width).atIndex index

def memOperand (index base : Nat) (displacement : BitVec 64) (width : Nat) : Operand :=
  { kind := .mem, mem := { base, displacement, scale := 1 }, width, operandIndex := index }

/-- `bpf_pc_rel`: offsets count words from behind the branch. -/
def pcRelOperand (address : BitVec 64) (off : BitVec 16) : Operand :=
  let disp := off.signExtend 64 * 8
  { kind := .pcRel, imm := disp, absTarget := address + 8 + disp, width := 16 }

/-- Class and flags of a row. -/
def Kind.meaning : Kind → InstClass × BitVec 32
  | .alu => (.alu, 0)
  | .load => (.load, 0)
  | .store => (.store, 0)
  | .directBranch =>
    (.directBranch, InstFlag.pcRelative ||| InstFlag.direct ||| InstFlag.terminator)
  | .condBranch => (.condBranch, InstFlag.pcRelative ||| InstFlag.direct ||| InstFlag.conditional)
  | .indirectBranch => (.indirectBranch, InstFlag.terminator)
  | .directCall => (.directCall, InstFlag.call ||| InstFlag.direct)
  | .indirectCall => (.indirectCall, InstFlag.call)
  | .return_ => (.return_, InstFlag.return_ ||| InstFlag.terminator)
  | .pseudo => (.bpfPseudo, InstFlag.pairPrefix)

def operands (record : Record) (code : List Byte) (address : BitVec 64) : List Operand :=
  let dst := dst code
  let src := src code
  let off := off code
  let imm := (imm code).signExtend 64
  let width := record.width
  match record.form with
  | .aluRR => [regOperand 0 dst width, regOperand 1 src width]
  | .aluRI => [regOperand 0 dst width, immOperand 1 imm 32]
  | .aluDst => [regOperand 0 dst width]
  | .loadMem => [regOperand 0 dst width, memOperand 1 (regId src 64) (off.signExtend 64) 64]
  | .storeMemReg => [memOperand 0 (regId dst 64) (off.signExtend 64) 64, regOperand 1 src width]
  | .storeMemImm => [memOperand 0 (regId dst 64) (off.signExtend 64) 64, immOperand 1 imm 32]
  | .branch => [pcRelOperand address off]
  | .branchRR => [pcRelOperand address off, regOperand 1 dst width, regOperand 2 src width]
  | .branchRI => [pcRelOperand address off, regOperand 1 dst width, immOperand 2 imm 32]
  | .callImm => [immOperand 0 imm 32]
  | .callReg => [regOperand 0 dst 64]
  | .ldImm64 => [regOperand 0 dst 64, immOperand 1 (load32le (code.drop 12) ++ Bpf.imm code) 64]
  | .loadAbs => [memOperand 0 0 imm width]
  | .loadInd => [regOperand 0 src 64]

/-! ## The decoder -/

namespace Id

def other : Nat := 1

end Id

namespace Mnemonic

def base : Nat := 0x04000000
def other : Nat := base + 1

end Mnemonic

def finish (engine : Engine) (code : List Byte) (address : BitVec 64) (size : Nat) : Inst :=
  { arch := .bpf, mode := engine.config.mode, address, size, bytes := code.take size }

/-- The size of a word without a row: the opcode of the wide load takes two. -/
def fallbackSize (code : List Byte) : Nat := if code.getD 0 0 = 0x18 then 16 else 8

/-- `asmkit_gen_bpf_decode_one`. -/
def decodeOne (records : List Record) (engine : Engine) (code : List Byte) (address : BitVec 64) :
    Except Status Inst :=
  if engine.config.mode ≠ .bpf64 ∨ code.length < 8 then .error .decodeFailed
  else match findRecord records engine code with
    | some record =>
      if code.length < record.size then .error .decodeFailed
      else .ok { finish engine code address record.size with
        id := record.id, mnemonicId := record.mnemonicId
        instClass := record.kind.meaning.1, flags := record.kind.meaning.2
        operands := operands record code address }
    | none =>
      if records.any (·.matches code) then .error .unsupportedFeature
      else if code.length < fallbackSize code then .error .decodeFailed
      else .ok { finish engine code address (fallbackSize code) with
        id := Id.other, mnemonicId := Mnemonic.other }

end AsmKit.Bpf
