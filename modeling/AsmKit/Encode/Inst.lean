import AsmKit.A64.Relocate
import AsmKit.Arm.Decode
import AsmKit.Arm.Emit
import AsmKit.X86.Relocate

/-!
# `asmkit_encode_inst`

The encoders of the overlays. Each builds a few instructions itself and leaves the others to the
table-driven encoder of its target, which is a parameter.
-/

namespace AsmKit

/-- What an encoder leaves behind, like `EmitOut`. -/
structure EncodeOut where
  status : Status
  size : Nat := 0
  flags : BitVec 32 := 0
  code : List Byte := []
deriving DecidableEq, Repr

/-- The result of an emitter as the result of an encoder. -/
def EmitOut.encoded (out : EmitOut) : EncodeOut :=
  { status := out.status, size := out.result.size, flags := out.result.flags, code := out.code }

/-- `code` under a capacity check. -/
def encodeBytes (code : List Byte) (capacity : Nat) : EncodeOut :=
  if capacity < code.length then { status := .outputTooSmall, size := code.length }
  else { status := .ok, size := code.length, code }

theorem encodeBytes_code_of_ok {code : List Byte} {capacity : Nat}
    (hok : (encodeBytes code capacity).status = .ok) : (encodeBytes code capacity).code = code := by
  unfold encodeBytes at hok ⊢
  split at hok
  · cases hok
  · rename_i hroom
    rw [if_neg hroom]

/-- `asmkit_register_info_t`, as far as the encoder reads it. -/
structure RegisterInfo where
  encoding : Nat
  width : Nat
deriving DecidableEq, Repr

/-- The generated parts that the encoders fall back on. -/
structure Encoders where
  /-- `asmkit_gen_aarch64_register_info`. -/
  registerInfo : Nat → Option RegisterInfo
  /-- `asmkit_gen_*_encode_inst`. -/
  encodeTd : Engine → Inst → Nat → EncodeOut

/-- The first operand, where it is a target. -/
def Inst.leadingTarget (inst : Inst) : Option Operand := inst.operands.head?.filter (·.kind == .pcRel)

/-! ## x86 -/

namespace X86

namespace Id

def ret : Nat := 4
def jmpIndirect : Nat := 9
def callIndirect : Nat := 10

end Id

/-- `x86_inst_mnemonic`. -/
def instMnemonic (inst : Inst) : Nat :=
  if inst.mnemonicId ≠ 0 then inst.mnemonicId
  else
    ([(Id.nop, Mnemonic.nop), (Id.ret, Mnemonic.ret), (Id.jmpRel, Mnemonic.jmp),
      (Id.jmpIndirect, Mnemonic.jmp), (Id.callRel, Mnemonic.call),
      (Id.callIndirect, Mnemonic.call)].lookup inst.id).getD 0

/-- `x86_branch_target`: a displacement counts from behind the form that is emitted. -/
def branchTarget (inst : Inst) (operand : Operand) (directSize : Nat) : BitVec 64 :=
  if operand.absTarget ≠ 0 ∨ operand.imm = 0 then operand.absTarget
  else inst.address + BitVec.ofNat 64 directSize + operand.imm

/-- The instructions that `x86_encode` builds itself. -/
def encodeOwn (engine : Engine) (inst : Inst) (capacity : Nat) : Option EncodeOut :=
  let mnemonic := instMnemonic inst
  if mnemonic = Mnemonic.nop then some (encodeBytes [0x90] capacity)
  else if mnemonic = Mnemonic.ret then some (encodeBytes [0xc3] capacity)
  else if mnemonic = Mnemonic.jmp ∨ mnemonic = Mnemonic.call then
    inst.leadingTarget.map fun operand =>
      (emitRel engine (mnemonic == Mnemonic.call) inst.address
        (branchTarget inst operand (directSize engine)) capacity).encoded
  else none

/-- `x86_encode`. -/
def encode (encoders : Encoders) (engine : Engine) (inst : Inst) (capacity : Nat) : EncodeOut :=
  if inst.arch ≠ .x86 ∨ inst.mode ≠ engine.config.mode then { status := .unsupportedInstruction }
  else (encodeOwn engine inst capacity).getD (encoders.encodeTd engine inst capacity)

end X86

/-! ## AArch64 -/

namespace A64

/-- `a64_reg_encoding`. -/
def regEncoding (encoders : Encoders) (operand : Operand) (expectedWidth : Nat) : Option Nat :=
  if operand.kind ≠ .reg then none
  else
    let named := (encoders.registerInfo operand.reg).filter fun info =>
      info.encoding ≤ 31 && (expectedWidth == 0 || info.width == expectedWidth ||
        (operand.width != 0 && operand.width == expectedWidth))
    match named with
    | some info => some info.encoding
    | none =>
      if operand.reg ≤ 31 ∧ (expectedWidth = 0 ∨ operand.width = 0 ∨ operand.width = expectedWidth) then
        some operand.reg
      else none

/-- `a64_branch_target`. -/
def branchTarget (inst : Inst) : BitVec 64 :=
  match findPcRelOperand inst with
  | some operand => operandTarget inst operand
  | none => 0

def regBranchWord (isCall : Bool) (encoding : Nat) : BitVec 32 :=
  let word : BitVec 32 := if isCall then 0xd63f0000 else 0xd61f0000
  word ||| ((BitVec.ofNat 32 encoding &&& 31) <<< 5)

/-- The instructions that `a64_encode` builds itself. -/
def encodeOwn (encoders : Encoders) (inst : Inst) (capacity : Nat) : Option EncodeOut :=
  let mnemonic := instMnemonic inst
  if mnemonic = Mnemonic.b ∨ mnemonic = Mnemonic.bl then
    inst.leadingTarget.map fun _ =>
      (emitRel (mnemonic == Mnemonic.bl) inst.address (branchTarget inst) capacity).encoded
  else if mnemonic = Mnemonic.br ∨ mnemonic = Mnemonic.blr then
    (inst.operands.head?.bind (regEncoding encoders · 64)).map fun encoding =>
      encodeBytes (store32le (regBranchWord (mnemonic == Mnemonic.blr) encoding)) capacity
  else if mnemonic = Mnemonic.ret then some (encodeBytes (store32le 0xd65f03c0) capacity)
  else none

/-- `a64_encode`. -/
def encode (encoders : Encoders) (engine : Engine) (inst : Inst) (capacity : Nat) : EncodeOut :=
  if inst.arch ≠ .aarch64 ∨ inst.mode ≠ .aarch64 ∨ engine.config.mode ≠ .aarch64 then
    { status := .unsupportedInstruction }
  else (encodeOwn encoders inst capacity).getD (encoders.encodeTd engine inst capacity)

end A64

/-! ## ARM -/

namespace Arm

/-- `arm_inst_mnemonic`. -/
def instMnemonic (inst : Inst) : Nat :=
  if inst.mnemonicId ≠ 0 then inst.mnemonicId
  else
    ([(Id.b, Mnemonic.b), (Id.thumbB, Mnemonic.b), (Id.thumbBCond, Mnemonic.b), (Id.bl, Mnemonic.bl),
      (Id.thumbBl, Mnemonic.bl)].lookup inst.id).getD 0

/-- `arm_branch_target`: a displacement counts from behind the form that is emitted. -/
def armBranchTarget (inst : Inst) (operand : Operand) (directSize : Nat) : BitVec 64 :=
  if operand.absTarget ≠ 0 ∨ operand.imm = 0 then operand.absTarget
  else inst.address + BitVec.ofNat 64 directSize + operand.imm

def directSize (engine : Engine) : Nat := if engine.config.mode = .armA32 then 4 else 2

/-- The instructions that `arm_encode` builds itself. -/
def encodeOwn (engine : Engine) (inst : Inst) (capacity : Nat) : Option EncodeOut :=
  let mnemonic := instMnemonic inst
  if mnemonic = Mnemonic.b ∨ mnemonic = Mnemonic.bl then
    inst.leadingTarget.map fun operand =>
      (emitRel engine (mnemonic == Mnemonic.bl) inst.address
        (armBranchTarget inst operand (directSize engine)) capacity).encoded
  else none

/-- `arm_encode`. -/
def encode (encoders : Encoders) (engine : Engine) (inst : Inst) (capacity : Nat) : EncodeOut :=
  if inst.arch ≠ .arm ∨ inst.mode ≠ engine.config.mode then { status := .unsupportedInstruction }
  else (encodeOwn engine inst capacity).getD (encoders.encodeTd engine inst capacity)

end Arm

/-! ## The encoder of the target -/

def encodeOwn (encoders : Encoders) (engine : Engine) (inst : Inst) (capacity : Nat) :
    Option EncodeOut :=
  match engine.target.arch with
  | .x86 => X86.encodeOwn engine inst capacity
  | .arm => Arm.encodeOwn engine inst capacity
  | .aarch64 => A64.encodeOwn encoders inst capacity
  | .bpf | .wasm => none

/-- `asmkit_encode_inst`. BPF and WebAssembly have only the table-driven encoder. -/
def encodeInst (encoders : Encoders) (engine : Engine) (inst : Inst) (capacity : Nat) : EncodeOut :=
  match engine.target.arch with
  | .x86 => X86.encode encoders engine inst capacity
  | .arm => Arm.encode encoders engine inst capacity
  | .aarch64 => A64.encode encoders engine inst capacity
  | .bpf | .wasm => encoders.encodeTd engine inst capacity

theorem encodeInst_own {encoders : Encoders} {engine : Engine} {inst : Inst} {capacity : Nat}
    {out : EncodeOut} (hown : encodeOwn encoders engine inst capacity = some out)
    (hok : (encodeInst encoders engine inst capacity).status = .ok) :
    encodeInst encoders engine inst capacity = out ∧ inst.arch = engine.target.arch ∧
      inst.mode = engine.config.mode := by
  unfold encodeOwn at hown
  unfold encodeInst at hok ⊢
  cases harch : engine.target.arch with
  | x86 =>
    simp only [harch, X86.encode] at hown hok ⊢
    split at hok
    · cases hok
    · rename_i hmatch
      rw [not_or, not_not, not_not] at hmatch
      rw [if_neg (by simp [hmatch.1, hmatch.2]), hown]
      exact ⟨rfl, hmatch.1, hmatch.2⟩
  | arm =>
    simp only [harch, Arm.encode] at hown hok ⊢
    split at hok
    · cases hok
    · rename_i hmatch
      rw [not_or, not_not, not_not] at hmatch
      rw [if_neg (by simp [hmatch.1, hmatch.2]), hown]
      exact ⟨rfl, hmatch.1, hmatch.2⟩
  | aarch64 =>
    simp only [harch, A64.encode] at hown hok ⊢
    split at hok
    · cases hok
    · rename_i hmatch
      rw [not_or, not_or, not_not, not_not, not_not] at hmatch
      rw [if_neg (by simp [hmatch.1, hmatch.2.1, hmatch.2.2]), hown]
      exact ⟨rfl, hmatch.1, hmatch.2.1.trans hmatch.2.2.symm⟩
  | bpf | wasm =>
    simp only [harch] at hown
    cases hown

end AsmKit
