import AsmKit.Core.Bits

/-!
# The mnemonics of conditional ARM instructions

`asmkit_text_append_arm_conditional_branch_mnemonic` and `asmkit_text_append_arm_it_mnemonic`. A
formatter appends a text, or leaves the instruction to the next one.
-/

namespace AsmKit.Text

/-- `asmkit_text_aarch64_condition_name`. -/
def conditionName (condition : Nat) : Option (List Char) :=
  (["eq", "ne", "hs", "lo", "mi", "pl", "vs", "vc",
    "hi", "ls", "ge", "lt", "gt", "le", "al", "nv"].map String.toList)[condition]?

/-- The condition of a branch: a field of the word, none from 14 on. -/
def armBranchCondition (inst : Inst) : BitVec 32 :=
  if inst.mode = .armA32 ∧ 4 ≤ inst.size then load32le inst.bytes >>> 28
  else if inst.mode = .armThumb ∧ 2 ≤ inst.size then
    let h1 := load16le inst.bytes
    if h1 &&& 0xf000 = 0xd000 then ((h1 >>> 8) &&& 0x0f).setWidth 32
    else if 4 ≤ inst.size then
      let h2 := load16le (inst.bytes.drop 2)
      if h1 &&& 0xf800 = 0xf000 ∧ h2 &&& 0xd000 = 0x8000 then ((h1 >>> 6) &&& 0x0f).setWidth 32
      else 0xff
    else 0xff
  else 0xff

def armConditionalBranchMnemonic (mnemonic : String) (inst : Inst) : Option (List Char) :=
  if inst.arch ≠ .arm ∨ (mnemonic ≠ "b" ∧ mnemonic ≠ "bl") ∨ ¬ inst.has InstFlag.conditional then
    none
  else
    let condition := armBranchCondition inst
    if 0x0e ≤ condition then none
    else (conditionName condition.toNat).map (mnemonic.toList ++ ·)

/-- The condition and the mask of an `it`, from its operands when they are immediates. -/
def itFields (inst : Inst) : BitVec 32 × BitVec 32 :=
  match inst.operands with
  | o0 :: o1 :: _ =>
    if o0.kind = .imm ∧ o1.kind = .imm then (o0.imm.setWidth 32, o1.imm.setWidth 32)
    else encoded
  | _ => encoded
where
  encoded :=
    let h := load16le inst.bytes
    (((h >>> 4) &&& 0x0f).setWidth 32, (h &&& 0x000f).setWidth 32)

def trailingZeroes (mask : BitVec 32) : Nat :=
  ((List.range 4).find? fun i => mask.getLsbD i).getD 4

/-- The letters behind `it`, from bit 3 down to the lowest set bit. -/
def itLetters (condition mask : BitVec 32) : List Char :=
  ((List.range 4).reverse.filter (trailingZeroes mask < ·)).map fun bit =>
    if mask.getLsbD bit = condition.getLsbD 0 then 't' else 'e'

def armItMnemonic (mnemonic : String) (inst : Inst) : Option (List Char) :=
  if inst.arch ≠ .arm ∨ inst.mode ≠ .armThumb ∨ mnemonic ≠ "it" ∨ inst.size < 2 then none
  else
    let (condition, mask) := itFields inst
    if mask = 0 then none
    else
      let condition := if condition = 0x0f then 0x0e else condition
      (conditionName condition.toNat).map fun name =>
        "it".toList ++ itLetters condition mask ++ [' '] ++ name

end AsmKit.Text
