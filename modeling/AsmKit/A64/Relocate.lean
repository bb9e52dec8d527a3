import AsmKit.A64.Decode
import AsmKit.A64.Emit
import AsmKit.Core.Semantics

/-!
# Analysis and relocation of AArch64 instructions

`a64_analyze` and `a64_relocate` of the AArch64 overlay.
-/

namespace AsmKit.A64

/-! ## Words and operands -/

def findPcRelOperand (inst : Inst) : Option Operand :=
  (inst.operands.take maxOperands).find? (·.kind == .pcRel)

def operandTarget (inst : Inst) (operand : Operand) : BitVec 64 :=
  if operand.absTarget ≠ 0 ∨ operand.imm = 0 then operand.absTarget else inst.address + operand.imm

def instMnemonic (inst : Inst) : Nat :=
  if inst.mnemonicId ≠ 0 then inst.mnemonicId
  else
    ([(Id.b, Mnemonic.b), (Id.bl, Mnemonic.bl), (Id.br, Mnemonic.br), (Id.blr, Mnemonic.blr),
      (Id.ret, Mnemonic.ret)].lookup inst.id).getD 0

def instWord (inst : Inst) : BitVec 32 := if 4 ≤ inst.size then load32le inst.bytes else 0

def wordIsBCond (w : BitVec 32) : Bool := w &&& 0xff000010 == 0x54000000
def wordIsCbzCbnz (w : BitVec 32) : Bool := w &&& 0x7e000000 == 0x34000000
def wordIsTbzTbnz (w : BitVec 32) : Bool := w &&& 0x7e000000 == 0x36000000
def wordIsLdrLiteral (w : BitVec 32) : Bool := w &&& 0x3b000000 == 0x18000000
def wordIsPrfmLiteral (w : BitVec 32) : Bool := w &&& 0xff000000 == 0xd8000000
def wordIsAdr (w : BitVec 32) : Bool := w &&& 0x9f000000 == 0x10000000
def wordIsAdrp (w : BitVec 32) : Bool := w &&& 0x9f000000 == 0x90000000

def wordIsUnconditionalBBl (w : BitVec 32) : Bool :=
  w &&& 0xfc000000 == 0x14000000 || w &&& 0xfc000000 == 0x94000000

/-- The words whose offset is the 19-bit field. -/
def wordHasOff19 (w : BitVec 32) : Bool :=
  wordIsBCond w || wordIsCbzCbnz w || wordIsLdrLiteral w || wordIsPrfmLiteral w

def isAdrp (inst : Inst) : Bool := instMnemonic inst == Mnemonic.adrp || wordIsAdrp (instWord inst)

def isAddressMaterialization (inst : Inst) : Bool :=
  instMnemonic inst == Mnemonic.adr || instMnemonic inst == Mnemonic.adrp ||
    wordIsAdr (instWord inst) || wordIsAdrp (instWord inst)

def isLiteralPcRelative (inst : Inst) : Bool :=
  inst.has InstFlag.literal || wordIsLdrLiteral (instWord inst) || wordIsPrfmLiteral (instWord inst)

def isUnconditionalPcBranchOrCall (inst : Inst) : Bool :=
  inst.has InstFlag.pcRelative &&
    ((instMnemonic inst == Mnemonic.b && inst.instClass == .directBranch) ||
      (instMnemonic inst == Mnemonic.bl && inst.instClass == .directCall) ||
      wordIsUnconditionalBBl (instWord inst))

def isCall (inst : Inst) : Bool :=
  instMnemonic inst == Mnemonic.bl || inst.instClass == .directCall

def isConditionalPcBranch (inst : Inst) : Bool :=
  let w := instWord inst
  inst.instClass == .condBranch && inst.has InstFlag.pcRelative &&
    (wordIsBCond w || wordIsCbzCbnz w || wordIsTbzTbnz w)

/-! ## Analysis -/

def analyze (inst : Inst) : InstSemantics :=
  let (hazards, branch) := analyzeTransfer inst
  let bti := if inst.instClass = .bti then Hazard.bti ||| Hazard.landingPad else 0
  let pac := if inst.instClass = .pac then Hazard.pac else 0
  let ret := if inst.instClass = .return_ then Hazard.return_ else 0
  let sem : InstSemantics :=
    { instClass := inst.instClass, relocKind := .copyAsIs
      minEmitSize := inst.size, maxEmitSize := inst.size
      hazardFlags := bti ||| pac ||| hazards ||| ret
      branch := { branch with isReturn := inst.instClass == .return_ } }
  match findPcRelOperand inst with
  | none => sem
  | some operand =>
    if ¬ inst.has InstFlag.pcRelative then sem
    else
      let target := operandTarget inst operand
      let isControlFlow := inst.instClass.isDirectTransfer
      { sem with
        hazardFlags := sem.hazardFlags ||| Hazard.pcRelative
        pcRel := { isPcRelative := true, originalTarget := target
                   isLiteralLoad := isLiteralPcRelative inst
                   isAddressMaterialization := isAddressMaterialization inst, isControlFlow }
        branch := { sem.branch with
          hasTarget := isControlFlow, target, minDisp := -134217728, maxDisp := 134217724 }
        relocKind := .reencodeWithNewPc
        maxEmitSize :=
          if inst.instClass = .condBranch then 20
          else if inst.instClass = .directBranch ∨ inst.instClass = .directCall then 16
          else inst.size }

theorem analyze_not_address {inst : Inst} (h : isAddressMaterialization inst = false) :
    (analyze inst).pcRel.isAddressMaterialization = false := by
  unfold analyze
  simp only
  split
  · rfl
  split
  · rfl
  · exact h

theorem analyze_isAddressMaterialization {inst : Inst}
    (h : ∀ operand ∈ inst.operands, operand.kind ≠ .pcRel) :
    (analyze inst).pcRel.isAddressMaterialization = false := by
  have hnone : findPcRelOperand inst = none := by
    rw [findPcRelOperand, List.find?_eq_none]
    intro operand hmem
    simpa using h operand (List.mem_of_mem_take hmem)
  unfold analyze
  simp only [hnone]

/-! ## Relocation -/

def invertConditionalToSkip (inst : Inst) : BitVec 32 :=
  let w := load32le inst.bytes
  if wordIsBCond w then
    (w &&& ~~~((0x7ffff#32 <<< 5) ||| 0x0f)) ||| (5#32 <<< 5) ||| ((w ^^^ 1) &&& 0x0f)
  else if wordIsCbzCbnz w then ((w &&& ~~~(0x7ffff#32 <<< 5)) ^^^ 0x01000000) ||| (5#32 <<< 5)
  else ((w &&& ~~~(0x3fff#32 <<< 5)) ^^^ 0x01000000) ||| (5#32 <<< 5)

/-- `a64_expand_conditional_abs`: the inverted branch over an absolute stub. -/
def expandConditionalAbs (inst : Inst) (target : BitVec 64) (capacity : Nat) : EmitOut :=
  let result : EmitResult := { size := 20, clobberMaskLo := x16Mask }
  let skip := store32le (invertConditionalToSkip inst)
  if capacity < 20 then { status := .outputTooSmall, result }
  else
    let stub := emitAbs false target (capacity - 4)
    if stub.status ≠ .ok then { status := stub.status, result, code := skip }
    else
      { status := .ok
        result := { result with
          clobberMaskLo := result.clobberMaskLo ||| stub.result.clobberMaskLo
          clobberMaskHi := result.clobberMaskHi ||| stub.result.clobberMaskHi }
        code := skip ++ stub.code }

def rangeMin (inst : Inst) : Int :=
  let w := instWord inst
  if wordHasOff19 w then -1048576
  else if wordIsTbzTbnz w then -32768
  else if isAddressMaterialization inst then -1048576
  else -134217728

def rangeMax (inst : Inst) : Int :=
  let w := instWord inst
  if wordHasOff19 w then 1048572
  else if wordIsTbzTbnz w then 32764
  else if isAddressMaterialization inst then 1048575
  else 134217724

/-- The word with its offset field set to a distance, for the words that have one. -/
def patchWord (w : BitVec 32) (disp : BitVec 64) : Option (BitVec 32) :=
  let words := (disp.sshiftRight 2).setWidth 32
  let imm := disp.setWidth 32 &&& 0x1fffff
  if wordHasOff19 w then some ((w &&& ~~~(0x7ffff#32 <<< 5)) ||| ((words &&& 0x7ffff#32) <<< 5))
  else if wordIsTbzTbnz w then some ((w &&& ~~~(0x3fff#32 <<< 5)) ||| ((words &&& 0x3fff#32) <<< 5))
  else if wordIsAdr w || wordIsAdrp w then
    some ((w &&& ~~~((0x3#32 <<< 29) ||| (0x7ffff#32 <<< 5))) |||
      ((imm &&& 0x3#32) <<< 29) ||| (((imm >>> 2) &&& 0x7ffff#32) <<< 5))
  else none

/-- The distance to encode: in bytes, and in pages for `adrp`. A page distance that is not whole
is refused. -/
def relocDisp (inst : Inst) (target relocatedAddress : BitVec 64) : Option (BitVec 64) :=
  if isAdrp inst then
    let disp := (target &&& ~~~0xfff) - (relocatedAddress &&& ~~~0xfff)
    if disp &&& 0xfff ≠ 0 then none else some (disp.sshiftRight 12)
  else some (target - relocatedAddress)

def relocate (inst : Inst) (relocatedAddress : BitVec 64) (capacity : Nat) : EmitOut :=
  match findPcRelOperand inst with
  | none =>
    if isUnconditionalPcBranchOrCall inst then { status := .unsupportedRelocation }
    else copyInst inst capacity
  | some operand =>
    let target := operandTarget inst operand
    if isUnconditionalPcBranchOrCall inst then
      let rel := emitRel (isCall inst) relocatedAddress target capacity
      if rel.status = .ok ∨ rel.status = .outputTooSmall then rel
      else emitAbs (isCall inst) target capacity
    else if inst.has InstFlag.pcRelative then
      match relocDisp inst target relocatedAddress with
      | none => { status := .unsupportedRelocation }
      | some disp =>
        if disp.toInt < rangeMin inst ∨ rangeMax inst < disp.toInt then
          if isConditionalPcBranch inst then expandConditionalAbs inst target capacity
          else { status := .branchOutOfRange }
        else if capacity < 4 then { status := .outputTooSmall, result := { size := 4 } }
        else
          match patchWord (load32le inst.bytes) disp with
          | none => { status := .unsupportedRelocation, result := { size := 4 } }
          | some w => { status := .ok, result := { size := 4 }, code := store32le w }
    else copyInst inst capacity

end AsmKit.A64
