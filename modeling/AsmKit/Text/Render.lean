import AsmKit.Text.Format

/-!
# The text of an instruction

What the calls of the formatter append, as texts of their own. None of them looks at the room.
-/

namespace AsmKit.Text

/-! ## One builder, one text -/

namespace Builder

variable (builder : Builder) (text text' : List Char) (ch : Char)

theorem appendChars_nil : builder.appendChars [] = builder := rfl

theorem appendChar_eq : builder.appendChar ch = builder.appendChars [ch] := rfl

theorem appendCstr_eq (text : String) : builder.appendCstr text = builder.appendChars text.toList := rfl

theorem appendChars_appendChars :
    (builder.appendChars text).appendChars text' = builder.appendChars (text ++ text') :=
  (appendChars_append builder text text').symm

/-- A call that may take the mnemonic, and leaves the builder alone where it does not. -/
def offer : Option (List Char) → Builder × Bool
  | none => (builder, false)
  | some text => (builder.appendChars text, true)

end Builder

/-! ## Operands -/

def registerText (tables : TextTables) (arch : Arch) (registerId : Nat) : List Char :=
  match registerName tables arch registerId 0 with
  | some name => name.toList
  | none => 'r' :: Nat.toDigits 10 (BitVec.ofNat 64 registerId).toNat

def indexText (tables : TextTables) (arch : Arch) (mem : MemoryOperand) : List Char :=
  (if mem.base ≠ 0 then ['+'] else []) ++ registerText tables arch mem.index ++
    if 1 < mem.scale then '*' :: Nat.toDigits 10 (mem.scale.setWidth 64).toNat else []

def displacementText (mem : MemoryOperand) : List Char :=
  if mem.displacement ≠ 0 ∧ (mem.base ≠ 0 ∨ mem.index ≠ 0) then
    (if 0 < mem.displacement.toInt then ['+'] else []) ++ signedText mem.displacement.toInt
  else if mem.base = 0 ∧ mem.index = 0 then signedText mem.displacement.toInt
  else []

def memoryText (tables : TextTables) (arch : Arch) (mem : MemoryOperand) : List Char :=
  (if mem.segment ≠ 0 then registerText tables arch mem.segment ++ [':'] else []) ++ ['['] ++
    (if mem.base ≠ 0 then registerText tables arch mem.base else []) ++
    (if mem.index ≠ 0 then indexText tables arch mem else []) ++ displacementText mem ++ [']']

def operandText (tables : TextTables) (inst : Inst) (operand : Operand) : List Char :=
  match operand.kind with
  | .reg => registerText tables inst.arch operand.reg
  | .imm | .wasmBlocktype | .wasmIndex => signedText operand.imm.toInt
  | .mem => memoryText tables inst.arch operand.mem
  | .pcRel => '0' :: 'x' :: Nat.toDigits 16 operand.absTarget.toNat
  | .none | .opaque_ | .x86Rounding => ['?']

/-- The operands with commas in between. -/
def operandsText (tables : TextTables) (inst : Inst) (operands : List Operand) : List Char :=
  [',', ' '].intercalate (operands.map (operandText tables inst))

section

variable (tables : TextTables) (builder : Builder) (arch : Arch) (mem : MemoryOperand) (inst : Inst)

theorem appendRegister_eq (registerId width : Nat) :
    appendRegister tables builder arch registerId width =
      builder.appendChars (registerText tables arch registerId) := by
  have hname : registerName tables arch registerId width = registerName tables arch registerId 0 := rfl
  unfold appendRegister registerText
  rw [hname]
  cases registerName tables arch registerId 0 with
  | some name => rfl
  | none => exact Builder.appendUnsignedDec_eq ..

theorem appendIndex_eq :
    appendIndex tables builder arch mem = builder.appendChars (indexText tables arch mem) := by
  unfold appendIndex indexText
  simp only [appendRegister_eq, Builder.appendUnsignedDec_eq, Builder.appendChar_eq,
    Builder.appendChars_appendChars]
  split <;> split <;> simp [Builder.appendChars_appendChars]

theorem appendDisplacement_eq :
    appendDisplacement builder mem = builder.appendChars (displacementText mem) := by
  unfold appendDisplacement displacementText
  simp only [Builder.appendSignedDec_eq, Builder.appendChar_eq]
  split
  · split <;> simp [Builder.appendChars_appendChars]
  · split <;> simp [Builder.appendChars_nil]

theorem appendMemory_eq :
    appendMemory tables builder arch mem = builder.appendChars (memoryText tables arch mem) := by
  unfold appendMemory memoryText
  simp only [appendRegister_eq, appendIndex_eq, appendDisplacement_eq, Builder.appendChar_eq]
  split <;> split <;> split <;> simp [Builder.appendChars_appendChars]

theorem appendOperand_eq (operand : Operand) :
    appendOperand tables builder inst operand = builder.appendChars (operandText tables inst operand) := by
  unfold appendOperand operandText
  cases operand.kind with
  | reg => exact appendRegister_eq ..
  | imm | wasmBlocktype | wasmIndex => exact builder.appendSignedDec_eq _
  | mem => exact appendMemory_eq ..
  | pcRel => exact builder.appendHex_eq _
  | none | opaque_ | x86Rounding => rfl

theorem appendOperands_eq (operands : List Operand) :
    appendOperands tables builder inst operands =
      builder.appendChars (operandsText tables inst operands) := by
  cases operands with
  | nil => rfl
  | cons operand operands =>
    induction operands generalizing builder operand with
    | nil =>
      rw [operandsText, List.map_singleton, List.intercalate_singleton]
      exact appendOperand_eq ..
    | cons next operands ih =>
      have hrest : appendOperands tables builder inst (operand :: next :: operands) =
          appendOperands tables ((appendOperand tables builder inst operand).appendCstr ", ") inst
            (next :: operands) := rfl
      rw [hrest, ih, appendOperand_eq, Builder.appendCstr_eq, Builder.appendChars_appendChars,
        Builder.appendChars_appendChars]
      simp only [operandsText, List.map_cons, List.intercalate_cons_cons, List.append_assoc]
      rfl

end

/-! ## Mnemonics -/

/-- What is written behind `cpsid` and `cpsie`. -/
def cpsMaskText (inst : Inst) : List Char :=
  match inst.operands[1]? with
  | none => []
  | some operand =>
    if operand.kind ≠ .imm then []
    else
      let letters := (if operand.imm &&& 4 ≠ 0 then ['a'] else []) ++
        (if operand.imm &&& 2 ≠ 0 then ['i'] else []) ++ if operand.imm &&& 1 ≠ 0 then ['f'] else []
      ' ' :: if letters = [] then signedText operand.imm.toInt else letters

def armCpsMnemonic (mnemonic : String) (inst : Inst) : Option (List Char) :=
  if inst.arch ≠ .arm ∨ mnemonic ≠ "cps" ∨ inst.operands = [] ∨ inst.operand0.kind ≠ .imm then none
  else if inst.operand0.imm = 1 then some ("cpsid".toList ++ cpsMaskText inst)
  else if inst.operand0.imm = 0 then some ("cpsie".toList ++ cpsMaskText inst)
  else none

def rrxText (setFlags : Bool) : List Char := (if setFlags then "rrxs" else "rrx").toList

def armRrxMnemonic (mnemonic : String) (inst : Inst) : Option (List Char) :=
  if inst.arch = .arm ∧ inst.mode = .armThumb ∧ mnemonic = "rrx" ∧ 4 ≤ inst.size then
    some (rrxText (inst.byte 0 &&& 0x10 ≠ 0))
  else if inst.arch = .arm ∧ mnemonic = "mov" ∧
      ∃ operand ∈ inst.operands[1]?, operand.kind = .reg ∧ operand.shiftKind = armShiftRrx then
    some (rrxText (inst.mode = .armA32 ∧ 4 ≤ inst.size ∧ load32le inst.bytes &&& 0x00100000 ≠ 0))
  else none

def aarch64ConditionalMnemonic (mnemonic : String) (inst : Inst) : Option (List Char) :=
  if inst.arch ≠ .aarch64 ∨ mnemonic ≠ "b" ∨ ¬ inst.has InstFlag.conditional ∨ inst.operands = [] ∨
      inst.operand0.kind ≠ .imm then none
  else (conditionName (inst.operand0.imm.setWidth 32).toNat).map ("b.".toList ++ ·)

/-- The landing pads that a `bti` names. -/
def btiTargets (hint : BitVec 64) : List Char :=
  if hint = 34 then " c".toList
  else if hint = 36 then " j".toList
  else if hint = 38 then " jc".toList
  else []

def aarch64BtiMnemonic (mnemonic : String) (inst : Inst) : Option (List Char) :=
  if inst.arch ≠ .aarch64 ∨ mnemonic ≠ "bti" then none
  else some ("bti".toList ++ btiTargets (btiHint inst))

section

variable (builder : Builder) (mnemonic : String) (inst : Inst)

theorem appendCpsMask_eq : appendCpsMask builder inst = (builder.appendChars (cpsMaskText inst), true) := by
  unfold appendCpsMask cpsMaskText
  cases inst.operands[1]? with
  | none => rfl
  | some operand =>
    simp only
    split
    · rfl
    simp only [Builder.appendSignedDec_eq, Builder.appendChar_eq]
    by_cases ha : operand.imm &&& 4 = 0 <;> by_cases hi : operand.imm &&& 2 = 0 <;>
      by_cases hf : operand.imm &&& 1 = 0 <;>
      simp only [ne_eq, ha, hi, hf, not_true_eq_false, not_false_eq_true, if_true, if_false, or_true,
        true_or, or_self, decide_true, decide_false, Bool.false_eq_true, List.append_nil,
        List.nil_append, List.cons_append, reduceCtorEq, Builder.appendChars_appendChars]

theorem appendArmCpsMnemonic_eq :
    appendArmCpsMnemonic builder mnemonic inst = builder.offer (armCpsMnemonic mnemonic inst) := by
  unfold appendArmCpsMnemonic armCpsMnemonic
  split
  · rfl
  split
  · rw [appendCpsMask_eq, Builder.appendCstr_eq, Builder.appendChars_appendChars]
    rfl
  split
  · rw [appendCpsMask_eq, Builder.appendCstr_eq, Builder.appendChars_appendChars]
    rfl
  · rfl

theorem appendArmRrxMnemonic_eq :
    appendArmRrxMnemonic builder mnemonic inst = builder.offer (armRrxMnemonic mnemonic inst) := by
  unfold appendArmRrxMnemonic armRrxMnemonic
  split
  · simp [Builder.offer, Builder.appendCstr_eq, rrxText]
  split
  · next hmov =>
    rw [if_neg fun h => hmov.elim (fun hne => hne h.1) fun hne => hne h.2.1]
    rfl
  next hmov =>
  rw [not_or, not_not, not_not] at hmov
  cases hop : inst.operands[1]? with
  | none => simp [Builder.offer]
  | some operand =>
    simp only [hmov, Option.mem_some_iff, exists_eq_left', true_and]
    by_cases hrrx : operand.kind = .reg ∧ operand.shiftKind = armShiftRrx
    · rw [if_neg (by simp [hrrx]), if_pos hrrx, Builder.offer, Builder.appendCstr_eq, rrxText]
    · rw [if_pos (by rwa [ne_eq, ne_eq, ← not_and_or]), if_neg hrrx, Builder.offer]

theorem appendArmConditionalBranchMnemonic_eq :
    appendArmConditionalBranchMnemonic builder mnemonic inst =
      builder.offer (armConditionalBranchMnemonic mnemonic inst) := by
  unfold appendArmConditionalBranchMnemonic armConditionalBranchMnemonic
  split
  · rfl
  simp only
  split
  · rfl
  cases conditionName (armBranchCondition inst).toNat with
  | none => rfl
  | some name =>
    simp only [Builder.appendCstr_eq, Builder.appendChars_appendChars]
    rfl

theorem appendArmItMnemonic_eq :
    appendArmItMnemonic builder mnemonic inst = builder.offer (armItMnemonic mnemonic inst) := by
  unfold appendArmItMnemonic armItMnemonic
  split
  · rfl
  obtain ⟨condition, mask⟩ := itFields inst
  simp only
  split
  · rfl
  cases conditionName (if condition = 0x0f then 0x0e else condition).toNat with
  | none => rfl
  | some name =>
    have hletters : ∀ builder : Builder, ((List.range 4).reverse.filter (trailingZeroes mask < ·)).foldl
        (fun builder bit => builder.appendChar (if mask.getLsbD bit =
          (if condition = 0x0f then 0x0e else condition).getLsbD 0 then 't' else 'e')) builder =
        builder.appendChars (itLetters (if condition = 0x0f then 0x0e else condition) mask) := by
      intro builder
      rw [itLetters, Builder.appendChars, List.foldl_map]
    simp only [hletters]
    simp only [Builder.appendCstr_eq, Builder.appendChar_eq, Builder.appendChars_appendChars,
      Option.map_some, Builder.offer]

theorem appendAarch64ConditionalMnemonic_eq :
    appendAarch64ConditionalMnemonic builder mnemonic inst =
      builder.offer (aarch64ConditionalMnemonic mnemonic inst) := by
  unfold appendAarch64ConditionalMnemonic aarch64ConditionalMnemonic
  split
  · rfl
  cases conditionName (inst.operand0.imm.setWidth 32).toNat with
  | none => rfl
  | some name =>
    simp only [Builder.appendCstr_eq, Builder.appendChars_appendChars]
    rfl

theorem appendAarch64BtiMnemonic_eq :
    appendAarch64BtiMnemonic builder mnemonic inst =
      builder.offer (aarch64BtiMnemonic mnemonic inst) := by
  unfold appendAarch64BtiMnemonic aarch64BtiMnemonic btiTargets
  split
  · rfl
  simp only [Builder.appendCstr_eq]
  split
  · rfl
  split
  · rfl
  split <;> rfl

end

/-! ## The instruction -/

def prefixesText (mnemonic : String) (inst : Inst) : List Char :=
  (if inst.arch = .x86 ∧ inst.has InstFlag.x86Lock then "lock ".toList else []) ++
    if inst.arch = .x86 ∧ inst.has InstFlag.x86Repne then "repne ".toList
    else if inst.arch = .x86 ∧ inst.has InstFlag.x86Rep then
      if "cmps".toList.isPrefixOf mnemonic.toList ∨ "scas".toList.isPrefixOf mnemonic.toList then
        "repe ".toList
      else "rep ".toList
    else []

/-- The mnemonic as it is written, the operand to begin with, and whether operands are left out. -/
structure MnemonicText where
  text : List Char
  firstOperand : Nat := 0
  suppressOperands : Bool := false

def mnemonicText (mnemonic : String) (inst : Inst) : MnemonicText :=
  match armCpsMnemonic mnemonic inst with
  | some text => { text, suppressOperands := true }
  | none =>
  match armRrxMnemonic mnemonic inst with
  | some text => { text }
  | none =>
  match armConditionalBranchMnemonic mnemonic inst with
  | some text => { text }
  | none =>
  match armItMnemonic mnemonic inst with
  | some text => { text, suppressOperands := true }
  | none =>
  match aarch64ConditionalMnemonic mnemonic inst with
  | some text => { text, firstOperand := 1 }
  | none =>
  match aarch64BtiMnemonic mnemonic inst with
  | some text => { text, suppressOperands := true }
  | none => { text := mnemonic.toList }

/-- The operands behind a blank, where there are any to write. -/
def operandListText (tables : TextTables) (inst : Inst) (form : MnemonicText) : List Char :=
  if ¬ form.suppressOperands ∧ form.firstOperand < inst.operands.length then
    ' ' :: operandsText tables inst ((inst.operands.take maxOperands).drop form.firstOperand)
  else []

def instMnemonic (tables : TextTables) (engine : Engine) (inst : Inst) : String :=
  tables.mnemonic engine.config.arch (if inst.mnemonicId ≠ 0 then inst.mnemonicId else inst.id)

/-- The text of an instruction. -/
def instText (tables : TextTables) (engine : Engine) (inst : Inst) : List Char :=
  let mnemonic := instMnemonic tables engine inst
  if inst.operands = [] ∧
      ¬ hasFlag inst.flags (InstFlag.x86Lock ||| InstFlag.x86Rep ||| InstFlag.x86Repne) then
    mnemonic.toList
  else
    prefixesText mnemonic inst ++ (mnemonicText mnemonic inst).text ++
      operandListText tables inst (mnemonicText mnemonic inst)

section

variable (tables : TextTables) (builder : Builder) (mnemonic : String) (engine : Engine) (inst : Inst)
  (outText : Option (List Char)) (outCapacity : Nat)

theorem appendPrefixes_eq :
    appendPrefixes builder mnemonic inst = builder.appendChars (prefixesText mnemonic inst) := by
  unfold appendPrefixes prefixesText
  simp only [Builder.appendCstr_eq]
  split <;> split
  all_goals
    try split
    all_goals
      try split
      all_goals simp [Builder.appendChars_appendChars, Builder.appendChars_nil]

theorem appendMnemonic_eq : appendMnemonic builder mnemonic inst =
    { builder := builder.appendChars (mnemonicText mnemonic inst).text
      firstOperand := (mnemonicText mnemonic inst).firstOperand
      suppressOperands := (mnemonicText mnemonic inst).suppressOperands } := by
  unfold appendMnemonic mnemonicText
  simp only [appendArmCpsMnemonic_eq, appendArmRrxMnemonic_eq, appendArmConditionalBranchMnemonic_eq,
    appendArmItMnemonic_eq, appendAarch64ConditionalMnemonic_eq, appendAarch64BtiMnemonic_eq]
  cases armCpsMnemonic mnemonic inst with
  | some text => rfl
  | none =>
  cases armRrxMnemonic mnemonic inst with
  | some text => rfl
  | none =>
  cases armConditionalBranchMnemonic mnemonic inst with
  | some text => rfl
  | none =>
  cases armItMnemonic mnemonic inst with
  | some text => rfl
  | none =>
  cases aarch64ConditionalMnemonic mnemonic inst with
  | some text => rfl
  | none =>
  cases aarch64BtiMnemonic mnemonic inst with
  | some text => rfl
  | none => rfl

theorem formatWithOperands_eq : formatWithOperands tables mnemonic inst outText outCapacity =
    ((Builder.init outText outCapacity).appendChars (prefixesText mnemonic inst ++
      (mnemonicText mnemonic inst).text ++
        operandListText tables inst (mnemonicText mnemonic inst))).finish := by
  unfold formatWithOperands operandListText
  simp only [appendPrefixes_eq, appendMnemonic_eq, Builder.appendChars_appendChars]
  split
  · simp only [appendOperands_eq, Builder.appendChar_eq, Builder.appendChars_appendChars,
      List.append_assoc, List.cons_append, List.nil_append]
  · rw [List.append_nil]

/-- The formatter appends the text, whatever the room, and finishes. -/
theorem formatInst_eq : formatInst tables engine inst outText outCapacity =
    ((Builder.init outText outCapacity).appendChars (instText tables engine inst)).finish := by
  unfold formatInst instText
  simp only
  by_cases hplain : inst.operands = [] ∧
      ¬ hasFlag inst.flags (InstFlag.x86Lock ||| InstFlag.x86Rep ||| InstFlag.x86Repne)
  · rw [if_pos hplain, if_pos hplain]
    rfl
  · rw [if_neg hplain, if_neg hplain, formatWithOperands_eq]
    rfl

end

/-! ## How long it is -/

/-- The generated names have a length far below what the counters hold. -/
structure TextTables.Short (tables : TextTables) : Prop where
  mnemonic : ∀ arch id, (tables.mnemonic arch id).toList.length < 2 ^ 24
  register : ∀ arch id, ∀ name ∈ tables.registerName arch id, name.toList.length < 2 ^ 24

section

variable {tables : TextTables} (hshort : tables.Short) (inst : Inst)

theorem toDigits_length_le (value : BitVec 64) : (Nat.toDigits 10 value.toNat).length ≤ 20 := by
  rw [Nat.length_toDigits_le_iff (by decide) (by decide)]
  omega

theorem signedText_length_le (value : BitVec 64) : (signedText value.toInt).length ≤ 21 := by
  have hbound : (Nat.toDigits 10 value.toInt.natAbs).length ≤ 20 := by
    rw [Nat.length_toDigits_le_iff (by decide) (by decide)]
    have hlt := BitVec.toInt_lt (x := value)
    have hle := BitVec.le_toInt value
    omega
  unfold signedText
  split
  · rw [List.length_cons]
    omega
  · omega

include hshort

theorem registerText_length_le (arch : Arch) (registerId : Nat) :
    (registerText tables arch registerId).length < 2 ^ 24 := by
  unfold registerText
  cases hname : registerName tables arch registerId 0 with
  | some name =>
    unfold registerName at hname
    split at hname
    · exact hshort.register arch registerId name hname
    · cases hname
  | none =>
    have hdigits := toDigits_length_le (BitVec.ofNat 64 registerId)
    rw [List.length_cons]
    omega

theorem indexText_length_le (arch : Arch) (mem : MemoryOperand) :
    (indexText tables arch mem).length < 2 ^ 24 + 22 := by
  have hindex := registerText_length_le hshort arch mem.index
  have hscale := toDigits_length_le (mem.scale.setWidth 64)
  unfold indexText
  split <;> split <;> simp only [List.length_append, List.length_cons, List.length_nil] <;> omega

omit hshort in
theorem displacementText_length_le (mem : MemoryOperand) : (displacementText mem).length ≤ 22 := by
  have hdisp := signedText_length_le mem.displacement
  unfold displacementText
  split
  · split <;> simp only [List.length_append, List.length_cons, List.length_nil] <;> omega
  · split
    · omega
    · exact Nat.zero_le _

theorem memoryText_length_le (arch : Arch) (mem : MemoryOperand) :
    (memoryText tables arch mem).length < 2 ^ 26 := by
  have hsegment := registerText_length_le hshort arch mem.segment
  have hbase := registerText_length_le hshort arch mem.base
  have hindex := indexText_length_le hshort arch mem
  have hdisp := displacementText_length_le mem
  unfold memoryText
  split <;> split <;> split <;>
    simp only [List.length_append, List.length_cons, List.length_nil] <;> omega

theorem operandText_length_le (operand : Operand) : (operandText tables inst operand).length < 2 ^ 26 := by
  unfold operandText
  cases operand.kind with
  | reg =>
    have hreg := registerText_length_le hshort inst.arch operand.reg
    dsimp only
    omega
  | imm | wasmBlocktype | wasmIndex =>
    have himm := signedText_length_le operand.imm
    dsimp only
    omega
  | mem => exact memoryText_length_le hshort inst.arch operand.mem
  | pcRel =>
    have hhex : (Nat.toDigits 16 operand.absTarget.toNat).length ≤ 16 := by
      rw [Nat.length_toDigits_le_iff (by decide) (by decide)]
      omega
    simp only [List.length_cons]
    omega
  | none | opaque_ | x86Rounding =>
    have hmark : ['?'].length < 2 ^ 26 := by decide
    exact hmark

theorem operandsText_length_le (operands : List Operand) :
    (operandsText tables inst operands).length ≤ operands.length * (2 ^ 26 + 2) := by
  cases operands with
  | nil => exact Nat.zero_le _
  | cons operand operands =>
    induction operands generalizing operand with
    | nil =>
      have hone := operandText_length_le hshort inst operand
      rw [operandsText, List.map_singleton, List.intercalate_singleton, List.length_singleton]
      omega
    | cons next operands ih =>
      have hone := operandText_length_le hshort inst operand
      have hrest := ih next
      simp only [operandsText, List.map_cons, List.intercalate_cons_cons, List.length_append,
        List.length_cons, List.length_nil] at hrest ⊢
      omega

omit hshort in
theorem conditionName_length (condition : Nat) : ∀ name ∈ conditionName condition, name.length = 2 := by
  intro name hname
  have hall : ∀ name ∈ ["eq", "ne", "hs", "lo", "mi", "pl", "vs", "vc", "hi", "ls", "ge", "lt", "gt",
      "le", "al", "nv"].map String.toList, name.length = 2 := by decide
  exact hall name (List.mem_of_getElem? hname)

end

section

variable (mnemonic : String) (inst : Inst)

theorem letter_length_le (c : Prop) [Decidable c] (ch : Char) : (if c then [ch] else []).length ≤ 1 := by
  split
  · exact le_rfl
  · exact Nat.zero_le _

theorem cpsMaskText_length_le : (cpsMaskText inst).length ≤ 22 := by
  unfold cpsMaskText
  split
  · exact Nat.zero_le _
  · next operand _ =>
    have hmask := signedText_length_le operand.imm
    split
    · exact Nat.zero_le _
    · have ha := letter_length_le (operand.imm &&& 4 ≠ 0) 'a'
      have hi := letter_length_le (operand.imm &&& 2 ≠ 0) 'i'
      have hf := letter_length_le (operand.imm &&& 1 ≠ 0) 'f'
      simp only [List.length_cons]
      by_cases hnone : ((if operand.imm &&& 4 ≠ 0 then ['a'] else []) ++
          (if operand.imm &&& 2 ≠ 0 then ['i'] else []) ++
          if operand.imm &&& 1 ≠ 0 then ['f'] else []) = []
      · rw [if_pos hnone]
        omega
      · rw [if_neg hnone]
        simp only [List.length_append]
        omega

theorem armCpsMnemonic_length_le :
    ∀ text ∈ armCpsMnemonic mnemonic inst, text.length ≤ mnemonic.toList.length + 27 := by
  intro text htext
  have hmask := cpsMaskText_length_le inst
  have hname : "cpsid".toList.length = 5 ∧ "cpsie".toList.length = 5 := by decide
  unfold armCpsMnemonic at htext
  split at htext
  · cases htext
  split at htext
  · cases htext
    rw [List.length_append]
    omega
  split at htext
  · cases htext
    rw [List.length_append]
    omega
  · cases htext

theorem rrxText_length_le (setFlags : Bool) : (rrxText setFlags).length ≤ 4 := by
  cases setFlags <;> decide

theorem armRrxMnemonic_length_le :
    ∀ text ∈ armRrxMnemonic mnemonic inst, text.length ≤ mnemonic.toList.length + 27 := by
  intro text htext
  unfold armRrxMnemonic at htext
  split at htext
  · cases htext
    exact (rrxText_length_le _).trans (by omega)
  split at htext
  · cases htext
    exact (rrxText_length_le _).trans (by omega)
  · cases htext

theorem armConditionalBranchMnemonic_length_le :
    ∀ text ∈ armConditionalBranchMnemonic mnemonic inst, text.length ≤ mnemonic.toList.length + 27 := by
  intro text htext
  unfold armConditionalBranchMnemonic at htext
  split at htext
  · cases htext
  simp only at htext
  split at htext
  · cases htext
  obtain ⟨name, hname, rfl⟩ := Option.map_eq_some_iff.1 htext
  have hlength := conditionName_length _ name hname
  rw [List.length_append]
  omega

theorem itLetters_length_le (condition mask : BitVec 32) : (itLetters condition mask).length ≤ 4 := by
  rw [itLetters, List.length_map]
  exact (List.length_filter_le _ _).trans (by decide)

theorem armItMnemonic_length_le :
    ∀ text ∈ armItMnemonic mnemonic inst, text.length ≤ mnemonic.toList.length + 27 := by
  intro text htext
  unfold armItMnemonic at htext
  split at htext
  · cases htext
  simp only at htext
  split at htext
  · cases htext
  obtain ⟨name, hname, rfl⟩ := Option.map_eq_some_iff.1 htext
  have hlength := conditionName_length _ name hname
  have hletters := itLetters_length_le
    (if (itFields inst).1 = 0x0f then 0x0e else (itFields inst).1) (itFields inst).2
  have hit : "it".toList.length = 2 := by decide
  simp only [List.length_append, List.length_cons, List.length_nil]
  omega

theorem aarch64ConditionalMnemonic_length_le :
    ∀ text ∈ aarch64ConditionalMnemonic mnemonic inst, text.length ≤ mnemonic.toList.length + 27 := by
  intro text htext
  unfold aarch64ConditionalMnemonic at htext
  split at htext
  · cases htext
  obtain ⟨name, hname, rfl⟩ := Option.map_eq_some_iff.1 htext
  have hlength := conditionName_length _ name hname
  have hb : "b.".toList.length = 2 := by decide
  rw [List.length_append]
  omega

theorem aarch64BtiMnemonic_length_le :
    ∀ text ∈ aarch64BtiMnemonic mnemonic inst, text.length ≤ mnemonic.toList.length + 27 := by
  intro text htext
  unfold aarch64BtiMnemonic at htext
  split at htext
  · cases htext
  cases htext
  have hbti : "bti".toList.length = 3 := by decide
  have htargets : (btiTargets (btiHint inst)).length ≤ 3 := by
    unfold btiTargets
    split
    · decide
    split
    · decide
    split <;> decide
  rw [List.length_append]
  omega

theorem mnemonicText_length_le :
    (mnemonicText mnemonic inst).text.length ≤ mnemonic.toList.length + 27 := by
  unfold mnemonicText
  split
  · next h => exact armCpsMnemonic_length_le mnemonic inst _ h
  split
  · next h => exact armRrxMnemonic_length_le mnemonic inst _ h
  split
  · next h => exact armConditionalBranchMnemonic_length_le mnemonic inst _ h
  split
  · next h => exact armItMnemonic_length_le mnemonic inst _ h
  split
  · next h => exact aarch64ConditionalMnemonic_length_le mnemonic inst _ h
  split
  · next h => exact aarch64BtiMnemonic_length_le mnemonic inst _ h
  · exact Nat.le_add_right _ _

theorem prefixesText_length_le : (prefixesText mnemonic inst).length ≤ 11 := by
  unfold prefixesText
  rw [List.length_append]
  split <;> split
  all_goals
    try split
    all_goals
      try split
      all_goals decide

end

theorem instText_length_lt {tables : TextTables} (hshort : tables.Short) (engine : Engine) (inst : Inst) :
    (instText tables engine inst).length < 2 ^ 32 := by
  have hmnemonic : (instMnemonic tables engine inst).toList.length < 2 ^ 24 := hshort.mnemonic _ _
  unfold instText
  simp only
  split
  · omega
  · have hprefixes := prefixesText_length_le (instMnemonic tables engine inst) inst
    have htext := mnemonicText_length_le (instMnemonic tables engine inst) inst
    have hoperands : (operandListText tables inst
        (mnemonicText (instMnemonic tables engine inst) inst)).length ≤ 1 + 8 * (2 ^ 26 + 2) := by
      unfold operandListText
      split
      · have hall := operandsText_length_le hshort inst ((inst.operands.take maxOperands).drop
          (mnemonicText (instMnemonic tables engine inst) inst).firstOperand)
        have hcount : ((inst.operands.take maxOperands).drop
            (mnemonicText (instMnemonic tables engine inst) inst).firstOperand).length ≤ 8 := by
          rw [List.length_drop, List.length_take, maxOperands]
          omega
        rw [List.length_cons]
        omega
      · exact Nat.zero_le _
    simp only [List.length_append]
    omega

/-- The call renders the one text of the instruction, and the capacity cuts it off. -/
theorem formatInst_truncates {tables : TextTables} (hshort : tables.Short) (engine : Engine)
    (inst : Inst) : Truncates (instText tables engine inst) (formatInst tables engine inst) := by
  have hrender : formatInst tables engine inst = fun outText outCapacity =>
      ((Builder.init outText outCapacity).appendChars (instText tables engine inst)).finish := by
    funext outText outCapacity
    exact formatInst_eq tables engine inst outText outCapacity
  rw [hrender]
  exact truncates_finish (instText_length_lt hshort engine inst)

/-- The names of `lea` and of two registers. -/
def fewNames : TextTables where
  mnemonic _ _ := "lea"
  registerName _ id := if id = 1 then some "rax" else if id = 2 then some "rbx" else none
  operandInfo _ _ _ := none

def leaInst : Inst :=
  { arch := .x86, mode := .x86_64, address := 0x1000, size := 4, bytes := [0x48, 0x8d, 0x43, 0xf0]
    operands := [Operand.ofReg 1 64, { kind := .mem, mem := { base := 2, displacement := -16 }, width := 64 }] }

/-- Nine places keep eight characters of it. -/
theorem formatInst_truncates_lea :
    let out := formatInst fewNames x86Engine64 leaInst (some (List.replicate 9 'x')) 9
    out.required = 17 ∧ out.status = .outputTooSmall ∧
      out.outText = some ("lea rax,".toList ++ [Char.ofNat 0]) := by
  have hlea : "lea".toList.length < 2 ^ 24 := by decide
  have hshort : fewNames.Short := by
    refine ⟨fun _ _ => hlea, fun arch id name hname => ?_⟩
    simp only [fewNames, Option.mem_def] at hname
    split_ifs at hname <;> cases hname <;> decide
  have htext : instText fewNames x86Engine64 leaInst = "lea rax, [rbx-16]".toList := by decide
  have htruncates : Truncates "lea rax, [rbx-16]".toList (formatInst fewNames x86Engine64 leaInst) :=
    htext ▸ formatInst_truncates hshort x86Engine64 leaInst
  obtain ⟨hwritten, hout, hstatus⟩ := htruncates.stored (List.replicate 9 'x') 9 (by decide) (by decide)
  have hrequired := htruncates.required (some (List.replicate 9 'x')) 9 (by rintro _ ⟨⟩; decide)
  refine ⟨BitVec.eq_of_toNat_eq (hrequired.trans (by decide)), hstatus.trans (by decide), hout.trans ?_⟩
  rw [hwritten]
  decide

end AsmKit.Text
