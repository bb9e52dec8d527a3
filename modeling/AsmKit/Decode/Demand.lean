import AsmKit.Decode.Failure
import Mathlib.Data.List.GetD

/-!
# What the decoders ask for

ARM and AArch64 take a word, or two halfwords of Thumb. The size of a BPF instruction is known from
its first word. A WebAssembly instruction is known to end once its last operand is read.
-/

namespace AsmKit

/-! ## Words with rows -/

/-- The status of a failure. -/
def errorStatus : Except Status Inst → Option Status
  | .ok _ => none
  | .error status => some status

/-- The demand once a word is there: it stands when its row, if there is one, is taken. -/
def rowDemand (n : Nat) (found : Option (Except Status Inst)) : Demand :=
  match found.map errorStatus with
  | some (some .unsupportedFeature) => .refused
  | some (some _) => .rejected
  | _ => .size n

/-- A row fails for its operands or for its features. -/
def RowFails (found : Option (Except Status Inst)) : Prop :=
  ∀ status, found = some (.error status) → status = .decodeFailed ∨ status = .unsupportedFeature

theorem rowDemand_explains {length n : Nat} {found : Option (Except Status Inst)} (hlen : n ≤ length)
    (hfails : RowFails found) (inst : Inst) :
    Explains length (rowDemand n found) (found.getD (.ok inst)) := by
  rcases found with _ | status | made
  · exact explains_ok hlen
  · rcases hfails status rfl with rfl | rfl <;> rfl
  · exact explains_ok hlen

theorem rowDemand_congr {n : Nat} {found found' : Option (Except Status Inst)}
    (h : found.map errorStatus = found'.map errorStatus) : rowDemand n found = rowDemand n found' := by
  rw [rowDemand, rowDemand, h]

theorem governs_of_append {demand : List Byte → Demand} {decode : List Byte → Except Status Inst}
    (hexplains : ∀ code, Explains code.length (demand code) (decode code))
    (happend : ∀ code, demand code ≠ .unknown → ∀ tail, demand (code ++ tail) = demand code) :
    Demand.Governs demand (fun code => ∃ inst, decode code = .ok inst)
      (fun code => decode code = .error .unsupportedFeature) where
  accepts_iff code := (hexplains code).isOk_iff
  refuses_iff code := (hexplains code).refused_iff
  append_of_size code n hsize _ tail := by
    rw [happend code (by simp [hsize]), hsize]
  append_of_rejected code hrejected tail n := by
    rw [happend code (by simp [hrejected]), hrejected]
    simp

/-! ## ARM -/

namespace Arm

variable (tables : Tables) (engine : Engine) {code : List Byte} {address : BitVec 64}

theorem decodeTd_fails {word : BitVec 32} {find : Bool → Option Record} :
    RowFails (decodeTd tables engine code address word find) := by
  intro status h
  unfold decodeTd at h
  split at h
  · rw [Option.some_inj] at h
    unfold finishTd at h
    split at h
    · cases h
      exact .inl rfl
    · cases h
  split at h
  · cases h
    exact .inr rfl
  · cases h

theorem decodeTd_status (code code' : List Byte) (word : BitVec 32) (find : Bool → Option Record) :
    (decodeTd tables engine code address word find).map errorStatus =
      (decodeTd tables engine code' address word find).map errorStatus := by
  unfold decodeTd
  split
  · unfold finishTd
    split <;> rfl
  · split <;> rfl

theorem decodeThumb32Td_fails {w : BitVec 32} : RowFails (decodeThumb32Td tables engine code address w) := by
  intro status h
  simp only [decodeThumb32Td, Option.orElse_eq_orElse, Option.orElse_eq_or, Option.or_eq_some_iff] at h
  rcases h with h | ⟨-, h | ⟨-, h | ⟨-, h⟩⟩⟩
  · exact decodeTd_fails tables engine status h
  · obtain ⟨p, -, hp⟩ := List.exists_of_findSome?_eq_some h
    exact decodeTd_fails tables engine status hp
  · exact decodeTd_fails tables engine status h
  · exact decodeTd_fails tables engine status h

theorem decodeThumb32Td_status (code code' : List Byte) (w : BitVec 32) :
    (decodeThumb32Td tables engine code address w).map errorStatus =
      (decodeThumb32Td tables engine code' address w).map errorStatus := by
  simp only [decodeThumb32Td, Option.orElse_eq_orElse, Option.orElse_eq_or, Option.map_or,
    List.map_findSome?, Function.comp_def, decodeTd_status tables engine code code']

/-- The words that `arm_decode_a32` decodes by hand. -/
def isA32ByHand (w : BitVec 32) : Prop :=
  isA32Branch w ∨ w &&& 0x0ffffff0 = 0x012fff10 ∨ w &&& 0x0ffffff0 = 0x012fff30 ∨
    w &&& 0x0f7f0000 = 0x051f0000

/-- The halfwords that `arm_decode_thumb` decodes by hand. -/
def isThumbByHand (h1 : BitVec 16) : Prop :=
  (h1 &&& 0xff00 = 0xbf00 ∧ h1 &&& 0x000f ≠ 0) ∨ h1 &&& 0xf800 = 0xe000 ∨
    (h1 &&& 0xf000 = 0xd000 ∧ (h1 >>> 8) &&& 0x0f < 0x0e) ∨ h1 &&& 0xff80 = 0x4700 ∨
    h1 &&& 0xff80 = 0x4780

/-- The second halfword of `bl`, behind the first. -/
def isThumbBl (h1 h2 : BitVec 16) : Prop := h1 &&& 0xf800 = 0xf000 ∧ h2 &&& 0xd000 = 0xd000

instance (w : BitVec 32) : Decidable (isA32ByHand w) := inferInstanceAs (Decidable (_ ∨ _))
instance (h1 : BitVec 16) : Decidable (isThumbByHand h1) := inferInstanceAs (Decidable (_ ∨ _))
instance (h1 h2 : BitVec 16) : Decidable (isThumbBl h1 h2) := inferInstanceAs (Decidable (_ ∧ _))

def a32Demand (address : BitVec 64) (code : List Byte) : Demand :=
  let w := load32le code
  if code.length < 4 then .unknown
  else if isA32ByHand w then .size 4
  else rowDemand 4 (decodeTd tables engine code address w (findA32TdRecord tables engine w .any))

def thumb32Demand (address : BitVec 64) (code : List Byte) (h1 : BitVec 16) : Demand :=
  let h2 := load16le (code.drop 2)
  if code.length < 4 then .unknown
  else if isThumbBl h1 h2 then .size 4
  else rowDemand 4
    (decodeThumb32Td tables engine code address ((h1.setWidth 32 <<< 16) ||| h2.setWidth 32))

/-- A halfword from `0xe800` on asks for a second one. -/
def thumbDemand (address : BitVec 64) (code : List Byte) : Demand :=
  let h1 := load16le code
  if code.length < 2 then .unknown
  else if isThumbByHand h1 then .size 2
  else if 0xe800 ≤ h1 &&& 0xf800 then thumb32Demand tables engine address code h1
  else
    let word := h1.setWidth 32
    rowDemand 2 (decodeTd tables engine code address word (findThumbTdRecord tables engine word 2 .primary))

def demand (address : BitVec 64) (code : List Byte) : Demand :=
  match engine.config.mode with
  | .armThumb => thumbDemand tables engine address code
  | _ => a32Demand tables engine address code

theorem a32Demand_explains (code : List Byte) (address : BitVec 64) :
    Explains code.length (a32Demand tables engine address code) (decodeA32 tables engine code address) := by
  unfold a32Demand decodeA32
  simp only
  split
  · rfl
  next hlen =>
  have hle : 4 ≤ code.length := Nat.le_of_not_lt hlen
  by_cases hhand : isA32ByHand (load32le code)
  · rw [if_pos hhand]
    unfold isA32ByHand at hhand
    split_ifs
    · exact explains_ok hle
    · exact explains_ok hle
    · exact explains_ok hle
    · exact explains_ok hle
    · tauto
  · rw [if_neg hhand]
    simp only [isA32ByHand, not_or] at hhand
    obtain ⟨hb, hbx, hblx, hldr⟩ := hhand
    rw [if_neg hb, if_neg hbx, if_neg hblx, if_neg hldr]
    exact rowDemand_explains hle (decodeTd_fails tables engine) _

theorem thumb32Demand_explains (code : List Byte) (address : BitVec 64) (h1 : BitVec 16) :
    Explains code.length (thumb32Demand tables engine address code h1)
      (decodeThumb32 tables engine code address h1) := by
  unfold thumb32Demand decodeThumb32
  simp only
  split
  · rfl
  next hlen =>
  have hle : 4 ≤ code.length := Nat.le_of_not_lt hlen
  by_cases hbl : isThumbBl h1 (load16le (code.drop 2))
  · rw [if_pos hbl, if_pos (show _ ∧ _ from hbl)]
    exact explains_ok hle
  · rw [if_neg hbl, if_neg (show ¬ (_ ∧ _) from hbl)]
    exact rowDemand_explains hle (decodeThumb32Td_fails tables engine) _

theorem thumbDemand_explains (code : List Byte) (address : BitVec 64) :
    Explains code.length (thumbDemand tables engine address code) (decodeThumb tables engine code address) := by
  unfold thumbDemand decodeThumb
  simp only
  split
  · rfl
  next hlen =>
  have hle : 2 ≤ code.length := Nat.le_of_not_lt hlen
  by_cases hhand : isThumbByHand (load16le code)
  · rw [if_pos hhand]
    unfold isThumbByHand at hhand
    split_ifs
    · exact explains_ok hle
    · exact explains_ok hle
    · exact explains_ok hle
    · exact explains_ok hle
    · exact explains_ok hle
    all_goals tauto
  · rw [if_neg hhand]
    simp only [isThumbByHand, not_or] at hhand
    obtain ⟨hit, hb, hcond, hbx, hblx⟩ := hhand
    rw [if_neg hit, if_neg hb, if_neg hcond, if_neg hbx, if_neg hblx]
    split
    · exact thumb32Demand_explains tables engine code address _
    · exact rowDemand_explains hle (decodeTd_fails tables engine) _

theorem decodeOne_explained (harch : engine.target.arch = .arm) (code : List Byte) (address : BitVec 64) :
    Explains code.length (demand tables engine address code) (decodeOne tables engine code address) := by
  unfold demand decodeOne genDecodeOne
  rcases engine.mode_of_arm harch with hmode | hmode
  · simp only [hmode]
    exact (a32Demand_explains tables engine code address).map _
  · simp only [hmode]
    exact (thumbDemand_explains tables engine code address).map _

theorem demand_append (hknown : demand tables engine address code ≠ .unknown) (tail : List Byte) :
    demand tables engine address (code ++ tail) = demand tables engine address code := by
  have hword (hlen : 4 ≤ code.length) : load32le (code ++ tail) = load32le code := by
    simpa using load32le_append tail (show 0 + 4 ≤ code.length by omega)
  have hhalf (hlen : 2 ≤ code.length) : load16le (code ++ tail) = load16le code := by
    simpa using load16le_append tail (show 0 + 2 ≤ code.length by omega)
  have ha32 (hknown : a32Demand tables engine address code ≠ .unknown) :
      a32Demand tables engine address (code ++ tail) = a32Demand tables engine address code := by
    unfold a32Demand at hknown ⊢
    simp only at hknown ⊢
    split at hknown
    · exact absurd rfl hknown
    next hlen =>
    rw [List.length_append, if_neg (by omega), if_neg hlen, hword (by omega)]
    split
    · rfl
    · exact rowDemand_congr (decodeTd_status tables engine _ _ _ _)
  have hthumb32 (h1 : BitVec 16) (hknown : thumb32Demand tables engine address code h1 ≠ .unknown) :
      thumb32Demand tables engine address (code ++ tail) h1 = thumb32Demand tables engine address code h1 := by
    unfold thumb32Demand at hknown ⊢
    simp only at hknown ⊢
    split at hknown
    · exact absurd rfl hknown
    next hlen =>
    rw [List.length_append, if_neg (by omega), if_neg hlen, load16le_append tail (by omega)]
    split
    · rfl
    · exact rowDemand_congr (decodeThumb32Td_status tables engine _ _ _)
  have hthumb (hknown : thumbDemand tables engine address code ≠ .unknown) :
      thumbDemand tables engine address (code ++ tail) = thumbDemand tables engine address code := by
    unfold thumbDemand at hknown ⊢
    simp only at hknown ⊢
    split at hknown
    · exact absurd rfl hknown
    next hlen =>
    rw [List.length_append, if_neg (by omega), if_neg hlen, hhalf (by omega)]
    split
    · rfl
    next hhand =>
    rw [if_neg hhand] at hknown
    split
    · next hwide =>
      rw [if_pos hwide] at hknown
      exact hthumb32 _ hknown
    · exact rowDemand_congr (decodeTd_status tables engine _ _ _ _)
  unfold demand at hknown ⊢
  split
  · next hmode =>
    simp only [hmode] at hknown
    exact hthumb hknown
  · next hmode =>
    split at hknown
    · contradiction
    · exact ha32 hknown

theorem governs (harch : engine.target.arch = .arm) (address : BitVec 64) :
    Demand.Governs (demand tables engine address)
      (fun code => ∃ inst, decodeOne tables engine code address = .ok inst)
      (fun code => decodeOne tables engine code address = .error .unsupportedFeature) :=
  governs_of_append (fun code => decodeOne_explained tables engine harch code address)
    fun _ hknown tail => demand_append tables engine hknown tail

end Arm

/-! ## AArch64 -/

namespace A64

variable (tables : Tables) (engine : Engine) {code : List Byte} {address : BitVec 64}

/-- The row of a word, else what the rows without their features mean. -/
def decodeTd (code : List Byte) (address : BitVec 64) : Option (Except Status Inst) :=
  match findTdRecord tables engine (load32le code) true with
  | some record => some (finishTd tables engine code address record)
  | none =>
    if (findTdRecord tables engine (load32le code) false).isSome then some (.error .unsupportedFeature)
    else none

/-- The words of `bti`. -/
def isBti (w : BitVec 32) : Prop := w = 0xd503241f ∨ w = 0xd503245f ∨ w = 0xd503249f ∨ w = 0xd50324df

instance (w : BitVec 32) : Decidable (isBti w) := inferInstanceAs (Decidable (_ ∨ _))

def demand (address : BitVec 64) (code : List Byte) : Demand :=
  if code.length < 4 then .unknown
  else if isBti (load32le code) then
    if engine.featureEnabled featureBranchTargetId then .size 4 else .refused
  else rowDemand 4 (decodeTd tables engine code address)

theorem decodeOne_explained (hmode : engine.config.mode = .aarch64) (code : List Byte)
    (address : BitVec 64) :
    Explains code.length (demand tables engine address code) (decodeOne tables engine code address) := by
  unfold demand decodeOne
  simp only [hmode, ne_eq, not_true_eq_false, false_or]
  split
  · rfl
  next hlen =>
  have hle : 4 ≤ code.length := Nat.le_of_not_lt hlen
  split
  · next hbti =>
    rw [if_pos (show _ ∨ _ from hbti)]
    cases engine.featureEnabled featureBranchTargetId with
    | true => exact explains_ok hle
    | false => rfl
  · next hbti =>
    rw [if_neg (show ¬ (_ ∨ _) from hbti)]
    have hfails : RowFails (decodeTd tables engine code address) := by
      intro status h
      unfold decodeTd at h
      split at h
      · rw [Option.some_inj] at h
        simp only [finishTd] at h
        split at h
        · cases h
          exact .inl rfl
        · cases h
      split at h
      · cases h
        exact .inr rfl
      · cases h
    have hrow := rowDemand_explains hle hfails (decodeFallback engine code address (load32le code))
    unfold decodeTd at hrow ⊢
    cases hfind : findTdRecord tables engine (load32le code) true with
    | some record =>
      simp only [hfind] at hrow
      exact hrow
    | none =>
      simp only [hfind] at hrow ⊢
      cases hblocked : (findTdRecord tables engine (load32le code) false).isSome with
      | true =>
        simp only [hblocked] at hrow
        exact hrow
      | false =>
        simp only [hblocked] at hrow
        exact hrow

theorem demand_append (hknown : demand tables engine address code ≠ .unknown) (tail : List Byte) :
    demand tables engine address (code ++ tail) = demand tables engine address code := by
  unfold demand at hknown ⊢
  split at hknown
  · exact absurd rfl hknown
  next hlen =>
  have hword : load32le (code ++ tail) = load32le code := by
    simpa using load32le_append tail (show 0 + 4 ≤ code.length by omega)
  rw [List.length_append, if_neg (by omega), if_neg hlen, hword]
  split
  · rfl
  · refine rowDemand_congr ?_
    unfold decodeTd finishTd
    rw [hword]
    split
    · simp only
      split <;> rfl
    · split <;> rfl

theorem governs (hmode : engine.config.mode = .aarch64) (address : BitVec 64) :
    Demand.Governs (demand tables engine address)
      (fun code => ∃ inst, decodeOne tables engine code address = .ok inst)
      (fun code => decodeOne tables engine code address = .error .unsupportedFeature) :=
  governs_of_append (fun code => decodeOne_explained tables engine hmode code address)
    fun _ hknown tail => demand_append tables engine hknown tail

end A64

/-! ## BPF -/

namespace Bpf

variable (records : List Record) (engine : Engine) {code : List Byte} {address : BitVec 64}

def demand (code : List Byte) : Demand :=
  if code.length < 8 then .unknown
  else match findRecord records engine code with
    | some record => .size record.size
    | none => if records.any (·.matches code) then .refused else .size (fallbackSize code)

theorem matches_append (record : Record) (hlen : 8 ≤ code.length) (tail : List Byte) :
    record.matches (code ++ tail) = record.matches code := by
  unfold Record.matches src off imm
  rw [List.getD_append _ _ _ _ (by omega), List.getD_append _ _ _ _ (by omega),
    load16le_append tail (by omega), load32le_append tail (by omega)]

theorem demand_append (hlen : 8 ≤ code.length) (tail : List Byte) :
    demand records engine (code ++ tail) = demand records engine code := by
  unfold demand findRecord fallbackSize
  simp only [matches_append _ hlen, List.length_append]
  rw [if_neg (show ¬ code.length + tail.length < 8 by omega), if_neg (show ¬ code.length < 8 by omega),
    List.getD_append _ _ _ _ (by omega)]

theorem decodeOne_explained (hmode : engine.config.mode = .bpf64) (address : BitVec 64) :
    Explains code.length (demand records engine code) (decodeOne records engine code address) := by
  unfold decodeOne demand
  simp only [hmode, ne_eq, not_true_eq_false, false_or]
  split
  · rfl
  cases findRecord records engine code with
  | some record => exact explains_ite
  | none =>
    simp only
    split
    · rfl
    · exact explains_ite

theorem governs (hmode : engine.config.mode = .bpf64) (address : BitVec 64) :
    Demand.Governs (demand records engine)
      (fun code => ∃ inst, decodeOne records engine code address = .ok inst)
      (fun code => decodeOne records engine code address = .error .unsupportedFeature) where
  accepts_iff _ := (decodeOne_explained records engine hmode address).isOk_iff
  refuses_iff _ := (decodeOne_explained records engine hmode address).refused_iff
  append_of_size code n hsize _ tail := by
    have hlen : 8 ≤ code.length := by
      by_contra hshort
      simp [demand, Nat.lt_of_not_le hshort] at hsize
    rw [demand_append records engine hlen, hsize]
  append_of_rejected code hrejected := by
    simp only [demand] at hrejected
    split at hrejected
    · cases hrejected
    split at hrejected
    · cases hrejected
    split at hrejected <;> cases hrejected

end Bpf

/-! ## WebAssembly -/

namespace Wasm

variable {code : List Byte} {off : Nat}

/-! ### Numbers -/

theorem readUleb32_append (hcut : Leb128.cut code 5 off = false) (tail : List Byte) :
    readUleb32 (code ++ tail) off = readUleb32 code off := by
  rw [readUleb32, Leb128.read_append hcut, readUleb32]

theorem readSleb64_append (hcut : Leb128.cut code 10 off = false) (tail : List Byte) :
    readSleb64 (code ++ tail) off = readSleb64 code off := by
  rw [readSleb64, Leb128.read_append hcut, readSleb64]

theorem readUleb32_bound {value : BitVec 32} {next : Nat} (h : readUleb32 code off = some (value, next)) :
    Leb128.cut code 5 off = false ∧ next ≤ code.length := by
  obtain ⟨number, hread, heq⟩ := Option.map_eq_some_iff.1 h
  cases heq
  exact ⟨Leb128.cut_of_read hread, Leb128.next_le_length hread⟩

theorem readSleb64_bound {value : BitVec 64} {next : Nat} (h : readSleb64 code off = some (value, next)) :
    Leb128.cut code 10 off = false ∧ next ≤ code.length := by
  obtain ⟨number, hread, heq⟩ := Option.map_eq_some_iff.1 h
  cases heq
  exact ⟨Leb128.cut_of_read hread, Leb128.next_le_length hread⟩

/-! ### Operands -/

/-- The code ends inside the operand. -/
def operandCut (code : List Byte) (off : Nat) : OperandCode → Bool
  | .blocktype | .immByte => code.length ≤ off
  | .indexUleb | .immUleb => Leb128.cut code 5 off
  | .immSleb32 | .immSleb64 => Leb128.cut code 10 off
  | .immF32 => code.length < off + 4
  | .immF64 => code.length < off + 8
  | .none => false

/-- The code ends inside one of the operands. -/
def operandsCut (code : List Byte) : List OperandCode → Nat → Bool
  | [], _ => false
  | operandCode :: operandCodes, off =>
    operandCut code off operandCode ||
      match decodeOperand code off operandCode with
      | none => false
      | some (_, next) => operandsCut code operandCodes next

theorem decodeOperand_append {operandCode : OperandCode} (hcut : operandCut code off operandCode = false)
    (tail : List Byte) : decodeOperand (code ++ tail) off operandCode = decodeOperand code off operandCode := by
  cases operandCode <;> simp only [operandCut, decide_eq_false_iff_not, not_le, not_lt] at hcut
  case none => rfl
  case blocktype | immByte =>
    simp only [decodeOperand, List.length_append]
    rw [if_neg (by omega), if_neg (by omega), List.getD_append _ _ _ _ hcut]
  case indexUleb | immUleb => simp only [decodeOperand, readUleb32_append hcut]
  case immSleb32 | immSleb64 => simp only [decodeOperand, readSleb64_append hcut]
  case immF32 =>
    simp only [decodeOperand, List.length_append]
    rw [if_neg (by omega), if_neg (by omega), load32le_append tail hcut]
  case immF64 =>
    simp only [decodeOperand, List.length_append]
    rw [if_neg (by omega), if_neg (by omega), load64le_append tail hcut]

theorem decodeOperand_bound {operandCode : OperandCode} {operand : Operand} {next : Nat}
    (h : decodeOperand code off operandCode = some (operand, next)) :
    operandCut code off operandCode = false ∧ next ≤ code.length := by
  cases operandCode <;> simp only [decodeOperand] at h
  case none => cases h
  case blocktype | immByte =>
    split at h
    · cases h
    · cases h
      simp only [operandCut, decide_eq_false_iff_not]
      omega
  case indexUleb | immUleb =>
    obtain ⟨⟨value, stop⟩, hread, heq⟩ := Option.map_eq_some_iff.1 h
    cases heq
    exact readUleb32_bound hread
  case immSleb32 =>
    obtain ⟨⟨value, stop⟩, hread, heq⟩ := Option.map_eq_some_iff.1 h
    cases heq
    exact readSleb64_bound (Option.filter_eq_some_iff.1 hread).1
  case immSleb64 =>
    obtain ⟨⟨value, stop⟩, hread, heq⟩ := Option.map_eq_some_iff.1 h
    cases heq
    exact readSleb64_bound hread
  case immF32 | immF64 =>
    split at h
    · cases h
    · cases h
      simp only [operandCut, decide_eq_false_iff_not]
      omega

theorem decodeOperands_append {operandCodes : List OperandCode} {index : Nat}
    (hcut : operandsCut code operandCodes off = false) (tail : List Byte) :
    decodeOperands (code ++ tail) operandCodes index off = decodeOperands code operandCodes index off := by
  induction operandCodes generalizing index off with
  | nil => rfl
  | cons operandCode operandCodes ih =>
    simp only [operandsCut, Bool.or_eq_false_iff] at hcut
    simp only [decodeOperands, decodeOperand_append hcut.1]
    cases hoperand : decodeOperand code off operandCode with
    | none => rfl
    | some found =>
      simp only [hoperand] at hcut
      simp only [ih hcut.2]

theorem operandCut_append {operandCode : OperandCode} (hcut : operandCut code off operandCode = false)
    (tail : List Byte) : operandCut (code ++ tail) off operandCode = false := by
  cases operandCode <;>
    simp only [operandCut, decide_eq_false_iff_not, not_le, not_lt, List.length_append] at hcut ⊢
  case indexUleb | immUleb | immSleb32 | immSleb64 => exact Leb128.cut_append hcut tail
  all_goals omega

theorem operandsCut_append {operandCodes : List OperandCode}
    (hcut : operandsCut code operandCodes off = false) (tail : List Byte) :
    operandsCut (code ++ tail) operandCodes off = false := by
  induction operandCodes generalizing off with
  | nil => rfl
  | cons operandCode operandCodes ih =>
    simp only [operandsCut, Bool.or_eq_false_iff] at hcut ⊢
    refine ⟨operandCut_append hcut.1 tail, ?_⟩
    rw [decodeOperand_append hcut.1]
    cases hoperand : decodeOperand code off operandCode with
    | none => rfl
    | some found =>
      simp only [hoperand] at hcut
      exact ih hcut.2

theorem decodeOperands_bound {operandCodes : List OperandCode} {index stop : Nat} {operands : List Operand}
    (hoff : off ≤ code.length) (h : decodeOperands code operandCodes index off = some (operands, stop)) :
    operandsCut code operandCodes off = false ∧ stop ≤ code.length := by
  induction operandCodes generalizing index off operands with
  | nil =>
    cases h
    exact ⟨rfl, hoff⟩
  | cons operandCode operandCodes ih =>
    simp only [decodeOperands] at h
    cases hoperand : decodeOperand code off operandCode with
    | none => simp [hoperand] at h
    | some found =>
      obtain ⟨operand, next⟩ := found
      simp only [hoperand] at h
      obtain ⟨⟨rest, stop'⟩, hrest, heq⟩ := Option.map_eq_some_iff.1 h
      cases heq
      obtain ⟨hcut, hnext⟩ := decodeOperand_bound hoperand
      obtain ⟨hcuts, hstop⟩ := ih hnext hrest
      exact ⟨by simp [operandsCut, hcut, hoperand, hcuts], hstop⟩

/-! ### The instruction -/

/-- The code ends inside the opcode. -/
def opcodeCut (code : List Byte) : Bool := isPrefix (code.getD 0 0) && Leb128.cut code 5 1

theorem parseOpcode_append (hpos : 0 < code.length) (hcut : opcodeCut code = false) (tail : List Byte) :
    parseOpcode (code ++ tail) = parseOpcode code := by
  unfold parseOpcode
  simp only [List.getD_append _ _ _ _ hpos]
  split
  · next hprefix =>
    rw [opcodeCut, hprefix, Bool.true_and] at hcut
    rw [readUleb32_append hcut]
  · rfl

theorem opcodeCut_append (hpos : 0 < code.length) (hcut : opcodeCut code = false) (tail : List Byte) :
    opcodeCut (code ++ tail) = false := by
  rw [opcodeCut, List.getD_append _ _ _ _ hpos]
  cases hprefix : isPrefix (code.getD 0 0) with
  | false => rfl
  | true =>
    rw [opcodeCut, hprefix, Bool.true_and] at hcut
    rw [Bool.true_and, Leb128.cut_append hcut]

theorem parseOpcode_bound {prefixByte : Byte} {opcode : BitVec 32} (hpos : 0 < code.length)
    (h : parseOpcode code = some (prefixByte, opcode, off)) : opcodeCut code = false ∧ off ≤ code.length := by
  unfold parseOpcode at h
  simp only at h
  split at h
  · next hprefix =>
    obtain ⟨⟨value, next⟩, hread, heq⟩ := Option.map_eq_some_iff.1 h
    cases heq
    obtain ⟨hcut, hnext⟩ := readUleb32_bound hread
    exact ⟨by rw [opcodeCut, hcut, Bool.and_false], hnext⟩
  · next hprefix =>
    cases h
    rw [Bool.not_eq_true] at hprefix
    exact ⟨by rw [opcodeCut, hprefix, Bool.false_and], hpos⟩

variable (rows : Rows) (engine : Engine) {address : BitVec 64}

/-- The demand behind an opcode. -/
def opcodeDemand (code : List Byte) (prefixByte : Byte) (opcode : BitVec 32) (off : Nat) : Demand :=
  match findRecord (rows prefixByte opcode) engine with
  | some record =>
    match decodeOperands code record.operandCodes 0 off with
    | some (_, stop) => .size stop
    | none => if operandsCut code record.operandCodes off then .unknown else .rejected
  | none => if sawFeatureBlocked (rows prefixByte opcode) engine then .refused else .size off

def demand (code : List Byte) : Demand :=
  if code.length = 0 then .unknown
  else match parseOpcode code with
    | none => if opcodeCut code then .unknown else .rejected
    | some (prefixByte, opcode, off) => opcodeDemand rows engine code prefixByte opcode off

theorem opcodeDemand_bound {prefixByte : Byte} {opcode : BitVec 32} {n : Nat} (hoff : off ≤ code.length)
    (h : opcodeDemand rows engine code prefixByte opcode off = .size n) : n ≤ code.length := by
  unfold opcodeDemand at h
  split at h
  · split at h
    · next hoperands =>
      cases h
      exact (decodeOperands_bound hoff hoperands).2
    · split at h <;> cases h
  · split at h
    · cases h
    · cases h
      exact hoff

theorem demand_bound {n : Nat} (h : demand rows engine code = .size n) : n ≤ code.length := by
  unfold demand at h
  split at h
  · cases h
  split at h
  · split at h <;> cases h
  · next hlen _ _ _ _ hparse =>
    exact opcodeDemand_bound rows engine (parseOpcode_bound (Nat.pos_of_ne_zero hlen) hparse).2 h

theorem decodeOpcode_explained {prefixByte : Byte} {opcode : BitVec 32} (hoff : off ≤ code.length)
    (address : BitVec 64) :
    Explains code.length (opcodeDemand rows engine code prefixByte opcode off)
      (decodeOpcode rows engine code address prefixByte opcode off) := by
  unfold opcodeDemand decodeOpcode
  cases findRecord (rows prefixByte opcode) engine with
  | some record =>
    simp only
    cases hoperands : decodeOperands code record.operandCodes 0 off with
    | some found => exact explains_ok (decodeOperands_bound hoff hoperands).2
    | none => cases hcut : operandsCut code record.operandCodes off <;> simp [Explains]
  | none =>
    cases hblocked : sawFeatureBlocked (rows prefixByte opcode) engine with
    | true => simp [Explains]
    | false => exact explains_ok hoff

theorem decodeOne_explained (hmode : engine.config.mode = .wasm32 ∨ engine.config.mode = .wasm64)
    (address : BitVec 64) :
    Explains code.length (demand rows engine code) (decodeOne rows engine code address) := by
  unfold demand decodeOne
  have hwasm : ¬ (engine.config.mode ≠ .wasm32 ∧ engine.config.mode ≠ .wasm64) := by
    rcases hmode with hmode | hmode <;> simp [hmode]
  split
  · next hlen =>
    rw [if_pos (.inr hlen)]
    rfl
  next hlen =>
  rw [if_neg (not_or.2 ⟨hwasm, hlen⟩)]
  cases hparse : parseOpcode code with
  | none => cases hcut : opcodeCut code <;> simp [Explains]
  | some found =>
    exact decodeOpcode_explained rows engine (parseOpcode_bound (Nat.pos_of_ne_zero hlen) hparse).2 address

theorem demand_append_of_rejected (hrejected : demand rows engine code = .rejected) (tail : List Byte) :
    demand rows engine (code ++ tail) = .rejected := by
  unfold demand at hrejected ⊢
  split at hrejected
  · cases hrejected
  next hlen =>
  have hpos : 0 < code.length := Nat.pos_of_ne_zero hlen
  rw [if_neg (by rw [List.length_append]; omega)]
  cases hparse : parseOpcode code with
  | none =>
    simp only [hparse] at hrejected
    split at hrejected
    · cases hrejected
    · next hcut =>
      rw [Bool.not_eq_true] at hcut
      simp [parseOpcode_append hpos hcut, hparse, opcodeCut_append hpos hcut]
  | some found =>
    obtain ⟨prefixByte, opcode, off⟩ := found
    rw [parseOpcode_append hpos (parseOpcode_bound hpos hparse).1, hparse]
    simp only [hparse] at hrejected ⊢
    unfold opcodeDemand at hrejected ⊢
    cases hfind : findRecord (rows prefixByte opcode) engine with
    | some record =>
      simp only [hfind] at hrejected
      split at hrejected
      · cases hrejected
      · next hoperands =>
        split at hrejected
        · cases hrejected
        · next hcut =>
          rw [Bool.not_eq_true] at hcut
          simp [decodeOperands_append hcut, hoperands, operandsCut_append hcut]
    | none =>
      simp only [hfind] at hrejected
      split at hrejected <;> cases hrejected

theorem governs (hmode : engine.config.mode = .wasm32 ∨ engine.config.mode = .wasm64)
    (address : BitVec 64) :
    Demand.Governs (demand rows engine)
      (fun code => ∃ inst, decodeOne rows engine code address = .ok inst)
      (fun code => decodeOne rows engine code address = .error .unsupportedFeature) where
  accepts_iff _ := (decodeOne_explained rows engine hmode address).isOk_iff
  refuses_iff _ := (decodeOne_explained rows engine hmode address).refused_iff
  append_of_size code n hsize hlt := absurd (demand_bound rows engine hsize) (Nat.not_le.2 hlt)
  append_of_rejected code hrejected tail n hsize := by
    rw [demand_append_of_rejected rows engine hrejected] at hsize
    cases hsize

end Wasm

end AsmKit
