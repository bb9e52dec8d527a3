import AsmKit.Wasm.Encode

/-!
# WebAssembly immediates, written and read

What the decoder makes of an operand that was written: the operand in the form in which the decoder
states it.
-/

namespace AsmKit.Wasm

variable {code tail : List Byte} {off next stop n i : Nat} {operandCode : OperandCode}
  {operand : Operand} {operands rest : List Operand} {operandCodes : List OperandCode}

/-! ## Numbers -/

theorem readUleb32_write {value : BitVec 32} (hdrop : code.drop off = Leb128.write 32 5 value ++ tail) :
    readUleb32 code off = some (value, off + Leb128.size 32 5 value) := by
  obtain ⟨number, hread, hvalue, hnext⟩ := Leb128.read_write 0 0 (by omega)
    (le_refl 5) (Leb128.fits_of_le (by omega)) hdrop
  rw [readUleb32, hread, Option.map_some, hvalue, hnext, Leb128.length_write (by omega)]
  simp

theorem readUleb32_size {value : BitVec 32} (hread : readUleb32 code off = some (value, next)) :
    off + Leb128.size 32 5 value ≤ next := by
  obtain ⟨number, hnumber, heq⟩ := Option.map_eq_some_iff.1 hread
  obtain ⟨k, hk, hin⟩ := Leb128.readIn_of_read hnumber
  cases heq
  have hlen := Leb128.length_write_le (n := 5) hk hin.fits
  rw [Leb128.length_write (by omega)] at hlen
  have hnext := hin.next
  omega

theorem signExtended_eq (number : Leb128.Number 64) : signExtended number = number.extended := rfl

theorem readSleb64_write {value : BitVec 64}
    (hdrop : code.drop off = Leb128.writeSigned 64 10 value ++ tail) :
    readSleb64 code off = some (value, off + Leb128.sizeSigned 64 10 value) := by
  obtain ⟨number, hread, hnumber, -⟩ := Leb128.read_writeSigned 0 0 (by omega)
    (by omega) (le_refl 10) (Leb128.fitsSigned_of_le (by omega)) hdrop
  rw [readSleb64, hread, Option.map_some, signExtended_eq, hnumber.extended, hnumber.next,
    Leb128.length_writeSigned]

theorem readSleb64_size {value : BitVec 64} (hread : readSleb64 code off = some (value, next)) :
    off + Leb128.sizeSigned 64 10 value ≤ next := by
  obtain ⟨number, hnumber, heq⟩ := Option.map_eq_some_iff.1 hread
  obtain ⟨k, hk, hin⟩ := Leb128.readIn_of_read hnumber
  cases heq
  have hlen := Leb128.length_writeSigned_le (n := 10) (by omega) hk (hin.fitsSigned hk)
  rw [Leb128.length_writeSigned] at hlen
  rw [signExtended_eq]
  have hnext := hin.next
  omega

theorem setWidth_half {value : BitVec 64} (hfits : ¬ (value.toInt < 0 ∨ 0xffffffff < value.toInt)) :
    (value.setWidth 32).setWidth 64 = value := by
  have hnat : value.toNat < 2 ^ 32 := by
    rw [BitVec.toInt_eq_toNat_cond] at hfits
    split at hfits <;> omega
  apply BitVec.eq_of_toNat_eq
  rw [BitVec.toNat_setWidth, BitVec.toNat_setWidth]
  omega

theorem half_fits (value : BitVec 32) :
    ¬ ((value.setWidth 64).toInt < 0 ∨ 0xffffffff < (value.setWidth 64).toInt) := by
  have hlt := value.isLt
  rw [BitVec.toInt_eq_toNat_cond, BitVec.toNat_setWidth]
  split <;> omega

/-! ## Bytes -/

theorem setWidth_signExtend (b : Byte) : (b.signExtend 64).setWidth 8 = b := by
  apply BitVec.eq_of_getLsbD_eq
  intro i hi
  rw [BitVec.getLsbD_setWidth, BitVec.getLsbD_signExtend]
  simp [hi, show i < 64 by omega]

theorem byte_of_drop {b : Byte} (hdrop : code.drop off = b :: tail) :
    off < code.length ∧ code.getD off 0 = b := by
  have hbyte := (Leb128.getElem?_of_drop hdrop).1
  refine ⟨(List.getElem?_eq_some_iff.1 hbyte).1, ?_⟩
  rw [List.getD_eq_getElem?_getD, hbyte]
  rfl

theorem length_of_drop {bytes : List Byte} (hdrop : code.drop off = bytes ++ tail) (hpos : 0 < bytes.length) :
    off + bytes.length ≤ code.length := by
  have hlen := congrArg List.length hdrop
  rw [List.length_drop, List.length_append] at hlen
  omega

/-! ## One operand -/

/-- What the decoder makes of the operand after it was written. -/
def readBack (operand : Operand) : OperandCode → Operand
  | .blocktype => { kind := .wasmBlocktype, imm := (operand.imm.setWidth 8).signExtend 64, width := 8 }
  | .indexUleb => { kind := .wasmIndex, imm := operand.imm, width := 32 }
  | .immUleb | .immSleb32 => Operand.ofImm operand.imm 32
  | .immSleb64 | .immF64 => Operand.ofImm operand.imm 64
  | .immByte => Operand.ofImm ((operand.imm.setWidth 8).setWidth 64) 8
  | .immF32 => Operand.ofImm ((operand.imm.setWidth 32).setWidth 64) 32
  | .none => .empty

theorem decodeOperand_writeOperand (hsize : operandEncodedSize operand operandCode = some n)
    (hdrop : code.drop off = writeOperand operand operandCode ++ tail) :
    decodeOperand code off operandCode = some (readBack operand operandCode, off + n) ∧
      (writeOperand operand operandCode).length = n := by
  cases operandCode with
  | blocktype =>
    obtain ⟨-, ⟨⟩⟩ := Option.ite_none_left_eq_some.1 hsize
    obtain ⟨hlt, hbyte⟩ := byte_of_drop hdrop
    refine ⟨?_, rfl⟩
    rw [decodeOperand, if_neg (Nat.not_le.2 hlt), hbyte]
    rfl
  | immByte =>
    obtain ⟨-, ⟨⟩⟩ := Option.ite_none_left_eq_some.1 hsize
    obtain ⟨hlt, hbyte⟩ := byte_of_drop hdrop
    refine ⟨?_, rfl⟩
    rw [decodeOperand, if_neg (Nat.not_le.2 hlt), hbyte]
    rfl
  | indexUleb =>
    obtain ⟨hfits, ⟨⟩⟩ := Option.ite_none_left_eq_some.1 hsize
    refine ⟨?_, Leb128.length_write (by omega) 5 _⟩
    simp only [decodeOperand, readUleb32_write hdrop, Option.map_some, setWidth_half hfits, readBack]
  | immUleb =>
    obtain ⟨hfits, ⟨⟩⟩ := Option.ite_none_left_eq_some.1 hsize
    refine ⟨?_, Leb128.length_write (by omega) 5 _⟩
    simp only [decodeOperand, readUleb32_write hdrop, Option.map_some, setWidth_half hfits, readBack]
  | immSleb32 =>
    obtain ⟨hfits, ⟨⟩⟩ := Option.ite_none_left_eq_some.1 hsize
    refine ⟨?_, Leb128.length_writeSigned 10 _⟩
    rw [Bool.not_eq_true, Bool.not_eq_false'] at hfits
    rw [decodeOperand, readSleb64_write hdrop, Option.filter_some, if_pos hfits, Option.map_some]
    rfl
  | immSleb64 =>
    cases hsize
    refine ⟨?_, Leb128.length_writeSigned 10 _⟩
    rw [decodeOperand, readSleb64_write hdrop, Option.map_some]
    rfl
  | immF32 =>
    cases hsize
    refine ⟨?_, rfl⟩
    have hlen := length_of_drop hdrop (by simp [writeOperand])
    rw [writeOperand, store32le_length] at hlen
    rw [decodeOperand, if_neg (Nat.not_lt.2 hlen), hdrop, writeOperand, load32le_store32le]
    rfl
  | immF64 =>
    cases hsize
    refine ⟨?_, rfl⟩
    have hlen := length_of_drop hdrop (by simp [writeOperand])
    rw [writeOperand, store64le_length] at hlen
    rw [decodeOperand, if_neg (Nat.not_lt.2 hlen), hdrop, writeOperand, load64le_store64le]
    rfl
  | none => cases hsize

/-- A decoded operand can be written, in no more bytes than it was read from, and reads back. -/
theorem operandEncodedSize_of_decode (hdec : decodeOperand code off operandCode = some (operand, next)) :
    ∃ n, operandEncodedSize operand operandCode = some n ∧ off + n ≤ next ∧
      readBack operand operandCode = operand := by
  cases operandCode with
  | blocktype =>
    obtain ⟨-, ⟨⟩⟩ := Option.ite_none_left_eq_some.1 hdec
    refine ⟨1, if_neg ?_, le_rfl, ?_⟩
    · rw [BitVec.toInt_signExtend_of_le (by omega)]
      have := BitVec.toInt_lt (x := code.getD off 0)
      have := BitVec.le_toInt (x := code.getD off 0)
      omega
    · simp only [readBack, setWidth_signExtend]
  | immByte =>
    obtain ⟨-, ⟨⟩⟩ := Option.ite_none_left_eq_some.1 hdec
    refine ⟨1, if_neg ?_, le_rfl, ?_⟩
    · have hlt := (code.getD off 0).isLt
      rw [Operand.ofImm, BitVec.toInt_eq_toNat_cond, BitVec.toNat_setWidth]
      split <;> omega
    · simp [readBack, Operand.ofImm]
  | indexUleb =>
    obtain ⟨⟨value, stop⟩, hread, ⟨⟩⟩ := Option.map_eq_some_iff.1 hdec
    refine ⟨_, if_neg (half_fits value), ?_, rfl⟩
    rw [BitVec.setWidth_setWidth_of_le _ (by omega), BitVec.setWidth_eq]
    exact readUleb32_size hread
  | immUleb =>
    obtain ⟨⟨value, stop⟩, hread, ⟨⟩⟩ := Option.map_eq_some_iff.1 hdec
    refine ⟨_, if_neg (half_fits value), ?_, rfl⟩
    rw [Operand.ofImm, BitVec.setWidth_setWidth_of_le _ (by omega), BitVec.setWidth_eq]
    exact readUleb32_size hread
  | immSleb32 =>
    obtain ⟨⟨value, stop⟩, hread, ⟨⟩⟩ := Option.map_eq_some_iff.1 hdec
    obtain ⟨hread, hfits⟩ := Option.filter_eq_some_iff.1 hread
    refine ⟨_, if_neg ?_, readSleb64_size hread, rfl⟩
    rw [Bool.not_eq_true, Bool.not_eq_false']
    exact hfits
  | immSleb64 =>
    obtain ⟨⟨value, stop⟩, hread, ⟨⟩⟩ := Option.map_eq_some_iff.1 hdec
    exact ⟨_, rfl, readSleb64_size hread, rfl⟩
  | immF32 =>
    obtain ⟨-, ⟨⟩⟩ := Option.ite_none_left_eq_some.1 hdec
    refine ⟨4, rfl, le_rfl, ?_⟩
    simp [readBack, Operand.ofImm]
  | immF64 =>
    obtain ⟨-, ⟨⟩⟩ := Option.ite_none_left_eq_some.1 hdec
    exact ⟨8, rfl, le_rfl, rfl⟩
  | none => cases hdec

theorem writeOperand_readBack (operand : Operand) (operandCode : OperandCode) :
    writeOperand (readBack operand operandCode) operandCode = writeOperand operand operandCode := by
  cases operandCode with
  | blocktype => simp only [writeOperand, readBack, setWidth_signExtend]
  | immByte | immF32 => simp [writeOperand, readBack, Operand.ofImm]
  | indexUleb | immUleb | immSleb32 | immSleb64 | immF64 | none => rfl

/-! ## All operands -/

/-- The operands from place `i` on, as they are read back. -/
def readBackAll (operands : List Operand) : List OperandCode → Nat → List Operand
  | [], _ => []
  | code :: codes, i =>
    (readBack (operandAt operands code i) code).atIndex i :: readBackAll operands codes (i + 1)

theorem decodeOperands_writeOperands (hsize : operandsSize operands operandCodes i = some n)
    (hdrop : code.drop off = writeOperands operands operandCodes i ++ tail) :
    decodeOperands code operandCodes i off = some (readBackAll operands operandCodes i, off + n) ∧
      (writeOperands operands operandCodes i).length = n := by
  induction operandCodes generalizing i off n with
  | nil =>
    cases hsize
    exact ⟨rfl, rfl⟩
  | cons operandCode operandCodes ih =>
    simp only [operandsSize] at hsize
    cases hfirst : operandEncodedSize (operandAt operands operandCode i) operandCode with
    | none => simp [hfirst] at hsize
    | some size =>
      simp only [hfirst] at hsize
      obtain ⟨m, hrest, ⟨⟩⟩ := Option.map_eq_some_iff.1 hsize
      simp only [writeOperands, List.append_assoc] at hdrop
      obtain ⟨hdec, hlen⟩ := decodeOperand_writeOperand hfirst hdrop
      have hnext : code.drop (off + size) = writeOperands operands operandCodes (i + 1) ++ tail := by
        rw [← List.drop_drop, hdrop, ← hlen, List.drop_left]
      obtain ⟨hdecs, hlens⟩ := ih hrest hnext
      constructor
      · simp only [decodeOperands, hdec, hdecs, Option.map_some, readBackAll, Nat.add_assoc]
      · simp only [writeOperands]
        rw [List.length_append, hlen, hlens]

theorem decodeOperands_alone (hsize : operandsSize operands operandCodes i = some n) :
    decodeOperands (writeOperands operands operandCodes i) operandCodes i 0 =
      some (readBackAll operands operandCodes i, n) ∧
      (writeOperands operands operandCodes i).length = n := by
  have hdrop : (writeOperands operands operandCodes i).drop 0 =
      writeOperands operands operandCodes i ++ [] := by simp
  have halone := decodeOperands_writeOperands hsize hdrop
  rwa [Nat.zero_add] at halone

theorem operandAt_append (operandCode : OperandCode) (pre : List Operand) (operand : Operand)
    (rest : List Operand) : operandAt (pre ++ operand :: rest) operandCode pre.length = operand := by
  have hne : (pre ++ operand :: rest).length ≠ 0 := by simp
  rw [operandAt, if_neg fun h => hne h.1]
  simp

theorem readBack_atIndex (operand : Operand) (operandCode : OperandCode) (i : Nat) :
    readBack (operand.atIndex i) operandCode = readBack operand operandCode := by
  cases operandCode <;> rfl

theorem operandEncodedSize_congr {operand' : Operand} (himm : operand'.imm = operand.imm)
    (operandCode : OperandCode) :
    operandEncodedSize operand' operandCode = operandEncodedSize operand operandCode := by
  cases operandCode <;> simp only [operandEncodedSize, himm]

theorem writeOperand_congr {operand' : Operand} (himm : operand'.imm = operand.imm)
    (operandCode : OperandCode) : writeOperand operand' operandCode = writeOperand operand operandCode := by
  cases operandCode <;> simp only [writeOperand, himm]

theorem operandsSize_of_decode (pre : List Operand)
    (hdec : decodeOperands code operandCodes pre.length off = some (operands, stop)) :
    ∃ n, operandsSize (pre ++ operands) operandCodes pre.length = some n ∧ off + n ≤ stop ∧
      readBackAll (pre ++ operands) operandCodes pre.length = operands := by
  induction operandCodes generalizing off pre operands with
  | nil =>
    cases hdec
    exact ⟨0, rfl, le_rfl, rfl⟩
  | cons operandCode operandCodes ih =>
    simp only [decodeOperands] at hdec
    cases hfirst : decodeOperand code off operandCode with
    | none => simp [hfirst] at hdec
    | some head =>
      obtain ⟨operand, next⟩ := head
      simp only [hfirst] at hdec
      obtain ⟨⟨operands, last⟩, hrest, ⟨⟩⟩ := Option.map_eq_some_iff.1 hdec
      have hlen : (pre ++ [operand.atIndex pre.length]).length = pre.length + 1 := by simp
      rw [← hlen] at hrest
      obtain ⟨m, hsizes, hstop, hback⟩ := ih (pre ++ [operand.atIndex pre.length]) hrest
      rw [List.append_assoc, List.singleton_append, hlen] at hsizes hback
      obtain ⟨k, hsize, hnext, hsame⟩ := operandEncodedSize_of_decode hfirst
      refine ⟨k + m, ?_, by omega, ?_⟩
      · have hhead := operandEncodedSize_congr (operand.atIndex_imm pre.length) operandCode
        simp only [operandsSize, operandAt_append, hhead, hsize, hsizes, Option.map_some]
      · simp only [readBackAll, operandAt_append, readBack_atIndex, hsame, hback]

theorem writeOperands_readBackAll (operands : List Operand) (operandCodes : List OperandCode)
    (pre : List Operand) :
    writeOperands (pre ++ readBackAll operands operandCodes pre.length) operandCodes pre.length =
      writeOperands operands operandCodes pre.length := by
  induction operandCodes generalizing pre with
  | nil => rfl
  | cons operandCode operandCodes ih =>
    have hrest := ih (pre ++ [(readBack (operandAt operands operandCode pre.length) operandCode).atIndex
      pre.length])
    rw [List.append_assoc, List.singleton_append, List.length_append, List.length_singleton] at hrest
    have hhead := writeOperand_congr (Operand.atIndex_imm
      (readBack (operandAt operands operandCode pre.length) operandCode) pre.length) operandCode
    simp only [readBackAll, writeOperands, operandAt_append, hhead, writeOperand_readBack, hrest]

end AsmKit.Wasm
