import AsmKit.A64.PcRelDecode
import AsmKit.Decode.Demand
import AsmKit.Lib.Leb128Cut
import AsmKit.Wasm.ReadBack

/-!
# Code that ends inside an instruction

A word that is cut can become a branch, whatever its first bytes are. Behind the first halfword of a
wide Thumb instruction the rows decide, and of a WebAssembly number whether it can still fit.
-/

namespace AsmKit

/-! ## The last byte of a word -/

theorem load32le_ushiftRight (code : List Byte) : load32le code >>> 24 = (code.getD 3 0).setWidth 32 := by
  apply BitVec.eq_of_getLsbD_eq
  intro i hi
  simp only [load32le, BitVec.getLsbD_ushiftRight, BitVec.getLsbD_or, BitVec.getLsbD_shiftLeft,
    BitVec.getLsbD_setWidth]
  have h8 (b : Byte) (k : Nat) (hk : 8 ≤ k) : b.getLsbD k = false := BitVec.getLsbD_of_ge b k hk
  rw [h8 _ (24 + i) (by omega), h8 _ (24 + i - 8) (by omega), h8 _ (24 + i - 16) (by omega)]
  simp [hi]
  exact fun hbit => Nat.add_lt_add_left (BitVec.lt_of_getLsbD hbit) 24

theorem load16le_ushiftRight (code : List Byte) : load16le code >>> 8 = (code.getD 1 0).setWidth 16 := by
  apply BitVec.eq_of_getLsbD_eq
  intro i hi
  simp only [load16le, BitVec.getLsbD_ushiftRight, BitVec.getLsbD_or, BitVec.getLsbD_shiftLeft,
    BitVec.getLsbD_setWidth]
  rw [BitVec.getLsbD_of_ge _ (8 + i) (by omega)]
  simp [hi]
  exact fun hbit => Nat.add_lt_add_left (BitVec.lt_of_getLsbD hbit) 8

theorem setWidth_load16le (code : List Byte) : (load16le code).setWidth 8 = code.getD 0 0 := by
  apply BitVec.eq_of_getLsbD_eq
  intro i hi
  simp only [load16le, BitVec.getLsbD_or, BitVec.getLsbD_shiftLeft, BitVec.getLsbD_setWidth]
  simp [hi]
  omega

theorem and_shiftLeft_eq {w : Nat} (value mask : BitVec w) (k : Nat) :
    value &&& mask <<< k = (value >>> k &&& mask) <<< k := by
  apply BitVec.eq_of_getLsbD_eq
  intro i hi
  simp only [BitVec.getLsbD_and, BitVec.getLsbD_shiftLeft, BitVec.getLsbD_ushiftRight]
  by_cases hk : i < k
  · simp [hk]
  · simp [hk, hi, show k + (i - k) = i by omega]

/-- Zeros up to the last byte of a unit, and that byte. -/
def lastByte (n : Nat) (code : List Byte) (b : Byte) : List Byte :=
  List.replicate (n - 1 - code.length) 0 ++ [b]

theorem getD_lastByte {n : Nat} {code : List Byte} (hlen : code.length < n) (b : Byte) :
    (code ++ lastByte n code b).length = n ∧ (code ++ lastByte n code b).getD (n - 1) 0 = b := by
  refine ⟨by simp [lastByte]; omega, ?_⟩
  rw [lastByte, ← List.append_assoc, List.getD_append_right _ _ _ _ (by simp; omega)]
  simp [show n - 1 - (code.length + (n - 1 - code.length)) = 0 by omega]

/-! ## ARM -/

theorem rowDemand_ne_unknown (n : Nat) (found : Option (Except Status Inst)) :
    rowDemand n found ≠ .unknown := by
  unfold rowDemand
  split <;> simp

theorem size_of_rowDemand {n m : Nat} {found : Option (Except Status Inst)}
    (h : rowDemand n found = .size m) : m = n := by
  unfold rowDemand at h
  split at h <;> cases h
  rfl

namespace Arm

variable (tables : Tables) (engine : Engine) {code : List Byte} (address : BitVec 64)

/-- An instruction can follow: always an A32 word and a Thumb halfword, and behind the first halfword
of a wide instruction a second that is taken, which there always is for `bl`. -/
def BeginsInst (code : List Byte) : Prop :=
  let h1 := load16le code
  engine.config.mode = .armA32 ∨ code.length < 2 ∨ h1 &&& 0xf800 = 0xf000 ∨
    ∃ h2 : BitVec 16, (2 < code.length → h2.setWidth 8 = code.getD 2 0) ∧
      rowDemand 4 (decodeThumb32Td tables engine code address
        ((h1.setWidth 32 <<< 16) ||| h2.setWidth 32)) = .size 4

variable {tables engine address}

/-- `b`, in the last byte of the word. -/
theorem a32Demand_lastByte (hlen : code.length < 4) :
    a32Demand tables engine address (code ++ lastByte 4 code 0xea) = .size 4 := by
  obtain ⟨hlength, hbyte⟩ := getD_lastByte hlen 0xea
  have hhigh : load32le (code ++ lastByte 4 code 0xea) >>> 24 = 0xea := by
    rw [load32le_ushiftRight, hbyte]
    rfl
  have hbranch : isA32Branch (load32le (code ++ lastByte 4 code 0xea)) = true := by
    have hmask := and_shiftLeft_eq (load32le (code ++ lastByte 4 code 0xea)) 0x0e 24
    have hcond : load32le (code ++ lastByte 4 code 0xea) >>> 28 = 0x0e := by
      rw [show 28 = 24 + 4 from rfl, BitVec.shiftRight_add, hhigh]
      rfl
    rw [hhigh] at hmask
    rw [isA32Branch, hcond, Bool.and_eq_true, bne_iff_ne, beq_iff_eq]
    exact ⟨by decide, hmask⟩
  unfold a32Demand
  simp only
  rw [if_neg (by omega), if_pos (.inl hbranch)]

/-- The short `b`, in the last byte of the halfword. -/
theorem thumbDemand_lastByte (hlen : code.length < 2) :
    thumbDemand tables engine address (code ++ lastByte 2 code 0xe0) = .size 2 := by
  obtain ⟨hlength, hbyte⟩ := getD_lastByte hlen 0xe0
  have hbranch : load16le (code ++ lastByte 2 code 0xe0) &&& 0xf800 = 0xe000 := by
    have hmask := and_shiftLeft_eq (load16le (code ++ lastByte 2 code 0xe0)) 0xf8 8
    rw [load16le_ushiftRight, hbyte] at hmask
    exact hmask
  unfold thumbDemand
  simp only
  rw [if_neg (by omega), if_pos (.inr (.inl hbranch))]

/-- The code goes on with any second halfword whose first byte it does not contradict. -/
theorem exists_load16le (hlow : 2 ≤ code.length) (hhigh : code.length < 4) {h2 : BitVec 16}
    (hbyte : 2 < code.length → h2.setWidth 8 = code.getD 2 0) :
    ∃ tail, 4 ≤ (code ++ tail).length ∧ load16le ((code ++ tail).drop 2) = h2 := by
  refine ⟨(store16le h2).drop (code.length - 2), ?_, ?_⟩
  · simp
    omega
  · have hstore : code.drop 2 ++ (store16le h2).drop (code.length - 2) = store16le h2 := by
      rcases code with _ | ⟨a, _ | ⟨b, _ | ⟨c, _ | ⟨d, rest⟩⟩⟩⟩ <;> simp at hlow hhigh
      · rfl
      · simp [store16le, hbyte]
      · omega
    rw [List.drop_append_of_le_length hlow, hstore]
    simpa using load16le_store16le h2 []

/-- The first halfword of a wide instruction, without the second. -/
structure IsWide (code : List Byte) : Prop where
  le_length : 2 ≤ code.length
  length_lt : code.length < 4
  not_byHand : ¬ isThumbByHand (load16le code)
  wide : 0xe800 ≤ load16le code &&& 0xf800

theorem isWide_of_unknown (hlen : 2 ≤ code.length)
    (hunknown : thumbDemand tables engine address code = .unknown) : IsWide code := by
  unfold thumbDemand at hunknown
  simp only at hunknown
  rw [if_neg (by omega)] at hunknown
  split at hunknown
  · cases hunknown
  next hhand =>
  split at hunknown
  · next hwide =>
    refine ⟨hlen, ?_, hhand, hwide⟩
    by_contra hlong
    unfold thumb32Demand at hunknown
    simp only at hunknown
    rw [if_neg hlong] at hunknown
    split at hunknown
    · cases hunknown
    · exact rowDemand_ne_unknown _ _ hunknown
  · exact absurd hunknown (rowDemand_ne_unknown _ _)

theorem IsWide.demand_append (h : IsWide code) (tail : List Byte) :
    thumbDemand tables engine address (code ++ tail) =
      if (code ++ tail).length < 4 then .unknown
      else if isThumbBl (load16le code) (load16le ((code ++ tail).drop 2)) then .size 4
      else rowDemand 4 (decodeThumb32Td tables engine code address
        (((load16le code).setWidth 32 <<< 16) ||| (load16le ((code ++ tail).drop 2)).setWidth 32)) := by
  have hhalf : load16le (code ++ tail) = load16le code := by
    simpa using load16le_append tail (show 0 + 2 ≤ code.length from h.le_length)
  have hlen : ¬ (code ++ tail).length < 2 := by
    have hle := h.le_length
    rw [List.length_append]
    omega
  unfold thumbDemand thumb32Demand
  simp only [hhalf]
  rw [if_neg hlen, if_neg h.not_byHand, if_pos h.wide,
    rowDemand_congr (decodeThumb32Td_status tables engine (code ++ tail) code _)]

theorem IsWide.exists_size_iff (h : IsWide code) :
    (∃ tail n, thumbDemand tables engine address (code ++ tail) = .size n) ↔
      load16le code &&& 0xf800 = 0xf000 ∨
        ∃ h2 : BitVec 16, (2 < code.length → h2.setWidth 8 = code.getD 2 0) ∧
          rowDemand 4 (decodeThumb32Td tables engine code address
            (((load16le code).setWidth 32 <<< 16) ||| h2.setWidth 32)) = .size 4 := by
  simp only [h.demand_append]
  constructor
  · rintro ⟨tail, n, hn⟩
    split at hn
    · cases hn
    split at hn
    · next hbl => exact .inl hbl.1
    · refine .inr ⟨load16le ((code ++ tail).drop 2), fun hthree => ?_, size_of_rowDemand hn ▸ hn⟩
      rw [setWidth_load16le, List.getD_eq_getElem?_getD, List.getElem?_drop,
        ← List.getD_eq_getElem?_getD, List.getD_append _ _ _ _ hthree]
  · rintro (hbl | ⟨h2, hbyte, htaken⟩)
    · refine ⟨lastByte 4 code 0xd0, 4, ?_⟩
      obtain ⟨hlength, hlast⟩ := getD_lastByte h.length_lt 0xd0
      have hsecond : load16le ((code ++ lastByte 4 code 0xd0).drop 2) &&& 0xd000 = 0xd000 := by
        have hmask := and_shiftLeft_eq (load16le ((code ++ lastByte 4 code 0xd0).drop 2)) 0xd0 8
        rw [load16le_ushiftRight, List.getD_eq_getElem?_getD, List.getElem?_drop,
          ← List.getD_eq_getElem?_getD, hlast] at hmask
        exact hmask
      rw [if_neg (by omega), if_pos ⟨hbl, hsecond⟩]
    · obtain ⟨tail, hlength, hsecond⟩ := exists_load16le h.le_length h.length_lt hbyte
      refine ⟨tail, 4, ?_⟩
      rw [if_neg (by omega), hsecond, htaken]
      exact ite_self _

theorem a32Demand_unknown (hunknown : a32Demand tables engine address code = .unknown) :
    code.length < 4 := by
  by_contra hlong
  unfold a32Demand at hunknown
  simp only at hunknown
  rw [if_neg hlong] at hunknown
  split at hunknown
  · cases hunknown
  · exact rowDemand_ne_unknown _ _ hunknown

theorem beginsInst_iff (harch : engine.target.arch = .arm)
    (hunknown : demand tables engine address code = .unknown) :
    (∃ tail n, demand tables engine address (code ++ tail) = .size n) ↔
      BeginsInst tables engine address code := by
  unfold demand at hunknown ⊢
  unfold BeginsInst
  rcases engine.mode_of_arm harch with hmode | hmode <;> simp only [hmode] at hunknown ⊢
  · exact iff_of_true ⟨_, 4, a32Demand_lastByte (a32Demand_unknown hunknown)⟩ (.inl trivial)
  · rcases Nat.lt_or_ge code.length 2 with hlen | hlen
    · exact iff_of_true ⟨_, 2, thumbDemand_lastByte hlen⟩ (.inr (.inl hlen))
    · rw [(isWide_of_unknown hlen hunknown).exists_size_iff]
      simp [Nat.not_lt.2 hlen]

end Arm

/-! ## AArch64 -/

namespace A64

variable {tables : Tables} {engine : Engine} {code : List Byte} {address : BitVec 64}

theorem demand_unknown (hunknown : demand tables engine address code = .unknown) : code.length < 4 := by
  by_contra hlong
  unfold demand at hunknown
  rw [if_neg hlong] at hunknown
  split at hunknown
  · split at hunknown <;> cases hunknown
  · exact rowDemand_ne_unknown _ _ hunknown

/-- `b`, in the last byte of the word. -/
theorem exists_size_of_unknown (hrows : PcRelRows tables) (hmode : engine.config.mode = .aarch64)
    (hunknown : demand tables engine address code = .unknown) :
    ∃ tail n, demand tables engine address (code ++ tail) = .size n := by
  obtain ⟨hlength, hbyte⟩ := getD_lastByte (demand_unknown hunknown) 0x14
  have hword : load32le (code ++ lastByte 4 code 0x14) &&& 0xfc000000 = 0x14000000 := by
    have hmask := and_shiftLeft_eq (load32le (code ++ lastByte 4 code 0x14)) 0xfc 24
    rw [load32le_ushiftRight, hbyte] at hmask
    exact hmask
  have hmem : branchRow 65779 Mnemonic.b 0x14000000 .directBranch InstFlag.terminator ∈ pcRelRows := by
    decide
  have hrow := decodeOne_row hrows hmem hword hmode (Nat.le_of_eq hlength.symm) address
  have hfeatures : featuresMatch engine
      (branchRow 65779 Mnemonic.b 0x14000000 .directBranch InstFlag.terminator).featureBits = true :=
    featuresMatch_none
  rw [if_pos hfeatures] at hrow
  obtain ⟨inst, hdec, -⟩ := hrow
  obtain ⟨n, hn, -⟩ := (((governs tables engine hmode address).accepts_iff _).1 ⟨inst, hdec⟩).exists_size
  exact ⟨_, n, hn⟩

end A64

/-! ## BPF -/

namespace Bpf

variable {records : List Record} {engine : Engine} {code : List Byte}

/-- A row fixes an immediate below 2^31, or wherever it matches a row without features does. -/
def FreeRows (records : List Record) : Prop :=
  ∀ record ∈ records, (record.matchImm = true ∧ record.fixedImm.msb = false) ∨
    ∃ plain ∈ records, plain.featureBits = .replicate 8 0 ∧
      ∀ code, record.matches code = true → plain.matches code = true

theorem demand_unknown (hunknown : demand records engine code = .unknown) : code.length < 8 := by
  by_contra hlong
  unfold demand at hunknown
  rw [if_neg hlong] at hunknown
  split at hunknown
  · cases hunknown
  · split at hunknown <;> cases hunknown

/-- An immediate with its high bit set leaves no row that is refused. -/
theorem exists_size_of_unknown (hrows : FreeRows records)
    (hunknown : demand records engine code = .unknown) :
    ∃ tail n, demand records engine (code ++ tail) = .size n := by
  obtain ⟨hlength, hbyte⟩ := getD_lastByte (demand_unknown hunknown) 0x80
  refine ⟨lastByte 8 code 0x80, ?_⟩
  unfold demand
  rw [if_neg (by omega)]
  cases hfind : findRecord records engine (code ++ lastByte 8 code 0x80) with
  | some record => exact ⟨_, rfl⟩
  | none =>
    have hnone : ¬ records.any (·.matches (code ++ lastByte 8 code 0x80)) = true := by
      rw [List.any_eq_true]
      rintro ⟨record, hmem, hmatches⟩
      rcases hrows record hmem with ⟨himm, hmsb⟩ | ⟨plain, hplain, hfeatures, hmore⟩
      · have hhigh := load32le_ushiftRight ((code ++ lastByte 8 code 0x80).drop 4)
        rw [List.getD_eq_getElem?_getD, List.getElem?_drop, ← List.getD_eq_getElem?_getD, hbyte] at hhigh
        have himm' : record.fixedImm = imm (code ++ lastByte 8 code 0x80) := by
          simp only [Record.matches, himm, Bool.and_eq_true, Bool.not_true, Bool.false_or,
            beq_iff_eq] at hmatches
          exact hmatches.1.2
        have hbit := congrArg (BitVec.getLsbD · 7) hhigh
        rw [BitVec.msb_eq_getLsbD_last, himm'] at hmsb
        simp only [BitVec.getLsbD_ushiftRight] at hbit
        rw [imm] at hmsb
        rw [hmsb] at hbit
        exact absurd hbit (by decide)
      · have hfound := List.find?_eq_none.1 hfind plain hplain
        rw [hmore _ hmatches, hfeatures, engine.featuresMatch_none] at hfound
        exact hfound rfl
    exact ⟨fallbackSize (code ++ lastByte 8 code 0x80), if_neg hnone⟩

end Bpf

/-! ## WebAssembly -/

theorem i64FitsI32_iff_getLsbD (v : BitVec 64) :
    i64FitsI32 v = true ↔ ∀ i, 31 ≤ i → i < 64 → v.getLsbD i = v.getLsbD 31 := by
  have hbit (i : Nat) (hi : i < 64) : ((v.setWidth 32).signExtend 64).getLsbD i =
      if i < 32 then v.getLsbD i else v.getLsbD 31 := by
    rw [BitVec.getLsbD_signExtend, BitVec.msb_eq_getLsbD_last]
    by_cases h32 : i < 32 <;> simp [h32, hi]
  rw [i64FitsI32_iff]
  constructor
  · intro hfits i hle hlt
    have heq := SignedField.signExtend_setWidth_of_fits v (by omega) (by omega) hfits
    have hi := hbit i hlt
    rw [heq] at hi
    split at hi
    · rw [show i = 31 by omega]
    · exact hi
  · intro hbits
    have heq : (v.setWidth 32).signExtend 64 = v := by
      apply BitVec.eq_of_getLsbD_eq
      intro i hi
      rw [hbit i hi]
      split
      · rfl
      · exact (hbits i (by omega) hi).symm
    rw [← heq]
    exact SignedField.fits_signExtend _ (by omega)

namespace Wasm

variable {code : List Byte} {off : Nat}

/-! ### Operands -/

/-- A cut operand can still be read. A 64-bit number that has to fit 32 bits can by another group of
sign bits, or not at all. -/
def operandOpen (code : List Byte) (off : Nat) : OperandCode → Bool
  | .immSleb32 =>
    (decodeOperand (code ++ [0]) off .immSleb32).isSome ||
      (decodeOperand (code ++ [0x7f]) off .immSleb32).isSome
  | _ => true

/-- The operand that is cut can still be read, and so can those behind it. -/
def operandsOpen (code : List Byte) : List OperandCode → Nat → Bool
  | [], _ => false
  | operandCode :: operandCodes, off =>
    if operandCut code off operandCode then
      operandOpen code off operandCode && !operandCodes.contains .none
    else match decodeOperand code off operandCode with
      | none => false
      | some (_, next) => operandsOpen code operandCodes next

theorem read_lastGroup {w n bits : Nat} {value : BitVec w} {b : Byte} (hb : b &&& 0x80 = 0) :
    Leb128.read w (code ++ [b]) (n + 1) code.length bits value =
      some ⟨value ||| (b &&& 0x7f).setWidth w <<< bits, b, bits + 7, code.length + 1⟩ :=
  Leb128.read_last List.drop_left hb

theorem exists_readUleb32 (hcut : Leb128.cut code 5 off = true) (hoff : off ≤ code.length) :
    ∃ value, readUleb32 (code ++ [0]) off = some (value, (code ++ [0]).length) := by
  obtain ⟨m, bits, value, -, -, hread⟩ := @Leb128.exists_resume 32 5 off 0 code 0 hcut hoff (by simp)
  rw [readUleb32, hread, read_lastGroup (by decide), List.length_append]
  exact ⟨_, rfl⟩

theorem exists_readSleb64 (hcut : Leb128.cut code 10 off = true) (hoff : off ≤ code.length) {b : Byte}
    (hb : b &&& 0x80 = 0) :
    ∃ value, readSleb64 (code ++ [b]) off = some (value, (code ++ [b]).length) := by
  obtain ⟨m, bits, value, -, -, hread⟩ := @Leb128.exists_resume 64 10 off 0 code 0 hcut hoff (by simp)
  rw [readSleb64, hread, read_lastGroup hb, List.length_append]
  exact ⟨_, rfl⟩

/-- A number of which `low` has been read and that fits 32 bits does so with the sign of `low` behind
it. -/
theorem fits_lastGroup {low value : BitVec 64} {bits : Nat}
    (hbelow : ∀ i, bits ≤ i → low.getLsbD i = false)
    (hsame : ∀ i < bits, value.getLsbD i = low.getLsbD i) (hfits : i64FitsI32 value = true)
    (next : Nat) : ∃ b : Byte, (b = 0 ∨ b = 0x7f) ∧
      i64FitsI32 (signExtended ⟨low ||| (b &&& 0x7f).setWidth 64 <<< bits, b, bits + 7, next⟩) = true := by
  rw [i64FitsI32_iff_getLsbD] at hfits
  have hhigh (i : Nat) (hle : 31 ≤ i) (hlt : i < 64) (hi : i < bits) :
      low.getLsbD i = low.getLsbD 31 := by
    rw [← hsame i hi, hfits i hle hlt, hsame 31 (by omega)]
  by_cases hsign : 31 < bits ∧ low.getLsbD 31 = true
  · refine ⟨0x7f, .inr rfl, ?_⟩
    have hones (i : Nat) (hle : 31 ≤ i) (hlt : i < 64) : (signExtended
        ⟨low ||| ((0x7f : Byte) &&& 0x7f).setWidth 64 <<< bits, 0x7f, bits + 7, next⟩).getLsbD i =
          true := by
      rw [signExtended_eq, Leb128.Number.extended_getLsbD _ hlt, BitVec.getLsbD_or,
        BitVec.getLsbD_shiftLeft, BitVec.getLsbD_setWidth, BitVec.and_self, Leb128.mask_getLsbD]
      rcases Nat.lt_or_ge i bits with hi | hi
      · rw [hhigh i hle hlt hi, hsign.2]
        rfl
      · by_cases hin : i < bits + 7
        · simp [hlt, Nat.not_lt.2 hi, show i - bits < 7 by omega, show i - bits < 64 by omega,
            show i - bits < 8 by omega]
        · simp [show bits + 7 < 64 by omega, show bits + 7 ≤ i by omega]
    rw [i64FitsI32_iff_getLsbD]
    intro i hle hlt
    rw [hones i hle hlt, hones 31 (Nat.le_refl _) (by omega)]
  · refine ⟨0, .inl rfl, ?_⟩
    have hzero (i : Nat) (hlt : i < 64) : (signExtended
        ⟨low ||| ((0 : Byte) &&& 0x7f).setWidth 64 <<< bits, 0, bits + 7, next⟩).getLsbD i =
          low.getLsbD i := by
      rw [signExtended_eq, Leb128.Number.extended_getLsbD _ hlt]
      simp
    rw [i64FitsI32_iff_getLsbD]
    intro i hle hlt
    rw [hzero i hlt, hzero 31 (by omega)]
    rcases Nat.lt_or_ge i bits with hi | hi
    · exact hhigh i hle hlt hi
    · rw [hbelow i hi]
      by_cases h31 : 31 < bits
      · exact (eq_false_of_ne_true fun hset => hsign ⟨h31, hset⟩).symm
      · exact (hbelow 31 (by omega)).symm

/-- A cut number that fits 32 bits in the end does with one group of sign bits behind it. -/
theorem exists_readSleb32 (hcut : Leb128.cut code 10 off = true) (hoff : off ≤ code.length)
    {tail : List Byte} {value : BitVec 64} {next : Nat}
    (hread : readSleb64 (code ++ tail) off = some (value, next)) (hfits : i64FitsI32 value = true) :
    ∃ b : Byte, (b = 0 ∨ b = 0x7f) ∧ ∃ value',
      readSleb64 (code ++ [b]) off = some (value', code.length + 1) ∧ i64FitsI32 value' = true := by
  obtain ⟨m, bits, low, hbits, hbelow, hresume⟩ :=
    @Leb128.exists_resume 64 10 off 0 code 0 hcut hoff (by simp)
  simp only [readSleb64, hresume] at hread ⊢
  obtain ⟨number, hnumber, heq⟩ := Option.map_eq_some_iff.1 hread
  cases heq
  obtain ⟨hlow, hlt⟩ := Leb128.read_getLsbD hnumber
  have hsame : ∀ i < bits, (signExtended number).getLsbD i = low.getLsbD i := by
    intro i hi
    rw [signExtended_eq, number.extended_getLsbD (by omega), hlow i hi]
    simp [show ¬ number.bits ≤ i by omega]
  obtain ⟨b, hb, hgroup⟩ := fits_lastGroup hbelow hsame hfits (code.length + 1)
  have hlast : b &&& 0x80 = 0 := by rcases hb with rfl | rfl <;> decide
  refine ⟨b, hb, _, ?_, hgroup⟩
  rw [read_lastGroup hlast]
  rfl

/-- What completes a cut operand ends the code. -/
theorem exists_decodeOperand {operandCode : OperandCode} (hcut : operandCut code off operandCode = true)
    (hopen : operandOpen code off operandCode = true) (hoff : off ≤ code.length) :
    ∃ tail operand, decodeOperand (code ++ tail) off operandCode = some (operand, (code ++ tail).length) := by
  cases operandCode <;> simp only [operandCut, decide_eq_true_eq, Bool.false_eq_true] at hcut
  case blocktype | immByte =>
    obtain rfl : off = code.length := Nat.le_antisymm hoff hcut
    refine ⟨[0], ?_⟩
    simp only [decodeOperand]
    rw [if_neg (by simp), List.length_append]
    exact ⟨_, rfl⟩
  case indexUleb | immUleb =>
    obtain ⟨value, hread⟩ := exists_readUleb32 hcut hoff
    exact ⟨[0], by simp only [decodeOperand, hread]; exact ⟨_, rfl⟩⟩
  case immSleb64 =>
    obtain ⟨value, hread⟩ := exists_readSleb64 hcut hoff (b := 0) (by decide)
    exact ⟨[0], by simp only [decodeOperand, hread]; exact ⟨_, rfl⟩⟩
  case immSleb32 =>
    have hsleb {b : Byte} (hb : b &&& 0x80 = 0)
        (hsome : (decodeOperand (code ++ [b]) off .immSleb32).isSome = true) :
        ∃ tail operand, decodeOperand (code ++ tail) off .immSleb32 =
          some (operand, (code ++ tail).length) := by
      obtain ⟨value, hread⟩ := exists_readSleb64 hcut hoff hb
      refine ⟨[b], Operand.ofImm value 32, ?_⟩
      simp only [decodeOperand, hread] at hsome ⊢
      by_cases hfits : i64FitsI32 value = true
      · simp [Option.filter, hfits]
      · simp [Option.filter, hfits] at hsome
    simp only [operandOpen, Bool.or_eq_true] at hopen
    exact hopen.elim (hsleb (by decide)) (hsleb (by decide))
  case immF32 =>
    have hlength : (code ++ List.replicate (off + 4 - code.length) 0).length = off + 4 := by
      simp
      omega
    refine ⟨List.replicate (off + 4 - code.length) 0, ?_⟩
    simp only [decodeOperand, hlength]
    exact ⟨_, if_neg (Nat.lt_irrefl _)⟩
  case immF64 =>
    have hlength : (code ++ List.replicate (off + 8 - code.length) 0).length = off + 8 := by
      simp
      omega
    refine ⟨List.replicate (off + 8 - code.length) 0, ?_⟩
    simp only [decodeOperand, hlength]
    exact ⟨_, if_neg (Nat.lt_irrefl _)⟩

theorem operandOpen_of_some {operandCode : OperandCode} (hcut : operandCut code off operandCode = true)
    (hoff : off ≤ code.length) {tail : List Byte} {operand : Operand} {next : Nat}
    (hsome : decodeOperand (code ++ tail) off operandCode = some (operand, next)) :
    operandOpen code off operandCode = true := by
  cases operandCode <;> try rfl
  case immSleb32 =>
    obtain ⟨⟨value, stop⟩, hread, -⟩ := Option.map_eq_some_iff.1 hsome
    obtain ⟨hread, hfits⟩ := Option.filter_eq_some_iff.1 hread
    obtain ⟨b, hb, value', hread', hfits'⟩ := exists_readSleb32 hcut hoff hread hfits
    have hsome' : (decodeOperand (code ++ [b]) off .immSleb32).isSome = true := by
      simp [decodeOperand, hread', Option.filter, hfits']
    rw [operandOpen, Bool.or_eq_true]
    rcases hb with rfl | rfl
    · exact .inl hsome'
    · exact .inr hsome'

/-- At the end of the code every operand can be read. -/
theorem operand_at_end {operandCode : OperandCode} (hcode : operandCode ≠ .none) (code : List Byte) :
    operandCut code code.length operandCode = true ∧ operandOpen code code.length operandCode = true := by
  have hcut (n : Nat) : Leb128.cut code (n + 1) code.length = true := by simp [Leb128.cut]
  have hzero : readSleb64 (code ++ [0]) code.length = some (0, code.length + 1) := by
    rw [readSleb64, read_lastGroup (by decide)]
    simp [signExtended]
  cases operandCode
  case none => exact absurd rfl hcode
  case immSleb32 =>
    refine ⟨hcut 9, ?_⟩
    rw [operandOpen, decodeOperand, hzero]
    rfl
  case indexUleb | immUleb => exact ⟨hcut 4, rfl⟩
  case immSleb64 => exact ⟨hcut 9, rfl⟩
  all_goals exact ⟨by simp [operandCut], rfl⟩

theorem decodeOperands_cons {operandCode : OperandCode} {operandCodes : List OperandCode}
    {tail more : List Byte} {index stop : Nat} {operand : Operand} {operands : List Operand}
    (hoperand : decodeOperand (code ++ tail) off operandCode = some (operand, (code ++ tail).length))
    (hrest : decodeOperands (code ++ tail ++ more) operandCodes (index + 1) (code ++ tail).length =
      some (operands, stop)) :
    decodeOperands (code ++ (tail ++ more)) (operandCode :: operandCodes) index off =
      some (operand.atIndex index :: operands, stop) := by
  rw [decodeOperands, ← List.append_assoc, decodeOperand_append (decodeOperand_bound hoperand).1, hoperand]
  simp only [hrest, Option.map_some]

theorem exists_decodeOperands {operandCodes : List OperandCode} (hcodes : .none ∉ operandCodes)
    (code : List Byte) (index : Nat) : ∃ tail operands stop,
      decodeOperands (code ++ tail) operandCodes index code.length = some (operands, stop) := by
  induction operandCodes generalizing code index with
  | nil => exact ⟨[], [], code.length, rfl⟩
  | cons operandCode operandCodes ih =>
    rw [List.mem_cons, not_or] at hcodes
    obtain ⟨hcut, hopen⟩ := operand_at_end (Ne.symm hcodes.1) code
    obtain ⟨tail, operand, hoperand⟩ := exists_decodeOperand hcut hopen (Nat.le_refl _)
    obtain ⟨more, operands, stop, hrest⟩ := ih hcodes.2 (code ++ tail) (index + 1)
    exact ⟨_, _, _, decodeOperands_cons hoperand hrest⟩

theorem none_notMem_of_some {operandCodes : List OperandCode} {index stop : Nat}
    {operands : List Operand}
    (hsome : decodeOperands code operandCodes index off = some (operands, stop)) :
    .none ∉ operandCodes := by
  induction operandCodes generalizing index off operands stop with
  | nil => exact List.not_mem_nil
  | cons operandCode operandCodes ih =>
    simp only [decodeOperands] at hsome
    cases hoperand : decodeOperand code off operandCode with
    | none => simp [hoperand] at hsome
    | some found =>
      simp only [hoperand] at hsome
      obtain ⟨⟨rest, stop'⟩, hrest, -⟩ := Option.map_eq_some_iff.1 hsome
      rw [List.mem_cons, not_or]
      refine ⟨?_, ih hrest⟩
      rintro rfl
      cases hoperand

theorem operandsOpen_iff {operandCodes : List OperandCode}
    (hcut : operandsCut code operandCodes off = true) (hoff : off ≤ code.length) (index : Nat) :
    (∃ tail operands stop,
        decodeOperands (code ++ tail) operandCodes index off = some (operands, stop)) ↔
      operandsOpen code operandCodes off = true := by
  induction operandCodes generalizing index off with
  | nil => cases hcut
  | cons operandCode operandCodes ih =>
    simp only [operandsCut, Bool.or_eq_true] at hcut
    unfold operandsOpen
    by_cases hhere : operandCut code off operandCode = true
    · rw [if_pos hhere, Bool.and_eq_true, Bool.not_eq_true', List.contains_eq_mem, decide_eq_false_iff_not]
      constructor
      · rintro ⟨tail, operands, stop, hsome⟩
        simp only [decodeOperands] at hsome
        cases hoperand : decodeOperand (code ++ tail) off operandCode with
        | none => simp [hoperand] at hsome
        | some found =>
          simp only [hoperand] at hsome
          obtain ⟨⟨rest, stop'⟩, hrest, -⟩ := Option.map_eq_some_iff.1 hsome
          exact ⟨operandOpen_of_some hhere hoff hoperand, none_notMem_of_some hrest⟩
      · rintro ⟨hopen, hcodes⟩
        obtain ⟨tail, operand, hoperand⟩ := exists_decodeOperand hhere hopen hoff
        obtain ⟨more, operands, stop, hrest⟩ := exists_decodeOperands hcodes (code ++ tail) (index + 1)
        exact ⟨_, _, _, decodeOperands_cons hoperand hrest⟩
    · rw [if_neg hhere]
      rw [Bool.not_eq_true] at hhere
      simp only [hhere, Bool.false_eq_true, false_or] at hcut
      simp only [decodeOperands, decodeOperand_append hhere]
      cases hoperand : decodeOperand code off operandCode with
      | none => simp
      | some found =>
        simp only [hoperand] at hcut ⊢
        rw [← ih hcut (decodeOperand_bound hoperand).2 (index + 1)]
        constructor
        · rintro ⟨tail, operands, stop, hsome⟩
          obtain ⟨⟨rest, stop'⟩, hrest, -⟩ := Option.map_eq_some_iff.1 hsome
          exact ⟨tail, rest, stop', hrest⟩
        · rintro ⟨tail, operands, stop, hrest⟩
          exact ⟨tail, _, _, by rw [hrest]; rfl⟩

/-! ### The instruction -/

variable {rows : Rows} {engine : Engine}

/-- No opcode behind a prefix takes five groups. -/
def Bounded (rows : Rows) : Prop :=
  ∀ prefixByte (opcode : BitVec 32), 2 ^ 28 ≤ opcode.toNat → rows prefixByte opcode = []

variable (rows engine) in
/-- An instruction can follow: behind a cut opcode always, inside the operands where they are open. -/
def BeginsInst (code : List Byte) : Prop :=
  code.length = 0 ∨ opcodeCut code = true ∨ ∃ prefixByte opcode off record,
    parseOpcode code = some (prefixByte, opcode, off) ∧
      findRecord (rows prefixByte opcode) engine = some record ∧
      operandsOpen code record.operandCodes off = true

/-- An opcode that has no rows stands alone. -/
theorem exists_size_of_opcodeCut (hrows : Bounded rows) (hpos : 0 < code.length)
    (hcut : opcodeCut code = true) : ∃ tail n, demand rows engine (code ++ tail) = .size n := by
  rw [opcodeCut, Bool.and_eq_true] at hcut
  obtain ⟨m, bits, value, hbits, -, hresume⟩ :=
    @Leb128.exists_resume 32 5 1 0 code 0 hcut.2 hpos (by simp)
  obtain ⟨number, hread, hbit⟩ := @Leb128.read_bit 32 m code.length bits
    (code ++ (List.replicate m 0x80 ++ [1])) value List.drop_left (by omega)
  have hlarge : 2 ^ 28 ≤ number.value.toNat := by
    rw [show bits + 7 * m = 28 by omega] at hbit
    exact Nat.ge_two_pow_of_testBit hbit
  have hparse : parseOpcode (code ++ (List.replicate m 0x80 ++ [1])) =
      some (code.getD 0 0, number.value, number.next) := by
    unfold parseOpcode
    simp only [List.getD_append _ _ _ _ hpos, hcut.1, if_true]
    rw [readUleb32, hresume, hread]
    rfl
  refine ⟨List.replicate m 0x80 ++ [1], number.next, ?_⟩
  unfold demand
  rw [if_neg (by simp), hparse]
  simp only [opcodeDemand, hrows _ _ hlarge]
  rfl

theorem opcodeDemand_size_iff {prefixByte : Byte} {opcode : BitVec 32} {record : Record}
    (hfind : findRecord (rows prefixByte opcode) engine = some record) :
    (∃ n, opcodeDemand rows engine code prefixByte opcode off = .size n) ↔
      ∃ operands stop, decodeOperands code record.operandCodes 0 off = some (operands, stop) := by
  unfold opcodeDemand
  simp only [hfind]
  cases decodeOperands code record.operandCodes 0 off with
  | some found => exact iff_of_true ⟨_, rfl⟩ ⟨_, _, rfl⟩
  | none =>
    refine iff_of_false ?_ (by simp)
    rintro ⟨n, hn⟩
    simp only at hn
    split at hn <;> cases hn

theorem demand_of_parse {prefixByte : Byte} {opcode : BitVec 32} (hpos : 0 < code.length)
    (hparse : parseOpcode code = some (prefixByte, opcode, off)) (tail : List Byte) :
    demand rows engine (code ++ tail) =
      opcodeDemand rows engine (code ++ tail) prefixByte opcode off := by
  unfold demand
  rw [if_neg (by rw [List.length_append]; omega), parseOpcode_append hpos (parseOpcode_bound hpos hparse).1,
    hparse]

theorem operandsCut_of_unknown {prefixByte : Byte} {opcode : BitVec 32}
    (hunknown : opcodeDemand rows engine code prefixByte opcode off = .unknown) :
    ∃ record, findRecord (rows prefixByte opcode) engine = some record ∧
      operandsCut code record.operandCodes off = true := by
  unfold opcodeDemand at hunknown
  split at hunknown
  · next record hfind =>
    split at hunknown
    · cases hunknown
    split at hunknown
    · next hcut => exact ⟨record, hfind, hcut⟩
    · cases hunknown
  · split at hunknown <;> cases hunknown

theorem beginsInst_iff (hrows : Bounded rows) (hunknown : demand rows engine code = .unknown) :
    (∃ tail n, demand rows engine (code ++ tail) = .size n) ↔ BeginsInst rows engine code := by
  unfold BeginsInst
  rcases Nat.eq_zero_or_pos code.length with hlen | hpos
  · obtain rfl := List.length_eq_zero_iff.1 hlen
    obtain ⟨tail, n, hn⟩ := @exists_size_of_opcodeCut [0xfc] rows engine hrows (by decide) (by decide)
    exact iff_of_true ⟨_, n, hn⟩ (.inl rfl)
  cases hcut : opcodeCut code with
  | true => exact iff_of_true (exists_size_of_opcodeCut hrows hpos hcut) (.inr (.inl rfl))
  | false =>
    cases hparse : parseOpcode code with
    | none =>
      unfold demand at hunknown
      simp only [if_neg (Nat.ne_of_gt hpos), hparse, hcut, Bool.false_eq_true, if_false] at hunknown
      cases hunknown
    | some found =>
      obtain ⟨prefixByte, opcode, off⟩ := found
      have hnil : demand rows engine (code ++ []) = _ := demand_of_parse hpos hparse []
      rw [List.append_nil, hunknown] at hnil
      obtain ⟨record, hfind, hcuts⟩ := operandsCut_of_unknown hnil.symm
      simp only [demand_of_parse hpos hparse, opcodeDemand_size_iff hfind]
      rw [operandsOpen_iff hcuts (parseOpcode_bound hpos hparse).2 0]
      constructor
      · exact fun hopen => .inr (.inr ⟨_, _, _, record, rfl, hfind, hopen⟩)
      · rintro (hlen | hcut | ⟨_, _, _, record', heq, hfind', hopen⟩)
        · omega
        · cases hcut
        · cases heq
          rw [hfind] at hfind'
          cases hfind'
          exact hopen

end Wasm

end AsmKit
