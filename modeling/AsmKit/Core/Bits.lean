import AsmKit.Core.Types
import AsmKit.Lib.SignedField

/-!
# Loads, stores and range tests

`asmkit_load*le`, `asmkit_store*le` and `asmkit_i64_fits_*`. A signed 64-bit value is a `BitVec 64`
read through `toInt`.
-/

namespace AsmKit

open LittleEndian SignedField

/-! ## Little-endian loads and stores -/

def store16le (v : BitVec 16) : List Byte := [v.setWidth 8, (v >>> 8).setWidth 8]

def store32le (v : BitVec 32) : List Byte :=
  [v.setWidth 8, (v >>> 8).setWidth 8, (v >>> 16).setWidth 8, (v >>> 24).setWidth 8]

def store64le (v : BitVec 64) : List Byte :=
  store32le (v.setWidth 32) ++ store32le ((v >>> 32).setWidth 32)

def load16le (p : List Byte) : BitVec 16 :=
  (p.getD 0 0).setWidth 16 ||| (p.getD 1 0).setWidth 16 <<< 8

def load32le (p : List Byte) : BitVec 32 :=
  (p.getD 0 0).setWidth 32 ||| (p.getD 1 0).setWidth 32 <<< 8 |||
    (p.getD 2 0).setWidth 32 <<< 16 ||| (p.getD 3 0).setWidth 32 <<< 24

def load64le (p : List Byte) : BitVec 64 :=
  (load32le p).setWidth 64 ||| (load32le (p.drop 4)).setWidth 64 <<< 32

@[simp] theorem store16le_length (v : BitVec 16) : (store16le v).length = 2 := rfl
@[simp] theorem store32le_length (v : BitVec 32) : (store32le v).length = 4 := rfl
@[simp] theorem store64le_length (v : BitVec 64) : (store64le v).length = 8 := rfl

theorem store16le_eq (v : BitVec 16) : store16le v = bytesOf 2 v := by
  simp [store16le, bytesOf, List.range_succ]

theorem store32le_eq (v : BitVec 32) : store32le v = bytesOf 4 v := by
  simp [store32le, bytesOf, List.range_succ]

theorem setWidth_byte_of_half (v : BitVec 64) (s k : Nat) (hk : k + 8 ≤ 32) :
    (((v >>> s).setWidth 32) >>> k).setWidth 8 = (v >>> (s + k)).setWidth 8 := by
  apply BitVec.eq_of_getLsbD_eq
  intro i hi
  have hlt : k + i < 32 := by omega
  simp only [BitVec.getLsbD_setWidth, BitVec.getLsbD_ushiftRight]
  simp [hlt, Nat.add_assoc]

theorem store64le_eq (v : BitVec 64) : store64le v = bytesOf 8 v := by
  have hlow := setWidth_byte_of_half v 0
  have hhigh := setWidth_byte_of_half v 32
  simp only [BitVec.ushiftRight_zero, Nat.zero_add] at hlow
  simp only [store64le, store32le_eq, bytesOf]
  simp [List.range_succ, hlow, hhigh]

theorem load16le_eq (p : List Byte) : load16le p = wordOf 16 (p.take 2) := by
  rcases p with _ | ⟨a, _ | ⟨b, rest⟩⟩ <;> simp [load16le, wordOf]

theorem load32le_eq (p : List Byte) : load32le p = wordOf 32 (p.take 4) := by
  rcases p with _ | ⟨a, _ | ⟨b, _ | ⟨c, _ | ⟨d, rest⟩⟩⟩⟩ <;>
    simp [load32le, wordOf, BitVec.shiftLeft_or_distrib, ← BitVec.shiftLeft_add, BitVec.or_assoc]

theorem load32le_store32le (v : BitVec 32) (rest : List Byte) :
    load32le (store32le v ++ rest) = v := by
  rw [load32le_eq, List.take_left' (store32le_length v), store32le_eq, wordOf_bytesOf 4 v (by omega)]

theorem load16le_store16le (v : BitVec 16) (rest : List Byte) :
    load16le (store16le v ++ rest) = v := by
  rw [load16le_eq, List.take_left' (store16le_length v), store16le_eq, wordOf_bytesOf 2 v (by omega)]

theorem load64le_store64le (v : BitVec 64) (rest : List Byte) :
    load64le (store64le v ++ rest) = v := by
  have hhigh := load32le_store32le ((v >>> 32).setWidth 32) rest
  rw [load64le, store64le, List.append_assoc, load32le_store32le,
    List.drop_left' (store32le_length (v.setWidth 32)), hhigh]
  apply BitVec.eq_of_getLsbD_eq
  intro i hi
  simp only [BitVec.getLsbD_or, BitVec.getLsbD_setWidth, BitVec.getLsbD_shiftLeft,
    BitVec.getLsbD_ushiftRight]
  rcases Nat.lt_or_ge i 32 with hlow | hge
  · simp [hi, hlow]
  · simp [hi, Nat.not_lt.2 hge, show i - 32 < 32 by omega, show i - 32 < 64 by omega,
      show 32 + (i - 32) = i by omega]

/-! What lies behind the loaded bytes does not matter. -/

section

variable {p : List Byte} {off : Nat} (tail : List Byte)

theorem load16le_append (h : off + 2 ≤ p.length) :
    load16le ((p ++ tail).drop off) = load16le (p.drop off) := by
  rw [load16le_eq, load16le_eq, List.drop_append_of_le_length (by omega),
    List.take_append_of_le_length (by rw [List.length_drop]; omega)]

theorem load32le_append (h : off + 4 ≤ p.length) :
    load32le ((p ++ tail).drop off) = load32le (p.drop off) := by
  rw [load32le_eq, load32le_eq, List.drop_append_of_le_length (by omega),
    List.take_append_of_le_length (by rw [List.length_drop]; omega)]

theorem load64le_append (h : off + 8 ≤ p.length) :
    load64le ((p ++ tail).drop off) = load64le (p.drop off) := by
  rw [load64le, load64le, List.drop_drop, List.drop_drop, load32le_append tail (by omega),
    load32le_append tail (by omega)]

end

/-! ## Range tests -/

def i64FitsI16 (v : BitVec 64) : Bool := -32768 ≤ v.toInt && v.toInt ≤ 32767

def i64FitsI24Words4 (v : BitVec 64) : Bool :=
  v.toInt.tmod 4 == 0 && -33554432 ≤ v.toInt && v.toInt ≤ 33554428

def i64FitsI26Words4 (v : BitVec 64) : Bool :=
  v.toInt.tmod 4 == 0 && -134217728 ≤ v.toInt && v.toInt ≤ 134217724

def i64FitsI32 (v : BitVec 64) : Bool := -2147483648 ≤ v.toInt && v.toInt ≤ 2147483647

theorem i64FitsI32_iff (v : BitVec 64) : i64FitsI32 v = true ↔ Fits 32 v.toInt := by
  simp only [i64FitsI32, Fits, Bool.and_eq_true, decide_eq_true_eq]
  omega

theorem i64FitsI16_iff (v : BitVec 64) : i64FitsI16 v = true ↔ Fits 16 v.toInt := by
  simp only [i64FitsI16, Fits, Bool.and_eq_true, decide_eq_true_eq]
  omega

theorem tmod_four_eq_zero_iff (x : Int) : (x.tmod 4 == 0) = true ↔ (2 ^ 2 : Int) ∣ x := by
  rw [beq_iff_eq, ← Int.dvd_iff_tmod_eq_zero]
  norm_num

theorem i64FitsI24Words4_iff (v : BitVec 64) :
    i64FitsI24Words4 v = true ↔ (2 ^ 2 : Int) ∣ v.toInt ∧ Fits 24 (v.toInt / 2 ^ 2) := by
  simp only [i64FitsI24Words4, Fits, Bool.and_eq_true, tmod_four_eq_zero_iff, decide_eq_true_eq]
  omega

theorem i64FitsI26Words4_iff (v : BitVec 64) :
    i64FitsI26Words4 v = true ↔ (2 ^ 2 : Int) ∣ v.toInt ∧ Fits 26 (v.toInt / 2 ^ 2) := by
  simp only [i64FitsI26Words4, Fits, Bool.and_eq_true, tmod_four_eq_zero_iff, decide_eq_true_eq]
  omega

end AsmKit
