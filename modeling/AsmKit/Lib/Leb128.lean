import AsmKit.Lib.Bytes

/-!
# Base-128 numbers

A number is spread over groups of seven bits, the least significant first, and the last group is
the one whose high bit is clear. A reader takes at most `n` groups.
-/

namespace Leb128

/-- A number as it was read: its bits, the last group, the bits taken and the offset behind it. -/
structure Number (w : Nat) where
  value : BitVec w
  last : Byte
  bits : Nat
  next : Nat
deriving DecidableEq, Repr

/-- Reads at most `n` groups from the offset on. The groups before it hold `bits` bits. -/
def read (w : Nat) (code : List Byte) : Nat → Nat → Nat → BitVec w → Option (Number w)
  | 0, _, _, _ => none
  | n + 1, offset, bits, value =>
    match code[offset]? with
    | none => none
    | some b =>
      let value := value ||| (b &&& 0x7f).setWidth w <<< bits
      if b &&& 0x80 = 0 then some ⟨value, b, bits + 7, offset + 1⟩
      else read w code n (offset + 1) (bits + 7) value

/-- The code ends before the number does. -/
def cut (code : List Byte) : Nat → Nat → Bool
  | 0, _ => false
  | n + 1, offset =>
    match code[offset]? with
    | none => true
    | some b => b &&& 0x80 != 0 && cut code n (offset + 1)

variable {w n offset bits : Nat} {code : List Byte} {value : BitVec w}

theorem read_append (hcut : cut code n offset = false) (tail : List Byte) :
    read w (code ++ tail) n offset bits value = read w code n offset bits value := by
  induction n generalizing offset bits value with
  | zero => rfl
  | succ n ih =>
    simp only [cut] at hcut
    simp only [read]
    cases hbyte : code[offset]? with
    | none => simp [hbyte] at hcut
    | some b =>
      have hlt := (List.getElem?_eq_some_iff.1 hbyte).1
      rw [List.getElem?_append_left hlt, hbyte]
      simp only [hbyte] at hcut
      simp only
      split
      · rfl
      · next hmore =>
        refine ih ?_
        rwa [bne_iff_ne.2 hmore, Bool.true_and] at hcut

theorem cut_append (hcut : cut code n offset = false) (tail : List Byte) :
    cut (code ++ tail) n offset = false := by
  induction n generalizing offset with
  | zero => rfl
  | succ n ih =>
    simp only [cut] at hcut ⊢
    cases hbyte : code[offset]? with
    | none => simp [hbyte] at hcut
    | some b =>
      have hlt := (List.getElem?_eq_some_iff.1 hbyte).1
      rw [List.getElem?_append_left hlt, hbyte]
      simp only [hbyte, Bool.and_eq_false_iff] at hcut ⊢
      exact hcut.imp_right ih

theorem read_of_cut (hcut : cut code n offset = true) : read w code n offset bits value = none := by
  induction n generalizing offset bits value with
  | zero => rfl
  | succ n ih =>
    simp only [cut] at hcut
    simp only [read]
    cases hbyte : code[offset]? with
    | none => rfl
    | some b =>
      simp only [hbyte, Bool.and_eq_true, bne_iff_ne] at hcut
      simp only [if_neg hcut.1]
      exact ih hcut.2

theorem cut_of_read {number : Number w} (hread : read w code n offset bits value = some number) :
    cut code n offset = false := by
  cases hcut : cut code n offset with
  | false => rfl
  | true =>
    rw [read_of_cut hcut] at hread
    cases hread

theorem next_le_length {number : Number w} (hread : read w code n offset bits value = some number) :
    number.next ≤ code.length := by
  induction n generalizing offset bits value with
  | zero => cases hread
  | succ n ih =>
    simp only [read] at hread
    cases hbyte : code[offset]? with
    | none => simp [hbyte] at hread
    | some b =>
      have hlt := (List.getElem?_eq_some_iff.1 hbyte).1
      simp only [hbyte] at hread
      split at hread
      · cases hread
        exact hlt
      · exact ih hread

end Leb128
