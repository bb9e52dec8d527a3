import AsmKit.Lib.Leb128Write

/-!
# Base-128 numbers that the code cuts

Where the code ends before a number does, the reader stands at its end, and what it has read so far
are the low bits of the number.
-/

namespace Leb128

variable {w n m offset bits : Nat} {code : List Byte} {value : BitVec w}

/-- A reader that stands at the end of the code, with `m` groups and one more to read. -/
theorem exists_resume (hcut : cut code n offset = true) (hoff : offset ≤ code.length)
    (hbelow : ∀ i, bits ≤ i → value.getLsbD i = false) :
    ∃ m bits', ∃ value' : BitVec w, bits' + 7 * (m + 1) = bits + 7 * n ∧
      (∀ i, bits' ≤ i → value'.getLsbD i = false) ∧
      ∀ tail, read w (code ++ tail) n offset bits value =
        read w (code ++ tail) (m + 1) code.length bits' value' := by
  induction n generalizing offset bits value with
  | zero => cases hcut
  | succ n ih =>
    simp only [cut] at hcut
    cases hbyte : code[offset]? with
    | none =>
      obtain rfl : offset = code.length := by
        rw [List.getElem?_eq_none_iff] at hbyte
        omega
      exact ⟨n, bits, value, rfl, hbelow, fun _ => rfl⟩
    | some b =>
      have hlt := (List.getElem?_eq_some_iff.1 hbyte).1
      simp only [hbyte, Bool.and_eq_true, bne_iff_ne] at hcut
      have hmore : ∀ i, bits + 7 ≤ i →
          (value ||| (b &&& 0x7f).setWidth w <<< bits).getLsbD i = false := by
        intro i hi
        rw [BitVec.getLsbD_or, hbelow i (by omega), BitVec.getLsbD_shiftLeft, BitVec.getLsbD_setWidth,
          BitVec.getLsbD_and, mask_getLsbD]
        simp [show ¬ i - bits < 7 by omega]
      obtain ⟨m, bits', value', hbits, hbelow', hread⟩ := ih hcut.2 hlt hmore
      refine ⟨m, bits', value', by omega, hbelow', fun tail => ?_⟩
      rw [← hread tail]
      simp only [read, List.getElem?_append_left hlt, hbyte, if_neg hcut.1]

/-- The groups read later leave the bits of the earlier ones. -/
theorem read_getLsbD {number : Number w} (hread : read w code n offset bits value = some number) :
    (∀ i < bits, number.value.getLsbD i = value.getLsbD i) ∧ bits < number.bits := by
  induction n generalizing offset bits value with
  | zero => cases hread
  | succ n ih =>
    simp only [read] at hread
    cases hbyte : code[offset]? with
    | none => simp [hbyte] at hread
    | some b =>
      have hlow : ∀ i < bits,
          (value ||| (b &&& 0x7f).setWidth w <<< bits).getLsbD i = value.getLsbD i := by
        intro i hi
        rw [BitVec.getLsbD_or, BitVec.getLsbD_shiftLeft]
        simp [hi]
      simp only [hbyte] at hread
      split at hread
      · cases hread
        exact ⟨hlow, by simp⟩
      · obtain ⟨hbits, hlt⟩ := ih hread
        exact ⟨fun i hi => (hbits i (by omega)).trans (hlow i hi), by omega⟩

/-- Empty groups and a last one of 1 set the bit behind them. -/
theorem read_bit (hdrop : code.drop offset = List.replicate m 0x80 ++ [1])
    (hw : bits + 7 * m < w) : ∃ number, read w code (m + 1) offset bits value = some number ∧
      number.value.getLsbD (bits + 7 * m) = true := by
  induction m generalizing offset bits value with
  | zero =>
    refine ⟨_, read_last hdrop (by decide), ?_⟩
    simp only [Nat.mul_zero, Nat.add_zero] at hw ⊢
    rw [BitVec.getLsbD_or, BitVec.getLsbD_shiftLeft, BitVec.getLsbD_setWidth]
    simp [hw]
    exact .inr (by omega)
  | succ m ih =>
    rw [List.replicate_succ, List.cons_append] at hdrop
    rw [read_more hdrop (by decide), show bits + 7 * (m + 1) = bits + 7 + 7 * m by omega]
    exact ih (getElem?_of_drop hdrop).2 (by omega)

end Leb128
