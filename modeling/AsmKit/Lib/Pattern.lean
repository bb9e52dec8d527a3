import Mathlib.Tactic.IntervalCases

/-!
# Bit patterns

A pattern is a mask and a value: it matches the words that have the value under the mask. One
pattern can decide another one: a word that matches the first always, or never, matches the second.
-/

namespace BitPattern

variable {w : Nat} {x m v m' v' : BitVec w}

theorem and_eq_of_refines (h : x &&& m = v) (hm : m &&& m' = m') (hv : v &&& m' = v') :
    x &&& m' = v' := by
  rw [← hv, ← h, BitVec.and_assoc, hm]

theorem and_ne_of_disjoint (h : x &&& m = v) (hd : m &&& m' &&& (v ^^^ v') ≠ 0#w) :
    x &&& m' ≠ v' := by
  rintro rfl
  apply hd
  apply BitVec.eq_of_getLsbD_eq
  intro i hi
  subst h
  simp only [BitVec.getLsbD_and, BitVec.getLsbD_xor, BitVec.getLsbD_zero]
  cases m.getLsbD i <;> cases m'.getLsbD i <;> simp

theorem and_beq_congr (h : x &&& m = v) (hd : m &&& m' = m' ∨ m &&& m' &&& (v ^^^ v') ≠ 0#w) :
    (x &&& m' == v') = (v &&& m' == v') := by
  rcases hd with hm | hd
  · rw [← h, BitVec.and_assoc, hm]
  · have hv : v &&& m = v := by rw [← h, BitVec.and_assoc, BitVec.and_self]
    rw [beq_eq_false_iff_ne.2 (and_ne_of_disjoint h hd),
      beq_eq_false_iff_ne.2 (and_ne_of_disjoint hv hd)]

/-- Fixing one more bit splits a pattern in two. -/
theorem and_or_twoPow (h : x &&& m = v) (i : Nat) :
    x &&& (m ||| BitVec.twoPow w i) = v ∨
      x &&& (m ||| BitVec.twoPow w i) = v ||| BitVec.twoPow w i := by
  rw [BitVec.and_or_distrib_left, h, BitVec.and_twoPow]
  split
  · exact .inr rfl
  · exact .inl (BitVec.or_zero)

end BitPattern
