import Mathlib.Data.Set.Insert

/-!
# Sets of numbers in an array of words

Bit `i % w` of word `i / w` says whether `i` is in the set.
-/

namespace Words

variable {w n : Nat}

def mem (words : Vector (BitVec w) n) (i : Nat) : Bool := (words[i / w]?.getD 0).getLsbD (i % w)

def empty : Vector (BitVec w) n := .replicate n 0

def full : Vector (BitVec w) n := .replicate n (BitVec.allOnes w)

/-- Word `i / w` with the bits of `f` put in. -/
def modify (words : Vector (BitVec w) n) (i : Nat) (f : BitVec w → BitVec w) :
    Vector (BitVec w) n :=
  words.setIfInBounds (i / w) (f (words[i / w]?.getD 0))

def bit (w k : Nat) : BitVec w := 1#w <<< k

def insert (words : Vector (BitVec w) n) (i : Nat) : Vector (BitVec w) n :=
  modify words i (· ||| bit w (i % w))

def erase (words : Vector (BitVec w) n) (i : Nat) : Vector (BitVec w) n :=
  modify words i (· &&& ~~~bit w (i % w))

/-- The set the words stand for. -/
def toSet (words : Vector (BitVec w) n) : Set Nat := {i | mem words i}

variable {i j : Nat} {words : Vector (BitVec w) n}

@[simp] theorem mem_toSet : i ∈ toSet words ↔ mem words i = true := Iff.rfl

theorem div_lt_of_lt (h : i < n * w) : i / w < n := Nat.div_lt_of_lt_mul (by rwa [Nat.mul_comm])

theorem width_pos (h : i < n * w) : 0 < w := Nat.pos_of_mul_pos_left (Nat.zero_lt_of_lt h)

@[simp] theorem mem_empty : mem (empty : Vector (BitVec w) n) i = false := by
  simp only [mem, empty, Vector.getElem?_replicate]
  split <;> simp

theorem mem_full (h : i < n * w) : mem (full : Vector (BitVec w) n) i = true := by
  have hw := Nat.mod_lt i (width_pos h)
  simp [mem, full, div_lt_of_lt h, hw]

theorem lt_of_mem (h : mem words i = true) : i < n * w := by
  by_contra hge
  rcases Nat.eq_zero_or_pos w with rfl | hw
  · simp [mem] at h
  · have hout : n ≤ i / w := (Nat.le_div_iff_mul_le hw).2 (Nat.le_of_not_lt hge)
    simp [mem, Vector.getElem?_eq_none hout] at h

theorem eq_of_div_mod (hdiv : j / w = i / w) (hmod : j % w = i % w) : j = i := by
  rw [← Nat.div_add_mod j w, hdiv, hmod, Nat.div_add_mod]

theorem mem_modify (f : BitVec w → BitVec w) (h : i < n * w) :
    mem (modify words i f) j =
      if j / w = i / w then (f (words[i / w]?.getD 0)).getLsbD (j % w) else mem words j := by
  have hi := div_lt_of_lt h
  unfold mem modify
  rw [Vector.getElem?_setIfInBounds]
  by_cases hj : j / w = i / w
  · simp [hj, hi]
  · rw [if_neg hj, if_neg fun h => hj h.symm]

theorem getLsbD_bit {k : Nat} (h : i < w) : (bit w k).getLsbD i = decide (i = k) := by
  have hw : 0 < w := by omega
  simp only [bit, BitVec.getLsbD_shiftLeft, h, BitVec.getLsbD_one, hw]
  by_cases hik : i < k
  · simp [hik, Nat.ne_of_lt hik]
  · have hsub : i - k = 0 ↔ i = k := by omega
    simp [hik, hsub]

/-- A changed word at bit `i` alone: what `f` makes of the others stays. -/
theorem mem_modify_bit (f : BitVec w → BitVec w) (b : Bool → Bool) (h : i < n * w)
    (hf : ∀ word k, k < w → (f word).getLsbD k =
      if k = i % w then b (word.getLsbD k) else word.getLsbD k) :
    mem (modify words i f) j = if j = i then b (mem words j) else mem words j := by
  rw [mem_modify f h]
  split
  case isTrue hdiv =>
    have hiff : j % w = i % w ↔ j = i := ⟨eq_of_div_mod hdiv, fun h => h ▸ rfl⟩
    rw [hf _ _ (Nat.mod_lt j (width_pos h))]
    simp only [hiff, mem, hdiv]
  case isFalse hdiv =>
    have hne : j ≠ i := fun h => hdiv (h ▸ rfl)
    rw [if_neg hne]

theorem mem_insert (h : i < n * w) : mem (insert words i) j = (decide (j = i) || mem words j) := by
  rw [insert, mem_modify_bit _ (fun _ => true) h]
  · by_cases hj : j = i <;> simp [hj]
  · intro word k hk
    rw [BitVec.getLsbD_or, getLsbD_bit hk]
    by_cases hki : k = i % w <;> simp [hki]

theorem mem_erase (h : i < n * w) : mem (erase words i) j = (!decide (j = i) && mem words j) := by
  rw [erase, mem_modify_bit _ (fun _ => false) h]
  · by_cases hj : j = i <;> simp [hj]
  · intro word k hk
    rw [BitVec.getLsbD_and, BitVec.getLsbD_not, getLsbD_bit hk]
    by_cases hki : k = i % w <;> simp [hki, hk]

theorem eq_of_toSet_eq {words' : Vector (BitVec w) n} (h : toSet words = toSet words') :
    words = words' := by
  ext k hk j hj
  have hdiv : (w * k + j) / w = k := by
    rw [Nat.mul_add_div (by omega), Nat.div_eq_of_lt hj, Nat.add_zero]
  have hmod : (w * k + j) % w = j := by
    rw [Nat.mul_add_mod, Nat.mod_eq_of_lt hj]
  have hbit : ∀ words : Vector (BitVec w) n, mem words (w * k + j) = words[k][j] := by
    intro words
    rw [mem, hdiv, hmod, Vector.getElem?_eq_getElem hk, Option.getD_some, BitVec.getLsbD_eq_getElem hj]
  have hmem := Set.ext_iff.1 h (w * k + j)
  rw [mem_toSet, mem_toSet, hbit, hbit] at hmem
  exact Bool.eq_iff_iff.2 hmem

theorem toSet_empty : toSet (empty : Vector (BitVec w) n) = ∅ := by
  ext i
  simp

theorem toSet_full : toSet (full : Vector (BitVec w) n) = {i | i < n * w} := by
  ext i
  exact ⟨lt_of_mem, mem_full⟩

theorem toSet_insert (h : i < n * w) : toSet (insert words i) = Insert.insert i (toSet words) := by
  ext j
  simp [mem_insert h]

theorem toSet_erase (h : i < n * w) : toSet (erase words i) = toSet words \ {i} := by
  ext j
  simp [mem_erase h, and_comm]

end Words
