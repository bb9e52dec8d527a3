import Mathlib.Tactic.IntervalCases
import Mathlib.Tactic.Ring
import Mathlib.Algebra.Ring.Int.Defs
import Mathlib.Algebra.Ring.Divisibility.Basic

/-!
# Signed fields of machine words

What survives when a two's-complement value is cut to a narrow field and widened again, and how
masks take a field out of a word.
-/

namespace SignedField

/-! ## Narrow and widen -/

/-- The value lies in the range of an `n`-bit two's-complement number. -/
def Fits (n : Nat) (x : Int) : Prop := -(2 ^ (n - 1) : Int) ≤ x ∧ x < 2 ^ (n - 1)

instance (n : Nat) (x : Int) : Decidable (Fits n x) := inferInstanceAs (Decidable (_ ∧ _))

theorem toInt_setWidth_of_fits {w n : Nat} (x : BitVec w) (hn : 0 < n) (hw : n ≤ w)
    (h : Fits n x.toInt) : (x.setWidth n).toInt = x.toInt := by
  have hpow : (2 ^ n : Int) = 2 * 2 ^ (n - 1) := by
    rw [← pow_succ']
    congr 1
    omega
  have hdvd : ((2 ^ n : Nat) : Int) ∣ ((2 ^ w : Nat) : Int) := by exact_mod_cast Nat.pow_dvd_pow 2 hw
  rw [BitVec.toInt_setWidth, BitVec.toInt_eq_toNat_bmod] at *
  obtain ⟨hlo, hhi⟩ := h
  have hmod : Int.bmod (x.toNat : Int) (2 ^ n) = Int.bmod (Int.bmod (x.toNat : Int) (2 ^ w)) (2 ^ n) := by
    rw [Int.bmod_bmod_of_dvd]
    exact_mod_cast hdvd
  rw [hmod]
  apply Int.bmod_eq_of_le
  · push_cast; omega
  · push_cast; omega

theorem signExtend_setWidth_of_fits {w n : Nat} (x : BitVec w) (hn : 0 < n) (hw : n ≤ w)
    (h : Fits n x.toInt) : (x.setWidth n).signExtend w = x := by
  apply BitVec.eq_of_toInt_eq
  rw [BitVec.toInt_signExtend_of_le hw, toInt_setWidth_of_fits x hn hw h]

theorem dvd_toInt_iff_toNat {w : Nat} (x : BitVec w) (s : Nat) (hs : s ≤ w) :
    (2 ^ s : Int) ∣ x.toInt ↔ 2 ^ s ∣ x.toNat := by
  have hdvd : ((2 ^ s : Nat) : Int) ∣ ((2 ^ w : Nat) : Int) := by exact_mod_cast Nat.pow_dvd_pow 2 hs
  have hcast : (2 ^ s ∣ x.toNat) ↔ (2 ^ s : Int) ∣ (x.toNat : Int) := by exact_mod_cast Iff.rfl
  rw [hcast, BitVec.toInt_eq_toNat_cond]
  push_cast at hdvd
  split
  · rfl
  · push_cast
    exact dvd_sub_left hdvd

theorem shiftLeft_sshiftRight_of_dvd {w : Nat} (x : BitVec w) (s : Nat) (hs : s ≤ w)
    (h : (2 ^ s : Int) ∣ x.toInt) : (x.sshiftRight s) <<< s = x := by
  have hnat := (dvd_toInt_iff_toNat x s hs).1 h
  apply BitVec.eq_of_getLsbD_eq
  intro i hi
  rw [BitVec.getLsbD_shiftLeft, BitVec.getLsbD_sshiftRight]
  rcases Nat.lt_or_ge i s with his | his
  · have hbit : x.toNat.testBit i = false := by
      obtain ⟨q, hq⟩ := hnat
      rw [hq, Nat.testBit_two_pow_mul]
      simp [Nat.not_le.2 his]
    simp [his, BitVec.getLsbD, hbit]
  · have hback : s + (i - s) = i := by omega
    simp [hi, Nat.not_lt.2 his, hback, show ¬ w ≤ i - s by omega]

/-- An offset kept as an `n`-bit count of `2 ^ s` bytes is read back whole. -/
theorem scaled_field_round_trip {w n s : Nat} (x : BitVec w) (hn : 0 < n) (hw : n ≤ w) (hs : s ≤ w)
    (hdvd : (2 ^ s : Int) ∣ x.toInt) (h : Fits n (x.toInt / 2 ^ s)) :
    ((x.sshiftRight s).setWidth n).signExtend w <<< s = x := by
  rw [signExtend_setWidth_of_fits _ hn hw, shiftLeft_sshiftRight_of_dvd x s hs hdvd]
  rw [BitVec.toInt_sshiftRight, Int.shiftRight_eq_div_pow]
  exact_mod_cast h

theorem fits_signExtend {w n : Nat} (f : BitVec n) (hw : n ≤ w) :
    Fits n (f.signExtend w).toInt := by
  have hlo := BitVec.le_toInt f
  have hhi := BitVec.toInt_lt (x := f)
  rw [BitVec.toInt_signExtend_of_le hw]
  exact ⟨hlo, hhi⟩

theorem getLsbD_signExtend_scaled {n w s j : Nat} (f : BitVec n) (hj : j < n) (h : n + s ≤ w) :
    ((f.signExtend w <<< s).sshiftRight s).getLsbD j = f.getLsbD j := by
  rw [BitVec.getLsbD_sshiftRight, BitVec.getLsbD_shiftLeft, BitVec.getLsbD_signExtend]
  simp [hj, show s + j < w by omega, show j < w by omega]

/-! ## The sign trick `(v ^ sign) - sign` -/

theorem xor_two_pow_of_lt {t n : Nat} (h : t < 2 ^ n) : t ^^^ 2 ^ n = 2 ^ n + t := by
  have hbit : t.testBit n = false := Nat.testBit_lt_two_pow h
  have hor : 2 ^ n + t = 2 ^ n ||| t := by simpa using Nat.two_pow_add_eq_or_of_lt h 1
  rw [hor]
  apply Nat.eq_of_testBit_eq
  intro j
  rw [Nat.testBit_xor, Nat.testBit_or, Nat.testBit_two_pow]
  by_cases hj : n = j
  · simp [← hj, hbit]
  · simp [hj]

theorem two_pow_add_xor_two_pow {r n : Nat} (h : r < 2 ^ n) : (2 ^ n + r) ^^^ 2 ^ n = r := by
  rw [← xor_two_pow_of_lt h, Nat.xor_assoc, Nat.xor_self, Nat.xor_zero]

theorem xor_sub_eq_signExtend {m w : Nat} (n : Nat) (v : BitVec m) (hn : n < m) (hm : m ≤ w)
    (hv : v.toNat < 2 ^ (n + 1)) :
    (v ^^^ BitVec.twoPow m n).setWidth w - (BitVec.twoPow m n).setWidth w =
      (v.setWidth (n + 1)).signExtend w := by
  have hnw : (2 : Nat) ^ (n + 1) ≤ 2 ^ w := Nat.pow_le_pow_right (by omega) (by omega)
  have hmw : (2 : Nat) ^ m ≤ 2 ^ w := Nat.pow_le_pow_right (by omega) hm
  have hnm : (2 : Nat) ^ (n + 1) ≤ 2 ^ m := Nat.pow_le_pow_right (by omega) (by omega)
  have hsucc : (2 : Nat) ^ (n + 1) = 2 ^ n + 2 ^ n := by rw [pow_succ]; omega
  have hpow : (2 : Nat) ^ n % 2 ^ m = 2 ^ n := Nat.mod_eq_of_lt (Nat.pow_lt_pow_right (by omega) hn)
  have hpow' : (2 : Nat) ^ n % 2 ^ w = 2 ^ n := Nat.mod_eq_of_lt (by omega)
  have hmsb : (v.setWidth (n + 1)).msb = decide (2 ^ n ≤ v.toNat) := by
    rw [BitVec.msb_eq_decide, BitVec.toNat_setWidth, Nat.mod_eq_of_lt hv, Nat.add_sub_cancel]
  apply BitVec.eq_of_toNat_eq
  rw [BitVec.toNat_signExtend, hmsb, BitVec.toNat_sub, BitVec.toNat_setWidth, BitVec.toNat_setWidth,
    BitVec.toNat_setWidth, BitVec.toNat_setWidth, BitVec.toNat_xor, BitVec.toNat_twoPow, hpow, hpow',
    Nat.mod_eq_of_lt hv, Nat.mod_eq_of_lt (show v.toNat < 2 ^ w by omega)]
  rcases Nat.lt_or_ge v.toNat (2 ^ n) with hlow | hhigh
  · rw [xor_two_pow_of_lt hlow, Nat.mod_eq_of_lt (show 2 ^ n + v.toNat < 2 ^ w by omega)]
    have hsum : 2 ^ w - 2 ^ n + (2 ^ n + v.toNat) = v.toNat + 2 ^ w := by omega
    rw [hsum, Nat.add_mod_right, Nat.mod_eq_of_lt (by omega)]
    simp [Nat.not_le.2 hlow]
  · obtain ⟨r, hr⟩ := Nat.exists_eq_add_of_le hhigh
    have hrlt : r < 2 ^ n := by omega
    rw [hr, two_pow_add_xor_two_pow hrlt, Nat.mod_eq_of_lt (show r < 2 ^ w by omega),
      Nat.mod_eq_of_lt (show 2 ^ w - 2 ^ n + r < 2 ^ w by omega)]
    simp
    omega

theorem xor_sub_setWidth {n m w : Nat} (f : BitVec n) (hpos : 0 < n) (hn : n ≤ m) (hm : m ≤ w) :
    (f.setWidth m ^^^ BitVec.twoPow m (n - 1)).setWidth w - (BitVec.twoPow m (n - 1)).setWidth w =
      f.signExtend w := by
  obtain ⟨k, rfl⟩ : ∃ k, n = k + 1 := ⟨n - 1, by omega⟩
  have hlt : (f.setWidth m).toNat < 2 ^ (k + 1) := by
    rw [BitVec.toNat_setWidth_of_le hn]
    exact f.isLt
  rw [Nat.add_sub_cancel, xor_sub_eq_signExtend k _ (by omega) hm hlt,
    BitVec.setWidth_setWidth_of_le _ hn, BitVec.setWidth_eq]

/-! ## Distances modulo a smaller width -/

/-- A distance leads to its target also when both are cut to a narrower address. -/
theorem setWidth_add_sub {w n : Nat} (h : n ≤ w) (x y : BitVec w) :
    x.setWidth n + (y - x).setWidth n = y.setWidth n := by
  rw [← BitVec.setWidth_add _ _ h, BitVec.add_comm, BitVec.sub_add_cancel]

theorem setWidth_add_ofNat {w n : Nat} (h : n ≤ w) (x : BitVec w) (k : Nat) :
    (x + BitVec.ofNat w k).setWidth n = x.setWidth n + BitVec.ofNat n k := by
  rw [BitVec.setWidth_add _ _ h, BitVec.setWidth_ofNat_of_le h]

theorem setWidth_signExtend_shiftLeft {w n k : Nat} (h : n ≤ w) (f : BitVec k) (s : Nat) :
    (f.signExtend w <<< s).setWidth n = f.signExtend n <<< s := by
  apply BitVec.eq_of_getLsbD_eq
  intro i hi
  simp only [BitVec.getLsbD_setWidth, BitVec.getLsbD_shiftLeft, BitVec.getLsbD_signExtend]
  simp [hi, show i < w by omega, show i - s < w by omega, show i - s < n by omega]

/-! ## Fields of a word -/

variable {w : Nat}

def mask (w n : Nat) : BitVec w := BitVec.ofNat w (2 ^ n - 1)

/-- The `n` bits from bit `s` on. -/
def field (n s : Nat) (x : BitVec w) : BitVec n := (x >>> s).setWidth n

/-- Put the low `n` bits of `v` at bit `s`. -/
def setField (n s : Nat) (x v : BitVec w) : BitVec w :=
  (x &&& ~~~(mask w n <<< s)) ||| ((v &&& mask w n) <<< s)

theorem mask_getLsbD (w n i : Nat) : (mask w n).getLsbD i = (decide (i < w) && decide (i < n)) := by
  rw [mask, BitVec.getLsbD_ofNat, Nat.testBit_two_pow_sub_one]

theorem field_getLsbD (n s : Nat) (x : BitVec w) (i : Nat) :
    (field n s x).getLsbD i = (decide (i < n) && x.getLsbD (s + i)) := by
  rw [field, BitVec.getLsbD_setWidth, BitVec.getLsbD_ushiftRight]

theorem and_mask_eq_setWidth_field (n : Nat) (x : BitVec w) :
    x &&& mask w n = (field n 0 x).setWidth w := by
  apply BitVec.eq_of_getLsbD_eq
  intro i hi
  rw [BitVec.getLsbD_and, mask_getLsbD, BitVec.getLsbD_setWidth, field_getLsbD]
  simp [hi, Bool.and_comm]

theorem setField_getLsbD (n s : Nat) (x v : BitVec w) (i : Nat) (hi : i < w) :
    (setField n s x v).getLsbD i =
      if s ≤ i ∧ i < s + n then v.getLsbD (i - s) else x.getLsbD i := by
  simp only [setField, BitVec.getLsbD_or, BitVec.getLsbD_and, BitVec.getLsbD_not,
    BitVec.getLsbD_shiftLeft, mask_getLsbD]
  rcases Nat.lt_or_ge i s with his | his
  · simp [hi, his, Nat.not_le.2 his]
  · have hsub : i - s < n ↔ i < s + n := by omega
    by_cases hin : i < s + n
    · simp [hi, his, Nat.not_lt.2 his, hsub, hin, show i - s < w by omega]
    · simp [hi, his, Nat.not_lt.2 his, hsub, hin]

theorem field_setField (n s : Nat) (x v : BitVec w) (h : s + n ≤ w) :
    field n s (setField n s x v) = v.setWidth n := by
  apply BitVec.eq_of_getLsbD_eq
  intro i hi
  have hlt : s + i < w := by omega
  rw [field_getLsbD, setField_getLsbD n s x v _ hlt, BitVec.getLsbD_setWidth]
  simp [hi]

theorem field_setField_of_disjoint (n s : Nat) (x v : BitVec w) {m t : Nat} (hw : t + m ≤ w)
    (h : t + m ≤ s ∨ s + n ≤ t) : field m t (setField n s x v) = field m t x := by
  apply BitVec.eq_of_getLsbD_eq
  intro i hi
  rw [field_getLsbD, field_getLsbD, setField_getLsbD n s x v _ (by omega), if_neg (by omega)]

theorem setField_and (n s : Nat) (x v k : BitVec w) (hk : (mask w n <<< s) &&& k = 0#w) :
    setField n s x v &&& k = x &&& k := by
  apply BitVec.eq_of_getLsbD_eq
  intro i hi
  have hbit : ((mask w n <<< s) &&& k).getLsbD i = false := by rw [hk, BitVec.getLsbD_zero]
  rw [BitVec.getLsbD_and, BitVec.getLsbD_shiftLeft, mask_getLsbD] at hbit
  rw [BitVec.getLsbD_and, BitVec.getLsbD_and, setField_getLsbD n s x v i hi]
  split
  · next hin =>
    have hkbit : k.getLsbD i = false := by
      simpa [hi, show ¬ i < s by omega, show i - s < w by omega, show i - s < n by omega] using hbit
    simp [hkbit]
  · rfl

theorem or_and_mask_eq_setField (n s : Nat) (c v : BitVec w) (hc : c &&& ~~~(mask w n <<< s) = c) :
    c ||| ((v &&& mask w n) <<< s) = setField n s c v := by
  rw [setField, hc]

theorem and_mask_eq_zero_iff (x : BitVec w) (n : Nat) (h : n ≤ w) :
    x &&& mask w n = 0#w ↔ 2 ^ n ∣ x.toNat := by
  have hlt : 2 ^ n - 1 < 2 ^ w :=
    Nat.lt_of_lt_of_le (Nat.sub_lt (Nat.two_pow_pos n) (by omega)) (Nat.pow_le_pow_right (by omega) h)
  rw [← BitVec.toNat_inj, BitVec.toNat_and, mask, BitVec.toNat_ofNat, Nat.mod_eq_of_lt hlt,
    Nat.and_two_pow_sub_one_eq_mod, BitVec.toNat_ofNat, Nat.zero_mod, Nat.dvd_iff_mod_eq_zero]

theorem and_not_mask_of_dvd (x : BitVec w) (n : Nat) (h : n ≤ w) (hdvd : 2 ^ n ∣ x.toNat) :
    x &&& ~~~mask w n = x := by
  have hzero := (and_mask_eq_zero_iff x n h).2 hdvd
  have hsplit : x &&& ~~~mask w n ||| x &&& mask w n = x := by
    rw [← BitVec.and_or_distrib_left, BitVec.or_comm, BitVec.or_not_self, BitVec.and_allOnes]
  rw [hzero, BitVec.or_zero] at hsplit
  exact hsplit

theorem dvd_add (x y : BitVec w) (n : Nat) (h : n ≤ w) (hx : 2 ^ n ∣ x.toNat)
    (hy : 2 ^ n ∣ y.toNat) : 2 ^ n ∣ (x + y).toNat := by
  rw [BitVec.toNat_add, Nat.dvd_mod_iff (Nat.pow_dvd_pow 2 h)]
  exact Nat.dvd_add hx hy

theorem dvd_sub (x y : BitVec w) (n : Nat) (h : n ≤ w) (hx : 2 ^ n ∣ x.toNat)
    (hy : 2 ^ n ∣ y.toNat) : 2 ^ n ∣ (x - y).toNat := by
  have hpow := Nat.pow_dvd_pow 2 h
  rw [BitVec.toNat_sub, Nat.dvd_mod_iff hpow]
  exact Nat.dvd_add (Nat.dvd_sub hpow hy) hx

theorem dvd_shiftLeft (x : BitVec w) (n : Nat) (h : n ≤ w) : 2 ^ n ∣ (x <<< n).toNat := by
  rw [BitVec.toNat_shiftLeft, Nat.shiftLeft_eq, Nat.dvd_mod_iff (Nat.pow_dvd_pow 2 h)]
  exact Nat.dvd_mul_left _ _

theorem dvd_and_not_mask (x : BitVec w) (n : Nat) (h : n ≤ w) :
    2 ^ n ∣ (x &&& ~~~mask w n).toNat := by
  rw [← and_mask_eq_zero_iff _ n h, BitVec.and_assoc, BitVec.not_and_self]
  exact BitVec.and_zero

theorem add_and_not_mask (x y : BitVec w) (n : Nat) (h : n ≤ w) (hy : 2 ^ n ∣ y.toNat) :
    (x + y) &&& ~~~mask w n = (x &&& ~~~mask w n) + y := by
  have hunits := dvd_add _ y n h (dvd_and_not_mask x n h) hy
  have hsplit : x = (x &&& ~~~mask w n) + (x &&& mask w n) := by
    rw [BitVec.add_eq_or_of_and_eq_zero, ← BitVec.and_or_distrib_left, BitVec.or_comm,
      BitVec.or_not_self, BitVec.and_allOnes]
    apply BitVec.eq_of_getLsbD_eq
    intro i hi
    simp only [BitVec.getLsbD_and, BitVec.getLsbD_not, BitVec.getLsbD_zero]
    cases (mask w n).getLsbD i <;> simp
  have hlow : ((x &&& ~~~mask w n) + y) &&& (x &&& mask w n) = 0#w := by
    rw [BitVec.and_comm x (mask w n), ← BitVec.and_assoc, (and_mask_eq_zero_iff _ n h).2 hunits,
      BitVec.zero_and]
  have hsum : x + y = ((x &&& ~~~mask w n) + y) ||| (x &&& mask w n) := by
    rw [← BitVec.add_eq_or_of_and_eq_zero _ _ hlow]
    conv_lhs => rw [hsplit]
    rw [BitVec.add_assoc, BitVec.add_comm (x &&& mask w n), ← BitVec.add_assoc]
  have hdrop : x &&& mask w n &&& ~~~mask w n = 0#w := by
    rw [BitVec.and_assoc, BitVec.and_not_self]
    exact BitVec.and_zero
  rw [hsum, BitVec.and_or_distrib_right, hdrop, BitVec.or_zero, and_not_mask_of_dvd _ n h hunits]

theorem setField_congr (n s : Nat) {x y : BitVec w} (v : BitVec w)
    (h : x &&& ~~~(mask w n <<< s) = y &&& ~~~(mask w n <<< s)) :
    setField n s x v = setField n s y v := by
  rw [setField, setField, h]

theorem setField_self (n s : Nat) (x v : BitVec w) (h : ∀ j < n, v.getLsbD j = x.getLsbD (s + j)) :
    setField n s x v = x := by
  apply BitVec.eq_of_getLsbD_eq
  intro i hi
  rw [setField_getLsbD _ _ _ _ _ hi]
  split
  · next hin => rw [h _ (by omega), Nat.add_sub_of_le hin.1]
  · rfl

theorem dvd_setWidth {v : Nat} (x : BitVec w) (n : Nat) (h : n ≤ v) (hdvd : 2 ^ n ∣ x.toNat) :
    2 ^ n ∣ (x.setWidth v).toNat := by
  rw [BitVec.toNat_setWidth]
  exact (Nat.dvd_mod_iff (Nat.pow_dvd_pow 2 h)).2 hdvd

end SignedField
