import AsmKit.Lib.SignedField

/-!
# What an offset field reaches

The distances that a signed field of `n` bits can name when it counts units of `2 ^ s` bytes, and
when an interval of distances is the one of a field.
-/

namespace SignedField

variable {w n m s : Nat}

/-- Some value of an `n`-bit field, widened and scaled, is the distance. -/
def Expressible (n s : Nat) (disp : BitVec w) : Prop := ∃ f : BitVec n, f.signExtend w <<< s = disp

/-- The distance lies between the least and the greatest of an `n`-bit field. -/
def InSpan (n s : Nat) (disp : BitVec w) : Prop :=
  -(2 ^ (n - 1) : Int) * 2 ^ s ≤ disp.toInt ∧ disp.toInt ≤ (2 ^ (n - 1) - 1) * 2 ^ s

instance (n s : Nat) (disp : BitVec w) : Decidable (InSpan n s disp) :=
  inferInstanceAs (Decidable (_ ∧ _))

theorem inSpan_iff_fits {disp : BitVec w} (hdvd : (2 ^ s : Int) ∣ disp.toInt) :
    InSpan n s disp ↔ Fits n (disp.toInt / 2 ^ s) := by
  have hpos : (0 : Int) < 2 ^ s := by positivity
  obtain ⟨q, hq⟩ := hdvd
  rw [InSpan, Fits, hq, Int.mul_ediv_cancel_left _ hpos.ne', Int.mul_comm (2 ^ s) q,
    Int.mul_le_mul_right hpos, Int.mul_le_mul_right hpos, Int.le_sub_one_iff]

theorem toInt_signExtend_shiftLeft (f : BitVec n) (hn : 0 < n) (h : n + s ≤ w) :
    (f.signExtend w <<< s).toInt = f.toInt * 2 ^ s := by
  have hlo := BitVec.le_toInt f
  have hhi := BitVec.toInt_lt (x := f)
  have hpos : (0 : Int) < 2 ^ s := by positivity
  have hpow : (2 ^ (w - 1) : Int) = 2 ^ (w - 1 - s) * 2 ^ s := by
    rw [← pow_add]
    congr 1
    omega
  have hle : (2 ^ (n - 1) : Int) ≤ 2 ^ (w - 1 - s) := pow_le_pow_right₀ (by decide) (by omega)
  have hfloor : -(2 ^ (w - 1 - s) : Int) * 2 ^ s ≤ f.toInt * 2 ^ s :=
    Int.mul_le_mul_of_nonneg_right (by omega) hpos.le
  have hroof : f.toInt * 2 ^ s < 2 ^ (w - 1 - s) * 2 ^ s :=
    Int.mul_lt_mul_of_pos_right (by omega) hpos
  have hunit : BitVec.ofInt w (2 ^ s) = BitVec.twoPow w s := by
    have hcast : (2 ^ s : Int) = ((2 ^ s : Nat) : Int) := by push_cast; rfl
    apply BitVec.eq_of_toNat_eq
    rw [hcast, BitVec.ofInt_natCast, BitVec.toNat_ofNat, BitVec.toNat_twoPow]
  rw [BitVec.shiftLeft_eq_mul_twoPow, BitVec.signExtend, ← hunit, ← BitVec.ofInt_mul,
    BitVec.toInt_ofInt_eq_self (by omega)]
  · rw [hpow, ← Int.neg_mul]
    exact hfloor
  · rw [hpow]
    exact hroof

/-- A field names the whole units in its range, and nothing else. -/
theorem expressible_iff {disp : BitVec w} (hn : 0 < n) (h : n + s ≤ w) :
    Expressible n s disp ↔ (2 ^ s : Int) ∣ disp.toInt ∧ InSpan n s disp := by
  constructor
  · rintro ⟨f, rfl⟩
    have hdvd : (2 ^ s : Int) ∣ (f.signExtend w <<< s).toInt := by
      rw [toInt_signExtend_shiftLeft f hn h]
      exact Int.dvd_mul_left _ _
    refine ⟨hdvd, (inSpan_iff_fits hdvd).2 ?_⟩
    rw [toInt_signExtend_shiftLeft f hn h, Int.mul_ediv_cancel _ (by positivity)]
    exact ⟨BitVec.le_toInt f, BitVec.toInt_lt⟩
  · rintro ⟨hdvd, hspan⟩
    exact ⟨_, scaled_field_round_trip disp hn (by omega) (by omega) hdvd ((inSpan_iff_fits hdvd).1 hspan)⟩

theorem exists_aligned_target (base : BitVec w) (hm : 0 < m) (h : m + s ≤ w) :
    ∃ target : BitVec w, 2 ^ s ∣ target.toNat ∧
      (target - base).toInt = (2 ^ (m - 1) - 1) * 2 ^ s - (base.toNat % 2 ^ s : Nat) := by
  have hunit := Nat.two_pow_pos s
  have hr := Nat.mod_lt base.toNat hunit
  have hrle := Nat.mod_le base.toNat (2 ^ s)
  have hfar : (2 ^ (m - 1) : Nat) * 2 ^ s ≤ 2 ^ (w - 1) := by
    rw [← pow_add]
    exact Nat.pow_le_pow_right (by decide) (by omega)
  have hone : 1 ≤ 2 ^ (m - 1) := Nat.one_le_two_pow
  have hcast : ((2 ^ (m - 1) - 1) * 2 ^ s : Int) = (((2 ^ (m - 1) - 1) * 2 ^ s : Nat) : Int) := by
    push_cast [hone]
    rfl
  have hsplit : (2 ^ (m - 1) - 1) * 2 ^ s + 2 ^ s = 2 ^ (m - 1) * 2 ^ s := by
    rw [← Nat.succ_mul, Nat.succ_eq_add_one, Nat.sub_add_cancel hone]
  generalize hd : (2 ^ (m - 1) - 1) * 2 ^ s = d at hcast hsplit
  have hdisp : BitVec.ofNat w (base.toNat - base.toNat % 2 ^ s + d) - base =
      BitVec.ofInt w (d - (base.toNat % 2 ^ s : Nat)) := by
    have hbase : base = BitVec.ofInt w base.toNat := by
      rw [BitVec.ofInt_natCast, BitVec.ofNat_toNat, BitVec.setWidth_eq]
    have hsum : ((base.toNat - base.toNat % 2 ^ s + d : Nat) : Int) =
        d - (base.toNat % 2 ^ s : Nat) + base.toNat := by omega
    rw [BitVec.sub_eq_iff_eq_add, ← BitVec.ofInt_natCast, hsum, BitVec.ofInt_add, ← hbase]
  refine ⟨BitVec.ofNat w (base.toNat - base.toNat % 2 ^ s + d), ?_, ?_⟩
  · rw [BitVec.toNat_ofNat, Nat.dvd_mod_iff (Nat.pow_dvd_pow 2 (by omega)), ← hd]
    exact Nat.dvd_add (Nat.dvd_sub_mod _) (Nat.dvd_mul_left _ _)
  · have hpow : (2 ^ (w - 1) : Int) = ((2 ^ (w - 1) : Nat) : Int) := by push_cast; rfl
    rw [hdisp, hcast, BitVec.toInt_ofInt_eq_self (by omega)]
    · rw [hpow]
      omega
    · rw [hpow]
      omega

/-- An interval is the one of a field just when it is as wide, for a base that is aligned as the
targets are. -/
theorem expressible_iff_inSpan_iff (base : BitVec w) (hn : 0 < n) (hnm : n ≤ m) (h : m + s ≤ w) :
    (∀ target : BitVec w, 2 ^ s ∣ target.toNat →
      (Expressible n s (target - base) ↔ InSpan m s (target - base))) ↔
      n = m ∧ 2 ^ s ∣ base.toNat := by
  constructor
  · intro hexact
    obtain ⟨target, haligned, hdisp⟩ := exists_aligned_target base (by omega) h
    have hr := Nat.mod_lt base.toNat (Nat.two_pow_pos s)
    have hunit : (0 : Int) < 2 ^ s := by positivity
    have hcast : ((2 ^ s : Nat) : Int) = 2 ^ s := by push_cast; rfl
    have hfar : (0 : Int) ≤ (2 ^ (m - 1) - 1) * 2 ^ s := by
      have hone : (1 : Int) ≤ 2 ^ (m - 1) := one_le_pow₀ (by decide)
      exact Int.mul_nonneg (by omega) hunit.le
    have hspan : InSpan m s (target - base) := by
      refine ⟨?_, by omega⟩
      rw [Int.sub_mul] at hfar hdisp
      rw [Int.neg_mul]
      omega
    obtain ⟨hdvd, -, hle⟩ := (expressible_iff hn (by omega)).1 ((hexact target haligned).2 hspan)
    have hzero : base.toNat % 2 ^ s = 0 := by
      rw [hdisp, dvd_sub_right (Int.dvd_mul_left _ _), ← hcast, Int.natCast_dvd_natCast] at hdvd
      exact Nat.eq_zero_of_dvd_of_lt hdvd hr
    refine ⟨?_, Nat.dvd_of_mod_eq_zero hzero⟩
    rw [hdisp, hzero, Nat.cast_zero, Int.sub_zero, Int.mul_le_mul_right hunit] at hle
    have hpow : (2 ^ (m - 1) : Int) ≤ 2 ^ (n - 1) := by omega
    have hwidth := (pow_le_pow_iff_right₀ (by decide : (1 : Int) < 2)).1 hpow
    omega
  · rintro ⟨rfl, hbase⟩ target htarget
    have hs : s ≤ w := by omega
    rw [expressible_iff hn h, and_iff_right]
    exact (dvd_toInt_iff_toNat _ _ hs).2 (dvd_sub _ _ _ hs htarget hbase)

end SignedField
