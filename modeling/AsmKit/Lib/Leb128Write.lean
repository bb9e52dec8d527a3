import AsmKit.Lib.Leb128

/-!
# Writing base-128 numbers

The writer stops at the first group behind which nothing is left. Of a signed number nothing is left
when all further bits repeat bit 6 of the group.
-/

namespace Leb128

variable {w n m k offset bits : Nat} {code tail : List Byte} {value acc : BitVec w}

/-! ## Writers -/

/-- The next seven bits. -/
def group (value : BitVec w) : Byte := (value &&& 0x7f).setWidth 8

/-- Writes a number in at most `n` groups. -/
def write (w : Nat) : Nat → BitVec w → List Byte
  | 0, _ => []
  | n + 1, value =>
    let rest := value >>> 7
    if rest = 0 then [group value] else (group value ||| 0x80) :: write w n rest

/-- The group is the last of a signed number. -/
def EndsSigned (value : BitVec w) : Prop :=
  value.sshiftRight 7 = 0 ∧ group value &&& 0x40 = 0 ∨
    value.sshiftRight 7 = -1 ∧ group value &&& 0x40 ≠ 0

instance (value : BitVec w) : Decidable (EndsSigned value) := by unfold EndsSigned; infer_instance

def writeSigned (w : Nat) : Nat → BitVec w → List Byte
  | 0, _ => []
  | n + 1, value =>
    if EndsSigned value then [group value]
    else (group value ||| 0x80) :: writeSigned w n (value.sshiftRight 7)

/-- The groups of a number, counted without writing it. -/
def size (w : Nat) : Nat → BitVec w → Nat
  | 0, _ => 0
  | n + 1, value => if 0x80 ≤ value then size w n (value >>> 7) + 1 else 1

def sizeSigned (w : Nat) : Nat → BitVec w → Nat
  | 0, _ => 0
  | n + 1, value => if EndsSigned value then 1 else sizeSigned w n (value.sshiftRight 7) + 1

/-! ## What fits -/

/-- The number has no bit behind its first `k` groups. -/
def Fits (k : Nat) (value : BitVec w) : Prop := ∀ i, 7 * k ≤ i → value.getLsbD i = false

/-- All bits from the last of the first `k` groups on are the sign. -/
def FitsSigned (k : Nat) (value : BitVec w) : Prop :=
  ∀ i, 7 * k ≤ i + 1 → i < w → value.getLsbD i = value.msb

theorem mask_getLsbD (i : Nat) : (0x7f : BitVec w).getLsbD i = (decide (i < w) && decide (i < 7)) := by
  have hmask : (0x7f : BitVec w) = BitVec.ofNat w (2 ^ 7 - 1) := rfl
  rw [hmask, BitVec.getLsbD_ofNat, Nat.testBit_two_pow_sub_one]

theorem group_getLsbD (value : BitVec w) (i : Nat) :
    (group value).getLsbD i = (decide (i < 7) && value.getLsbD i) := by
  simp only [group, BitVec.getLsbD_setWidth, BitVec.getLsbD_and, mask_getLsbD]
  by_cases hw : i < w
  · by_cases h7 : i < 7
    · simp [hw, h7, show i < 8 by omega]
    · simp [h7]
  · simp [BitVec.getLsbD_of_ge value i (by omega)]

theorem fits_one_iff : Fits 1 value ↔ value >>> 7 = 0 := by
  constructor
  · intro hfits
    apply BitVec.eq_of_getLsbD_eq
    intro i hi
    rw [BitVec.getLsbD_ushiftRight, hfits (7 + i) (by omega)]
    simp
  · intro hrest i hi
    have hbit := congrArg (BitVec.getLsbD · (i - 7)) hrest
    simp only [BitVec.getLsbD_ushiftRight] at hbit
    rw [show 7 + (i - 7) = i by omega] at hbit
    rw [hbit]
    simp

theorem fits_succ_iff : Fits (k + 1) value ↔ Fits k (value >>> 7) := by
  constructor
  · intro hfits i hi
    rw [BitVec.getLsbD_ushiftRight]
    exact hfits _ (by omega)
  · intro hfits i hi
    have hbit := hfits (i - 7) (by omega)
    rwa [BitVec.getLsbD_ushiftRight, show 7 + (i - 7) = i by omega] at hbit

theorem fits_of_le (hw : w ≤ 7 * k) : Fits k value :=
  fun i hi => BitVec.getLsbD_of_ge value i (by omega)

theorem fitsSigned_of_le (hw : w ≤ 7 * k) : FitsSigned k value := by
  intro i hi hlt
  rw [BitVec.msb_eq_getLsbD_last, show w - 1 = i by omega]

theorem sshiftRight_getLsbD {i : Nat} (hi : i < w) :
    (value.sshiftRight 7).getLsbD i = if 7 + i < w then value.getLsbD (7 + i) else value.msb := by
  rw [BitVec.getLsbD_sshiftRight]
  simp [show ¬ w ≤ i by omega]

theorem fitsSigned_succ_iff (hk : 0 < k) :
    FitsSigned (k + 1) value ↔ FitsSigned k (value.sshiftRight 7) := by
  constructor
  · intro hfits i hi hlt
    rw [BitVec.msb_sshiftRight, sshiftRight_getLsbD hlt]
    split
    · exact hfits _ (by omega) ‹_›
    · rfl
  · intro hfits i hi hlt
    have hbit := hfits (i - 7) (by omega) (by omega)
    rwa [BitVec.msb_sshiftRight, sshiftRight_getLsbD (by omega), show 7 + (i - 7) = i by omega,
      if_pos hlt] at hbit

/-! ## The bits of a group -/

theorem group_eq (value : BitVec w) : group value = value.setWidth 8 &&& 0x7f := by
  apply BitVec.eq_of_getLsbD_eq
  intro i hi
  rw [group_getLsbD, BitVec.getLsbD_and, mask_getLsbD, BitVec.getLsbD_setWidth]
  simp [hi, Bool.and_comm]

@[simp] theorem group_and_mask : group value &&& 0x7f = group value := by
  rw [group_eq, BitVec.and_assoc, BitVec.and_self]

@[simp] theorem group_and_more : group value &&& 0x80 = 0 := by
  rw [group_eq, BitVec.and_assoc]
  exact BitVec.and_zero

@[simp] theorem more_and_mask : (group value ||| 0x80) &&& 0x7f = group value := by
  rw [BitVec.and_or_distrib_right, group_and_mask]
  exact BitVec.or_zero

@[simp] theorem more_and_more : (group value ||| 0x80) &&& 0x80 = 0x80 := by
  rw [BitVec.and_or_distrib_right, group_and_more]
  rfl

theorem and_bit6_iff (b : Byte) : b &&& 0x40 ≠ 0 ↔ b.getLsbD 6 = true := by
  have hmask : (0x40 : Byte) = BitVec.twoPow 8 6 := rfl
  rw [hmask, BitVec.and_twoPow]
  cases b.getLsbD 6 with
  | false => simp
  | true => exact iff_of_true (by decide) rfl

theorem endsSigned_iff :
    EndsSigned value ↔ value.sshiftRight 7 = if value.getLsbD 6 then -1 else 0 := by
  have hbit : group value &&& 0x40 ≠ 0 ↔ value.getLsbD 6 = true := by
    rw [and_bit6_iff, group_getLsbD]
    simp
  have hclear : group value &&& 0x40 = 0 ↔ value.getLsbD 6 = false := by
    rw [← not_iff_not, ← ne_eq, hbit, Bool.not_eq_false]
  unfold EndsSigned
  rw [hbit, hclear]
  cases value.getLsbD 6 <;> simp

theorem fitsSigned_one_iff (hw : 7 ≤ w) : FitsSigned 1 value ↔ EndsSigned value := by
  have hsign (b : Bool) (i : Nat) (hi : i < w) : (if b then -1 else 0 : BitVec w).getLsbD i = b := by
    cases b <;> simp [hi, BitVec.neg_one_eq_allOnes]
  rw [endsSigned_iff]
  constructor
  · intro hfits
    apply BitVec.eq_of_getLsbD_eq
    intro i hi
    rw [hsign _ i hi, sshiftRight_getLsbD hi, hfits 6 (by omega) (by omega)]
    split
    · exact hfits _ (by omega) ‹_›
    · rfl
  · intro hrest
    have hbit (i : Nat) (hi : 6 ≤ i) (hlt : i < w) : value.getLsbD i = value.getLsbD 6 := by
      rcases Nat.eq_or_lt_of_le hi with rfl | hmore
      · rfl
      · have hshift := congrArg (BitVec.getLsbD · (i - 7)) hrest
        simp only [hsign _ (i - 7) (by omega), @sshiftRight_getLsbD w value (i - 7)
          (by omega)] at hshift
        rwa [show 7 + (i - 7) = i by omega, if_pos hlt] at hshift
    intro i hi hlt
    rw [BitVec.msb_eq_getLsbD_last, hbit i (by omega) hlt, hbit (w - 1) (by omega) (by omega)]

/-! ## Lengths -/

theorem fits_one_iff_lt (hw : 8 ≤ w) : Fits 1 value ↔ ¬ (0x80 : BitVec w) ≤ value := by
  have hpow : 2 ^ 8 ≤ 2 ^ w := Nat.pow_le_pow_right (by omega) hw
  rw [fits_one_iff, BitVec.le_def, BitVec.toNat_eq, BitVec.toNat_ushiftRight]
  have hmore : (0x80 : BitVec w).toNat = 0x80 := Nat.mod_eq_of_lt (show 0x80 < 2 ^ w by omega)
  have hzero : (0 : BitVec w).toNat = 0 := Nat.zero_mod _
  rw [hmore, hzero, Nat.shiftRight_eq_div_pow]
  omega

theorem write_succ (n : Nat) (value : BitVec w) : write w (n + 1) value =
    if value >>> 7 = 0 then [group value] else (group value ||| 0x80) :: write w n (value >>> 7) := rfl

theorem length_write (hw : 8 ≤ w) (n : Nat) (value : BitVec w) :
    (write w n value).length = size w n value := by
  induction n generalizing value with
  | zero => rfl
  | succ n ih =>
    rw [write_succ, size]
    by_cases hlast : Fits 1 value
    · rw [if_pos (fits_one_iff.1 hlast), if_neg ((fits_one_iff_lt hw).1 hlast)]
      rfl
    · rw [if_neg (mt fits_one_iff.2 hlast), if_pos (not_not.1 (mt (fits_one_iff_lt hw).2 hlast)),
        List.length_cons, ih]

theorem length_writeSigned (n : Nat) (value : BitVec w) :
    (writeSigned w n value).length = sizeSigned w n value := by
  induction n generalizing value with
  | zero => rfl
  | succ n ih =>
    simp only [writeSigned, sizeSigned]
    split
    · rfl
    · rw [List.length_cons, ih]

/-- No shorter number has the value. -/
theorem length_write_le (hk : 0 < k) (hfits : Fits k value) : (write w n value).length ≤ k := by
  induction n generalizing k value with
  | zero => exact Nat.zero_le k
  | succ n ih =>
    rw [write_succ]
    split
    · exact hk
    · next hmore =>
      obtain ⟨k, rfl⟩ := Nat.exists_eq_add_of_lt hk
      rw [Nat.zero_add] at hfits ⊢
      have hpos : 0 < k := by
        rcases Nat.eq_zero_or_pos k with rfl | hpos
        · exact absurd (fits_one_iff.1 hfits) hmore
        · exact hpos
      have := ih hpos (fits_succ_iff.1 hfits)
      rw [List.length_cons]
      omega

theorem length_writeSigned_le (hw : 7 ≤ w) (hk : 0 < k) (hfits : FitsSigned k value) :
    (writeSigned w n value).length ≤ k := by
  induction n generalizing k value with
  | zero => exact Nat.zero_le k
  | succ n ih =>
    simp only [writeSigned]
    split
    · exact hk
    · next hmore =>
      obtain ⟨k, rfl⟩ := Nat.exists_eq_add_of_lt hk
      rw [Nat.zero_add] at hfits ⊢
      have hpos : 0 < k := by
        rcases Nat.eq_zero_or_pos k with rfl | hpos
        · exact absurd ((fitsSigned_one_iff hw).1 hfits) hmore
        · exact hpos
      have := ih hpos ((fitsSigned_succ_iff hpos).1 hfits)
      rw [List.length_cons]
      omega

/-! ## Reading what was written -/

theorem getElem?_of_drop {b : Byte} {rest : List Byte} (hdrop : code.drop offset = b :: rest) :
    code[offset]? = some b ∧ code.drop (offset + 1) = rest := by
  constructor
  · rw [← Nat.add_zero offset, ← List.getElem?_drop, hdrop]
    rfl
  · rw [← List.tail_drop, hdrop]
    rfl

theorem read_last {b : Byte} {rest : List Byte} (hdrop : code.drop offset = b :: rest)
    (hlast : b &&& 0x80 = 0) : read w code (m + 1) offset bits acc =
      some ⟨acc ||| (b &&& 0x7f).setWidth w <<< bits, b, bits + 7, offset + 1⟩ := by
  simp only [read, (getElem?_of_drop hdrop).1, if_pos hlast]

theorem read_more {b : Byte} {rest : List Byte} (hdrop : code.drop offset = b :: rest)
    (hmore : b &&& 0x80 ≠ 0) : read w code (m + 1) offset bits acc =
      read w code m (offset + 1) (bits + 7) (acc ||| (b &&& 0x7f).setWidth w <<< bits) := by
  simp only [read, (getElem?_of_drop hdrop).1, if_neg hmore]

theorem group_shift_getLsbD (value : BitVec w) (bits i : Nat) :
    ((group value).setWidth w <<< bits).getLsbD i =
      (decide (i < w) && decide (bits ≤ i) && decide (i < bits + 7) && value.getLsbD (i - bits)) := by
  rw [BitVec.getLsbD_shiftLeft, BitVec.getLsbD_setWidth, group_getLsbD]
  by_cases hi : i < w
  · by_cases hle : bits ≤ i
    · simp [hi, hle, Nat.not_lt.2 hle, show i - bits < w by omega,
        show i - bits < 7 ↔ i < bits + 7 by omega]
    · simp [hle, show i < bits by omega]
  · simp [hi]

/-- **Reading back.** A number that fits is read as it was written. -/
theorem read_write (bits : Nat) (acc : BitVec w) (hn : 0 < n) (hm : n ≤ m) (hfits : Fits n value)
    (hdrop : code.drop offset = write w n value ++ tail) :
    ∃ number, read w code m offset bits acc = some number ∧
      number.value = acc ||| value <<< bits ∧ number.next = offset + (write w n value).length := by
  induction n generalizing m offset bits acc value with
  | zero => exact absurd hn (Nat.lt_irrefl 0)
  | succ n ih =>
    obtain ⟨m, rfl⟩ := Nat.exists_eq_add_of_lt (Nat.lt_of_lt_of_le hn hm)
    rw [Nat.zero_add] at hm ⊢
    rw [write_succ] at hdrop ⊢
    split at hdrop
    · next hlast =>
      rw [if_pos hlast]
      refine ⟨_, read_last hdrop group_and_more, ?_, rfl⟩
      simp only [group_and_mask]
      congr 1
      apply BitVec.eq_of_getLsbD_eq
      intro i hi
      rw [group_shift_getLsbD, BitVec.getLsbD_shiftLeft]
      have hbit := fits_one_iff.2 hlast (i - bits)
      by_cases hle : bits ≤ i
      · by_cases h7 : i < bits + 7
        · simp [hi, hle, h7]
        · simp [hbit (by omega)]
      · simp [hle, show i < bits by omega]
    · next hmore =>
      rw [if_neg hmore]
      have hpos : 0 < n := by
        rcases Nat.eq_zero_or_pos n with rfl | hpos
        · exact absurd (fits_one_iff.1 hfits) hmore
        · exact hpos
      have hcons := hdrop
      rw [List.cons_append] at hcons
      obtain ⟨number, hread, hvalue, hnext⟩ := ih (bits + 7)
        (acc ||| (group value).setWidth w <<< bits) hpos (show n ≤ m by omega) (fits_succ_iff.1 hfits)
        (getElem?_of_drop hcons).2
      refine ⟨number, ?_, ?_, ?_⟩
      · rw [read_more hcons (by rw [more_and_more]; decide), more_and_mask]
        exact hread
      · rw [hvalue, BitVec.or_assoc]
        congr 1
        apply BitVec.eq_of_getLsbD_eq
        intro i hi
        rw [BitVec.getLsbD_or, group_shift_getLsbD, BitVec.getLsbD_shiftLeft,
          BitVec.getLsbD_shiftLeft, BitVec.getLsbD_ushiftRight]
        by_cases hle : bits ≤ i
        · by_cases h7 : i < bits + 7
          · simp [hi, hle, h7, Nat.not_lt.2 hle]
          · simp [hi, hle, h7, Nat.not_lt.2 hle, show 7 + (i - (bits + 7)) = i - bits by omega]
        · simp [hle, show i < bits by omega, show i < bits + 7 by omega]
      · rw [hnext, List.length_cons]
        omega

/-- What is read of a signed number: its bits up to the last group, and there its sign. -/
structure ReadsSigned (value acc : BitVec w) (len offset bits : Nat) (number : Number w) : Prop where
  bit : ∀ i, i < w → number.value.getLsbD i =
    (acc.getLsbD i || decide (bits ≤ i) && decide (i < number.bits) && value.getLsbD (i - bits))
  taken : number.bits = bits + 7 * len
  next : number.next = offset + len
  sign : number.last.getLsbD 6 = value.msb
  rest : FitsSigned len value

theorem readsSigned_last (hw : 7 ≤ w) (hlast : FitsSigned 1 value) : ReadsSigned value acc 1 offset bits
    ⟨acc ||| (group value).setWidth w <<< bits, group value, bits + 7, offset + 1⟩ where
  bit i hi := by
    rw [BitVec.getLsbD_or, group_shift_getLsbD]
    simp [hi]
  taken := rfl
  next := rfl
  sign := by
    rw [group_getLsbD, hlast 6 (by omega) (by omega)]
    rfl
  rest := hlast

theorem ReadsSigned.more {len : Nat} {number : Number w} (hlen : 0 < len)
    (h : ReadsSigned (value.sshiftRight 7) (acc ||| (group value).setWidth w <<< bits) len (offset + 1)
      (bits + 7) number) : ReadsSigned value acc (len + 1) offset bits number where
  bit i hi := by
    have htaken := h.taken
    rw [h.bit i hi, BitVec.getLsbD_or, group_shift_getLsbD, Bool.or_assoc]
    congr 1
    by_cases hle : bits ≤ i
    · by_cases h7 : i < bits + 7
      · simp [hi, hle, h7, Nat.not_le.2 h7, show i < number.bits by omega]
      · have hdiff : 7 + (i - (bits + 7)) = i - bits := by omega
        rw [sshiftRight_getLsbD (by omega), hdiff, if_pos (by omega)]
        simp [hi, hle, h7, Nat.not_lt.1 h7]
    · simp [hle, show ¬ bits + 7 ≤ i by omega]
  taken := by
    rw [h.taken]
    omega
  next := by
    rw [h.next]
    omega
  sign := by rw [h.sign, BitVec.msb_sshiftRight]
  rest := (fitsSigned_succ_iff hlen).2 h.rest

theorem read_writeSigned (bits : Nat) (acc : BitVec w) (hw : 7 ≤ w) (hn : 0 < n) (hm : n ≤ m) (hfits : FitsSigned n value)
    (hdrop : code.drop offset = writeSigned w n value ++ tail) :
    ∃ number, read w code m offset bits acc = some number ∧
      ReadsSigned value acc (writeSigned w n value).length offset bits number ∧
      0 < (writeSigned w n value).length := by
  induction n generalizing m offset bits acc value with
  | zero => exact absurd hn (Nat.lt_irrefl 0)
  | succ n ih =>
    obtain ⟨m, rfl⟩ := Nat.exists_eq_add_of_lt (Nat.lt_of_lt_of_le hn hm)
    rw [Nat.zero_add] at hm ⊢
    simp only [writeSigned] at hdrop ⊢
    split at hdrop
    · next hlast =>
      rw [if_pos hlast]
      refine ⟨_, read_last hdrop group_and_more, ?_, Nat.zero_lt_one⟩
      rw [group_and_mask]
      exact readsSigned_last hw ((fitsSigned_one_iff hw).2 hlast)
    · next hmore =>
      rw [if_neg hmore]
      have hpos : 0 < n := by
        rcases Nat.eq_zero_or_pos n with rfl | hpos
        · exact absurd ((fitsSigned_one_iff hw).1 hfits) hmore
        · exact hpos
      rw [List.cons_append] at hdrop
      obtain ⟨number, hread, hnumber, hlen⟩ := ih (bits + 7)
        (acc ||| (group value).setWidth w <<< bits) hpos (show n ≤ m by omega)
        ((fitsSigned_succ_iff hpos).1 hfits) (getElem?_of_drop hdrop).2
      refine ⟨number, ?_, hnumber.more hlen, Nat.succ_pos _⟩
      rw [read_more hdrop (by rw [more_and_more]; decide), more_and_mask]
      exact hread

/-! ## The value of a signed number -/

/-- The number with its sign, where it does not fill the width. -/
def Number.extended (number : Number w) : BitVec w :=
  if number.bits < w ∧ number.last &&& 0x40 ≠ 0 then number.value ||| -((1 : BitVec w) <<< number.bits)
  else number.value

theorem neg_one_shift_getLsbD {i : Nat} (hi : i < w) (k : Nat) :
    (-((1 : BitVec w) <<< k)).getLsbD i = decide (k ≤ i) := by
  have hone (j : Nat) (hj : j < w) : ((1 : BitVec w) <<< k).getLsbD j = decide (j = k) := by
    rw [BitVec.getLsbD_shiftLeft]
    by_cases hlt : j < k
    · simp [hlt, Nat.ne_of_lt hlt]
    · have hzero : j - k = 0 ↔ j = k := by omega
      simp [hj, hlt, hzero, show 0 < w by omega]
  rw [BitVec.getLsbD_neg, hone i hi]
  have hbelow : (∃ j < i, ((1 : BitVec w) <<< k).getLsbD j = true) ↔ k < i := by
    constructor
    · rintro ⟨j, hj, hbit⟩
      rw [hone j (by omega), decide_eq_true_eq] at hbit
      omega
    · intro hk
      exact ⟨k, hk, by rw [hone k (by omega), decide_eq_true_eq]⟩
  simp only [hbelow, hi, decide_true, Bool.true_and]
  rcases Nat.lt_trichotomy i k with hlt | rfl | hgt
  · simp [Nat.not_le.2 hlt, Nat.ne_of_lt hlt, Nat.lt_asymm hlt]
  · simp
  · simp [hgt, Nat.le_of_lt hgt, Nat.ne_of_gt hgt]

theorem Number.extended_getLsbD (number : Number w) {i : Nat} (hi : i < w) :
    number.extended.getLsbD i = (number.value.getLsbD i ||
      decide (number.bits < w) && number.last.getLsbD 6 && decide (number.bits ≤ i)) := by
  simp only [Number.extended, and_bit6_iff]
  split
  · next hsign =>
    rw [BitVec.getLsbD_or, neg_one_shift_getLsbD hi, hsign.2, decide_eq_true hsign.1]
    rfl
  · next hsign =>
    rcases Nat.lt_or_ge number.bits w with hlt | hge
    · rw [eq_false_of_ne_true fun hset => hsign ⟨hlt, hset⟩, Bool.and_false, Bool.false_and, Bool.or_false]
    · rw [decide_eq_false (Nat.not_lt.2 hge), Bool.false_and, Bool.false_and, Bool.or_false]

/-- **Reading back a signed number.** -/
theorem ReadsSigned.extended {len : Nat} {number : Number w}
    (h : ReadsSigned value 0 len offset 0 number) : number.extended = value := by
  have htaken := h.taken
  apply BitVec.eq_of_getLsbD_eq
  intro i hi
  rw [number.extended_getLsbD hi, h.bit i hi, h.sign]
  by_cases hin : i < number.bits
  · simp [hin, Nat.not_le.2 hin]
  · rw [h.rest i (by omega) hi]
    simp [hin, Nat.not_lt.1 hin, show number.bits < w by omega]

/-- What is read fits in the groups it was read from. -/
structure ReadIn (k : Nat) (acc : BitVec w) (offset bits : Nat) (number : Number w) : Prop where
  taken : number.bits = bits + 7 * k
  next : number.next = offset + k
  rest : ∀ i, bits + 7 * k ≤ i → number.value.getLsbD i = acc.getLsbD i
  sign : bits + 7 * k ≤ w →
    number.value.getLsbD (bits + 7 * k - 1) = (acc.getLsbD (bits + 7 * k - 1) || number.last.getLsbD 6)

theorem readIn_of_read {number : Number w} (hread : read w code n offset bits acc = some number) :
    ∃ k, 0 < k ∧ ReadIn k acc offset bits number := by
  have hgroup (b : Byte) (i : Nat) (hi : 7 ≤ i) : (b &&& 0x7f).getLsbD i = false := by
    rw [BitVec.getLsbD_and, mask_getLsbD]
    simp [Nat.not_lt.2 hi]
  induction n generalizing offset bits acc with
  | zero => cases hread
  | succ n ih =>
    simp only [read] at hread
    cases hbyte : code[offset]? with
    | none => simp [hbyte] at hread
    | some b =>
      simp only [hbyte] at hread
      have hshift (i : Nat) (hi : bits + 7 ≤ i) : ((b &&& 0x7f).setWidth w <<< bits).getLsbD i = false := by
        rw [BitVec.getLsbD_shiftLeft, BitVec.getLsbD_setWidth, hgroup b (i - bits) (by omega)]
        simp
      split at hread
      · cases hread
        refine ⟨1, Nat.zero_lt_one, ⟨rfl, rfl, ?_, ?_⟩⟩
        · intro i hi
          rw [BitVec.getLsbD_or, hshift i hi, Bool.or_false]
        · intro hw
          rw [BitVec.getLsbD_or, BitVec.getLsbD_shiftLeft, BitVec.getLsbD_setWidth, BitVec.getLsbD_and,
            mask_getLsbD, show bits + 7 * 1 - 1 - bits = 6 by omega]
          simp [show bits + 6 < w by omega, show 6 < w by omega]
      · obtain ⟨k, hk, hin⟩ := ih hread
        refine ⟨k + 1, Nat.succ_pos k, ⟨?_, ?_, ?_, ?_⟩⟩
        · rw [hin.taken]
          omega
        · rw [hin.next]
          omega
        · intro i hi
          rw [hin.rest i (by omega), BitVec.getLsbD_or, hshift i (by omega), Bool.or_false]
        · intro hw
          have hsign := hin.sign (by omega)
          rw [show bits + 7 + 7 * k - 1 = bits + 7 * (k + 1) - 1 by omega] at hsign
          rw [hsign, BitVec.getLsbD_or, hshift _ (by omega), Bool.or_false]

theorem ReadIn.fits {number : Number w} (h : ReadIn k 0 offset 0 number) : Fits k number.value := by
  intro i hi
  rw [h.rest i (by omega)]
  exact BitVec.getLsbD_zero

theorem ReadIn.fitsSigned {number : Number w} (hk : 0 < k) (h : ReadIn k 0 offset 0 number) :
    FitsSigned k number.extended := by
  have htaken := h.taken
  have hrest := h.fits
  rcases Nat.lt_or_ge w (7 * k) with hlt | hge
  · exact fitsSigned_of_le (Nat.le_of_lt hlt)
  · -- From the last bit of the last group on, every bit is that bit.
    have hsame (i : Nat) (hi : 7 * k ≤ i + 1) (hiw : i < w) :
        number.extended.getLsbD i = number.last.getLsbD 6 := by
      rw [number.extended_getLsbD hiw]
      rcases Nat.eq_or_lt_of_le hi with heq | hmore
      · have hsign := h.sign (by omega)
        rw [show 0 + 7 * k - 1 = i by omega] at hsign
        rw [hsign]
        simp [show ¬ number.bits ≤ i by omega]
      · rw [hrest i (by omega)]
        simp [show number.bits ≤ i by omega, show number.bits < w by omega]
    intro i hi hiw
    rw [BitVec.msb_eq_getLsbD_last, hsame i hi hiw, hsame (w - 1) (by omega) (by omega)]

end Leb128
