import Mathlib.Data.List.Basic
import Mathlib.Tactic.IntervalCases

/-!
# Numerals

The numeral of a number in a base of at most sixteen, with lower-case digits, and its value.
-/

namespace Numeral

/-- The value of a lower-case digit. -/
def digitOf (ch : Char) : Nat := if ch.toNat < 97 then ch.toNat - 48 else ch.toNat - 87

/-- The value of a string of digits. -/
def valueOf (base : Nat) (text : List Char) : Nat :=
  text.foldl (fun value ch => base * value + digitOf ch) 0

/-- The text is the one numeral of the value: digits of the base, no 0 in front, and it reads back. -/
structure Canonical (base : Nat) (text : List Char) (value : Nat) : Prop where
  digits : ∀ ch ∈ text, ∃ d < base, ch = Nat.digitChar d
  ne_nil : text ≠ []
  leading : text.head? = some '0' → text = ['0']
  value : valueOf base text = value

variable {base : Nat}

theorem digitOf_digitChar {d : Nat} (hd : d < 16) : digitOf (Nat.digitChar d) = d := by
  interval_cases d <;> rfl

theorem valueOf_append_digit (text : List Char) (ch : Char) :
    valueOf base (text ++ [ch]) = base * valueOf base text + digitOf ch := by
  simp [valueOf, List.foldl_append]

theorem canonical_digit (hbase : base ≤ 16) {d : Nat} (hd : d < base) :
    Canonical base [Nat.digitChar d] d := by
  have hd16 : d < 16 := by omega
  refine ⟨fun ch hch => ⟨d, hd, List.mem_singleton.1 hch⟩, List.cons_ne_nil _ _, fun h => ?_, ?_⟩
  · rw [List.head?_cons, Option.some.injEq] at h
    rw [h]
  · simp [valueOf, digitOf_digitChar hd16]

theorem Canonical.append_digit (hbase : base ≤ 16) {text : List Char} {value d : Nat}
    (h : Canonical base text value) (hvalue : value ≠ 0) (hd : d < base) :
    Canonical base (text ++ [Nat.digitChar d]) (base * value + d) := by
  have hd16 : d < 16 := by omega
  refine ⟨fun ch hch => ?_, by simp, fun hzero => ?_, ?_⟩
  · rcases List.mem_append.1 hch with hch | hch
    · exact h.digits ch hch
    · exact ⟨d, hd, List.mem_singleton.1 hch⟩
  · rw [List.head?_append_of_ne_nil _ h.ne_nil] at hzero
    have hvalue' := h.value
    rw [h.leading hzero] at hvalue'
    exact absurd hvalue'.symm hvalue
  · rw [valueOf_append_digit, h.value, digitOf_digitChar hd16]

theorem canonical_toDigits (hbase : 1 < base) (hle : base ≤ 16) (n : Nat) :
    Canonical base (Nat.toDigits base n) n := by
  induction n using Nat.strong_induction_on with
  | _ n ih =>
    rw [Nat.toDigits_eq_if hbase]
    split
    · next hlt => exact canonical_digit hle hlt
    · next hge =>
      have hpos : n / base ≠ 0 := (Nat.div_pos (Nat.not_lt.1 hge) (by omega)).ne'
      have hdiv : base * (n / base) + n % base = n := Nat.div_add_mod n base
      have hrest : Canonical base (Nat.toDigits base (n / base)) (n / base) :=
        ih (n / base) (Nat.div_lt_self (by omega) hbase)
      have happend := hrest.append_digit hle hpos (Nat.mod_lt n (by omega))
      rwa [hdiv] at happend

end Numeral
