import Mathlib.Order.Lattice
import Mathlib.Order.OrderDual
import Mathlib.Logic.Nontrivial.Defs

/-!
# Terms over places

A term is a place that holds any value, or a constant. What holds for all values tells places apart.
-/

namespace Places

inductive Term (L V : Type*) where
  | place (l : L)
  | const (v : V)
deriving DecidableEq, Repr

variable {L V K : Type*}

namespace Term

def eval (env : L → V) : Term L V → V
  | place l => env l
  | const v => v

@[simp] theorem eval_place (env : L → V) (l : L) : (place l).eval env = env l := rfl

@[simp] theorem eval_const (env : L → V) (v : V) : (const v).eval env = v := rfl

end Term

variable {a b : L} {c : Term L V}

/-- `a < b` is `b < c` for all values just when neither holds for any. -/
theorem forall_lt_iff [LinearOrder K] {key : V → K} (hinj : Function.Injective key) {bot top : V}
    (hbot : ∀ v, key bot ≤ key v) (htop : ∀ v, key v ≤ key top) (hne : key bot < key top) :
    (∀ env : L → V, key (env a) < key (env b) ↔ key (env b) < key (c.eval env)) ↔
      a = b ∧ (c = .place b ∨ c = .const bot) := by
  classical
  constructor
  · intro h
    have hab : a = b := by
      by_contra hab
      have hlt := (h fun l => if l = b then top else bot).1 (by simpa [hab] using hne)
      simp only [if_true] at hlt
      exact absurd (htop _) (not_le_of_gt hlt)
    subst hab
    refine ⟨rfl, ?_⟩
    cases c with
    | place l =>
      by_contra hl
      have hla : l ≠ a := by simpa using hl
      have hlt := (h fun m => if m = a then bot else top).2 (by simpa [hla] using hne)
      exact absurd hlt (lt_irrefl _)
    | const v =>
      right
      have hnot : ¬ key bot < key v := fun hlt => absurd ((h fun _ => bot).2 hlt) (lt_irrefl _)
      rw [hinj (le_antisymm (hbot v) (not_lt.1 hnot))]
  · rintro ⟨rfl, rfl | rfl⟩ env
    · exact Iff.rfl
    · exact iff_of_false (lt_irrefl _) (not_lt_of_ge (hbot _))

theorem forall_eq_iff [Nontrivial V] :
    (∀ env : L → V, env a = env b ↔ env b = c.eval env) ↔ c = .place a := by
  classical
  constructor
  · intro h
    obtain ⟨x, y, hxy⟩ := exists_pair_ne V
    cases c with
    | place l =>
      by_contra hl
      have hla : l ≠ a := by simpa using hl
      have henv := h fun m => if m = a then x else y
      by_cases hb : b = a
      · simp [hb, hla, hxy] at henv
      · simp [hb, hla, hxy] at henv
    | const v =>
      obtain ⟨z, hz⟩ := exists_ne v
      exact absurd ((h fun _ => z).1 rfl) hz
  · rintro rfl env
    exact eq_comm

end Places
