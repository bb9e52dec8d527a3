import Mathlib.Logic.Basic

/-!
# Runs of a labelled step relation

A run takes a list of labels. What a step keeps, a run keeps.
-/

namespace Labelled

variable {σ α : Type}

/-- The states a list of labels leads through, one step for each. -/
inductive Run (step : σ → α → σ → Prop) : σ → List α → σ → Prop
  | nil (s : σ) : Run step s [] s
  | cons {s t u : σ} {a : α} {as : List α} : step s a t → Run step t as u → Run step s (a :: as) u

variable {step : σ → α → σ → Prop} {s t u : σ} {a : α} {as : List α}

namespace Run

theorem nil_iff : Run step s [] t ↔ s = t := by
  constructor
  · rintro ⟨⟩
    rfl
  · rintro rfl
    exact .nil s

theorem cons_iff : Run step s (a :: as) u ↔ ∃ t, step s a t ∧ Run step t as u := by
  constructor
  · rintro (_ | ⟨h, hrest⟩)
    exact ⟨_, h, hrest⟩
  · rintro ⟨t, h, hrest⟩
    exact .cons h hrest

/-- What every step keeps holds at the end of a run. -/
theorem invariant {I : σ → Prop} (hstep : ∀ s a t, I s → step s a t → I t)
    (h : Run step s as t) (hs : I s) : I t := by
  induction h with
  | nil => exact hs
  | cons hst _ ih => exact ih (hstep _ _ _ hs hst)

end Run

theorem Run.forall_getElem? {P : Nat → α → Prop} {I : Nat → σ → Prop}
    (hstep : ∀ k s a t, I k s → step s a t → P k a ∧ I (k + 1) t)
    (h : Run step s as t) {k : Nat} (hs : I k s) :
    (∀ j a, as[j]? = some a → P (k + j) a) ∧ I (k + as.length) t := by
  induction h generalizing k with
  | nil => exact ⟨by simp, hs⟩
  | @cons s t u a as hst _ ih =>
    obtain ⟨hp, hi⟩ := hstep k s a t hs hst
    obtain ⟨hall, hend⟩ := ih hi
    constructor
    · rintro (_ | j) b hb
      · cases hb
        exact hp
      · have hb' := hall j b hb
        rwa [Nat.add_assoc, Nat.add_comm 1 j] at hb'
    · rw [List.length_cons, Nat.add_comm as.length 1, ← Nat.add_assoc]
      exact hend

end Labelled
