import Mathlib.Data.List.Infix

/-!
# Lists grown one element at a time

Each element is what a partial function makes of those before it. Two such lists never part: one is
the beginning of the other.
-/

namespace Growth

variable {α : Type*} {next : List α → Option α} {l l' : List α} {a : α}

/-- Each element is what `next` gives after those before it. -/
def Grown (next : List α → Option α) (l : List α) : Prop :=
  ∀ k a, l[k]? = some a → next (l.take k) = some a

theorem Grown.of_isPrefix (h : Grown next l') (hl : l <+: l') : Grown next l := by
  obtain ⟨rest, rfl⟩ := hl
  intro k a hk
  have hlt := (List.getElem?_eq_some_iff.1 hk).1
  have hlater := h k a (by rwa [List.getElem?_append_left hlt])
  rwa [List.take_append_of_le_length hlt.le] at hlater

theorem grown_concat_iff : Grown next (l ++ [a]) ↔ Grown next l ∧ next l = some a := by
  constructor
  · intro h
    refine ⟨h.of_isPrefix (List.prefix_append _ _), ?_⟩
    simpa using h l.length a (by simp)
  · rintro ⟨h, ha⟩ k b hk
    rcases Nat.lt_or_ge k l.length with hlt | hge
    · rw [List.getElem?_append_left hlt] at hk
      rw [List.take_append_of_le_length hlt.le]
      exact h k b hk
    · rw [List.getElem?_append_right hge, List.getElem?_singleton] at hk
      split at hk
      · next hlast =>
        cases hk
        rw [show k = l.length by omega, List.take_left]
        exact ha
      · cases hk

theorem Grown.isPrefix_or (h : Grown next l) (h' : Grown next l') : l <+: l' ∨ l' <+: l := by
  induction l using List.reverseRecOn with
  | nil => exact .inl ⟨l', rfl⟩
  | append_singleton l a ih =>
    obtain ⟨hl, ha⟩ := grown_concat_iff.1 h
    rcases ih hl with ⟨rest, rfl⟩ | hshort
    · cases rest with
      | nil => exact .inr (by simp)
      | cons b rest =>
        -- Both lists go on with what `next` gives.
        have hb : next l = some b := by simpa using h' l.length b (by simp)
        rw [ha] at hb
        cases hb
        exact .inl ⟨rest, by simp⟩
    · exact .inr (hshort.trans (List.prefix_append _ _))

theorem Grown.isPrefix_of_stuck (h : Grown next l) (h' : Grown next l')
    (hstuck : ∀ a, ¬ (l ++ [a]) <+: l') : l' <+: l := by
  rcases h.isPrefix_or h' with ⟨rest, rfl⟩ | hle
  · cases rest with
    | nil => simp
    | cons a rest => exact absurd ⟨rest, by simp⟩ (hstuck a)
  · exact hle

end Growth
