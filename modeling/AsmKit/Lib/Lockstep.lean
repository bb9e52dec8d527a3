import AsmKit.Lib.Machine

/-!
# Two pieces of code in lockstep

A piece of code that takes a step for each step of another one, and may go on where that one ends.
-/

namespace Machine

variable {M M' : Machine} {stop : M.Addr} {stop' : M'.Addr} {n : Nat}
  {Related : Nat → M.State → M'.State → Prop} {Left : M.State → M'.State → Prop}

/-- The first code has `n` places, and is left as the second one is: states are related by place,
and by `Left` where the code is left. -/
structure Lockstep (M M' : Machine) (stop : M.Addr) (stop' : M'.Addr) (n : Nat)
    (Related : Nat → M.State → M'.State → Prop) (Left : M.State → M'.State → Prop) : Prop where
  stuck : ∀ k < n, ∀ s s', Related k s s' → M.step s = none → M'.step s' = none
  branch : ∀ k < n, ∀ s s' t, Related k s s' → M.step s = some (.branch, t) →
    ∃ t', M'.step s' = some (.branch, t') ∧ Left t t'
  next : ∀ k < n, ∀ s s' t, Related k s s' → M.step s = some (.next, t) →
    ∃ t', M'.step s' = some (.next, t') ∧ M'.pc t' ≠ stop' ∧ Related (k + 1) t t' ∧
      (M.pc t = stop ↔ k + 1 = n)
  last : ∀ s s', Related n s s' → ∃ t', Leaves M' stop' s' t' ∧ Left s t'

namespace Lockstep

theorem leaves (h : Lockstep M M' stop stop' n Related Left) {k : Nat} (hk : k < n) {s t : M.State}
    {s' : M'.State} (hrel : Related k s s') (hl : Leaves M stop s t) :
    ∃ t', Leaves M' stop' s' t' ∧ Left t t' := by
  induction hl generalizing k s' with
  | branch hstep =>
    obtain ⟨t', hstep', hleft⟩ := h.branch k hk _ _ _ hrel hstep
    exact ⟨t', .branch hstep', hleft⟩
  | last hstep hstop =>
    obtain ⟨u', hstep', hne, hrel', hlast⟩ := h.next k hk _ _ _ hrel hstep
    rw [hlast.1 hstop] at hrel'
    obtain ⟨t', hl', hleft⟩ := h.last _ _ hrel'
    exact ⟨t', .next hstep' hne hl', hleft⟩
  | next hstep hstop _ ih =>
    obtain ⟨u', hstep', hne, hrel', hlast⟩ := h.next k hk _ _ _ hrel hstep
    have hk' : k + 1 < n := Nat.lt_of_le_of_ne hk (mt hlast.2 hstop)
    obtain ⟨t', hl', hleft⟩ := ih hk' hrel'
    exact ⟨t', .next hstep' hne hl', hleft⟩

/-- Code of `n` places is left, or a step of it is stuck: the second code is not left on its own. -/
theorem exists_leaves (h : Lockstep M M' stop stop' n Related Left) {k : Nat} (hk : k < n)
    {s : M.State} {s' t' : M'.State} (hrel : Related k s s') (hl : Leaves M' stop' s' t') :
    ∃ t, Leaves M stop s t := by
  induction hm : n - k generalizing k s s' with
  | zero => omega
  | succ m ih =>
    cases hstep : M.step s with
    | none => exact absurd hl (not_leaves_of_stuck (h.stuck k hk _ _ hrel hstep))
    | some out =>
      obtain ⟨_ | _, t⟩ := out
      · obtain ⟨u', hstep', hne, hrel', hlast⟩ := h.next k hk _ _ _ hrel hstep
        by_cases hend : k + 1 = n
        · exact ⟨t, .last hstep (hlast.2 hend)⟩
        · have hstop := mt hlast.1 hend
          obtain ⟨u, hu⟩ := ih (by omega) hrel' ((leaves_of_next hstep' hne).1 hl) (by omega)
          exact ⟨u, .next hstep hstop hu⟩
      · exact ⟨t, .branch hstep⟩

theorem left_of_leaves (h : Lockstep M M' stop stop' n Related Left) {k : Nat} (hk : k < n) {s : M.State}
    {s' t' : M'.State} (hrel : Related k s s') (hl : Leaves M' stop' s' t') :
    ∃ t, Leaves M stop s t ∧ Left t t' := by
  obtain ⟨t, ht⟩ := h.exists_leaves hk hrel hl
  obtain ⟨u', hu', hleft⟩ := h.leaves hk hrel ht
  exact ⟨t, ht, hl.unique hu' ▸ hleft⟩

end Lockstep

end Machine
