import AsmKit.Lib.Bytes

/-!
# Running a piece of code until it is left

A machine steps from state to state and says after each step whether the instruction transferred
control or fell through to the next one. `Leaves` runs a piece of straight-line code: it stops at
the first control transfer, or when it falls off the end.
-/

/-- How an instruction ended: by running into the next one, or by a control transfer. -/
inductive StepEnd where
  | next
  | branch
deriving DecidableEq, Repr

structure Machine where
  State : Type
  Addr : Type
  pc : State → Addr
  step : State → Option (StepEnd × State)

namespace Machine

variable {M : Machine}

/-- Run from the first state, the code that ends at `stop` is left in the second state. -/
inductive Leaves (M : Machine) (stop : M.Addr) : M.State → M.State → Prop where
  | branch {s s'} : M.step s = some (.branch, s') → Leaves M stop s s'
  | last {s s'} : M.step s = some (.next, s') → M.pc s' = stop → Leaves M stop s s'
  | next {s t s'} : M.step s = some (.next, t) → M.pc t ≠ stop → Leaves M stop t s' →
      Leaves M stop s s'

theorem Leaves.unique {stop : M.Addr} {s a b : M.State} (ha : Leaves M stop s a)
    (hb : Leaves M stop s b) : a = b := by
  induction ha with
  | branch h =>
    cases hb with
    | branch h' => rw [h] at h'; cases h'; rfl
    | last h' _ => rw [h] at h'; cases h'
    | next h' _ _ => rw [h] at h'; cases h'
  | last h hstop =>
    cases hb with
    | branch h' => rw [h] at h'; cases h'
    | last h' _ => rw [h] at h'; cases h'; rfl
    | next h' hne _ => rw [h] at h'; cases h'; exact absurd hstop hne
  | next h hne _ ih =>
    cases hb with
    | branch h' => rw [h] at h'; cases h'
    | last h' hstop => rw [h] at h'; cases h'; exact absurd hstop hne
    | next h' _ hrest => rw [h] at h'; cases h'; exact ih hrest

theorem leaves_of_branch {stop : M.Addr} {s t s' : M.State} (h : M.step s = some (.branch, t)) :
    Leaves M stop s s' ↔ s' = t := by
  constructor
  · intro hl
    exact hl.unique (.branch h)
  · rintro rfl
    exact .branch h

theorem leaves_of_next {stop : M.Addr} {s t s' : M.State} (h : M.step s = some (.next, t))
    (hne : M.pc t ≠ stop) : Leaves M stop s s' ↔ Leaves M stop t s' := by
  constructor
  · intro hl
    cases hl with
    | branch h' => rw [h] at h'; cases h'
    | last h' hstop => rw [h] at h'; cases h'; exact absurd hstop hne
    | next h' _ hrest => rw [h] at h'; cases h'; exact hrest
  · exact .next h hne

theorem not_leaves_of_stuck {stop : M.Addr} {s s' : M.State} (h : M.step s = none) :
    ¬ Leaves M stop s s' := by
  intro hl
  cases hl with
  | branch h' | last h' _ | next h' _ _ => rw [h] at h'; cases h'

theorem Leaves.first {stop : M.Addr} {s s' : M.State} (h : Leaves M stop s s') :
    ∃ f t, M.step s = some (f, t) ∧ (f = .branch → t = s') := by
  cases h with
  | branch hstep => exact ⟨_, _, hstep, fun _ => rfl⟩
  | last hstep _ => exact ⟨_, _, hstep, fun hf => by cases hf⟩
  | next hstep _ _ => exact ⟨_, _, hstep, fun hf => by cases hf⟩

/-! ## What code does -/

/-- From every state that meets `pre`, the code that ends at `stop` is left, in a state related by
`post` to the first. -/
def Runs (M : Machine) (stop : M.Addr) (pre : M.State → Prop) (post : M.State → M.State → Prop) :
    Prop :=
  ∀ s, pre s → ∃ s', Leaves M stop s s' ∧ post s s'

variable {stop : M.Addr} {pre : M.State → Prop} {post : M.State → M.State → Prop}

theorem Runs.of_branch
    (h : ∀ s, pre s → ∃ t, M.step s = some (.branch, t) ∧ post s t) : Runs M stop pre post := by
  intro s hs
  obtain ⟨t, hstep, hpost⟩ := h s hs
  exact ⟨t, .branch hstep, hpost⟩

/-- The only state in which the code is left decides whether it meets its post-condition. -/
theorem Runs.post_of_leaves (h : Runs M stop pre post) {s t : M.State} (hs : pre s)
    (hl : Leaves M stop s t) : post s t := by
  obtain ⟨t', hl', hpost⟩ := h s hs
  rwa [hl.unique hl']

end Machine
