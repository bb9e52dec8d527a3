import Mathlib.Algebra.BigOperators.Group.List.Basic

/-!
# Lists that tile

Elements with a start and a size that lie one behind the other, without gaps.
-/

namespace Tiling

variable {α M : Type*} [AddMonoid M] {start size : α → M} {base : M} {l : List α}

/-- The first element starts at the base, and each one where the one before it ends. -/
def Tiled (start size : α → M) : M → List α → Prop
  | _, [] => True
  | base, a :: l => start a = base ∧ Tiled start size (base + size a) l

theorem tiled_append_singleton {a : α} : Tiled start size base (l ++ [a]) ↔
    Tiled start size base l ∧ start a = base + (l.map size).sum := by
  induction l generalizing base with
  | nil => simp [Tiled]
  | cons b l ih => simp [Tiled, ih, add_assoc, and_assoc]

/-- Each element starts behind all that come before it. -/
theorem tiled_iff_getElem? : Tiled start size base l ↔
    ∀ k a, l[k]? = some a → start a = base + ((l.take k).map size).sum := by
  induction l generalizing base with
  | nil => simp [Tiled]
  | cons b l ih =>
    rw [Tiled, ih]
    constructor
    · rintro ⟨hb, hl⟩ (_ | k) a hk
      · cases hk
        simpa using hb
      · simpa [add_assoc] using hl k a hk
    · intro h
      refine ⟨by simpa using h 0 b rfl, fun k a hk => ?_⟩
      simpa [add_assoc] using h (k + 1) a hk

theorem tiled_map {β : Type*} {f : α → β} {start' size' : β → M} (hstart : ∀ a ∈ l, start' (f a) = start a)
    (hsize : ∀ a ∈ l, size' (f a) = size a) :
    Tiled start' size' base (l.map f) ↔ Tiled start size base l := by
  induction l generalizing base with
  | nil => rfl
  | cons b l ih =>
    rw [List.forall_mem_cons] at hstart hsize
    rw [List.map_cons, Tiled, Tiled, hstart.1, hsize.1, ih hstart.2 hsize.2]

end Tiling
