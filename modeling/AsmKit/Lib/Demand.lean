import Mathlib.Data.List.Basic

/-!
# How much a decoder asks for

A decoder that reads a buffer from its start asks for a number of bytes. Until it has seen enough
of them it does not know the number, and some buffers it turns down whatever comes behind.
-/

/-- What the bytes of a buffer say about the size of the item they begin. -/
inductive Demand where
  | unknown
  | size (n : Nat)
  | rejected
  /-- Turned down for a reason that is not in the bytes. -/
  | refused
deriving DecidableEq, Repr

namespace Demand

/-- As many bytes as are asked for are there. -/
def Met (length : Nat) : Demand → Prop
  | size n => n ≤ length
  | _ => False

instance (length : Nat) (d : Demand) : Decidable (d.Met length) := by
  unfold Met
  split <;> infer_instance

/-- A size is only wanted up to a limit. -/
def atMost (limit n : Nat) : Demand := if limit < n then rejected else size n

/-- The demand of a buffer whose next byte may change it: it stands when it is met. -/
def unlessMet (length : Nat) (d : Demand) : Demand :=
  if d.Met length ∨ d = refused then d else unknown

theorem unlessMet_settled {length : Nat} {d : Demand} (h : d.unlessMet length ≠ unknown) :
    (d.unlessMet length).Met length ∨ d.unlessMet length = refused := by
  unfold unlessMet at h ⊢
  split
  · assumption
  · next hunmet => exact absurd (if_neg hunmet) h

variable {α : Type*}

/-- The demand tells what the decoder does, and a demand that is not met is final. -/
structure Governs (demand : List α → Demand) (accepts refuses : List α → Prop) : Prop where
  accepts_iff : ∀ code, accepts code ↔ (demand code).Met code.length
  refuses_iff : ∀ code, refuses code ↔ demand code = refused
  append_of_size : ∀ code n, demand code = size n → code.length < n →
    ∀ tail, demand (code ++ tail) = size n
  append_of_rejected : ∀ code, demand code = rejected → ∀ tail n, demand (code ++ tail) ≠ size n

/-- The buffer ends inside an item: it asks for more, or more would tell its size. -/
def Short (demand : List α → Demand) (code : List α) : Prop :=
  match demand code with
  | size n => code.length < n
  | unknown => ∃ tail n, demand (code ++ tail) = size n
  | rejected | refused => False

/-- The buffer ends inside an item, by a test for those whose size is not known yet. -/
def EndsInside (demand : List α → Demand) (begins : List α → Prop) (code : List α) : Prop :=
  match demand code with
  | size n => code.length < n
  | unknown => begins code
  | rejected | refused => False

theorem short_iff_endsInside {demand : List α → Demand} {begins : List α → Prop} {code : List α}
    (hbegins : demand code = unknown → ((∃ tail n, demand (code ++ tail) = size n) ↔ begins code)) :
    Short demand code ↔ EndsInside demand begins code := by
  unfold Short EndsInside
  cases hdemand : demand code with
  | unknown => exact hbegins hdemand
  | size n => exact Iff.rfl
  | rejected | refused => exact Iff.rfl

theorem Met.exists_size {d : Demand} {length : Nat} (h : d.Met length) :
    ∃ n, d = size n ∧ n ≤ length := by
  cases d with
  | size n => exact ⟨n, rfl, h⟩
  | unknown | rejected | refused => exact h.elim

namespace Governs

variable {demand : List α → Demand} {accepts refuses : List α → Prop} {code : List α}

theorem congr {accepts' refuses' : List α → Prop} (h : Governs demand accepts refuses)
    (haccepts : ∀ code, accepts' code ↔ accepts code) (hrefuses : ∀ code, refuses' code ↔ refuses code) :
    Governs demand accepts' refuses' where
  accepts_iff code := (haccepts code).trans (h.accepts_iff code)
  refuses_iff code := (hrefuses code).trans (h.refuses_iff code)
  append_of_size := h.append_of_size
  append_of_rejected := h.append_of_rejected

theorem exists_accepts_of_size [Inhabited α] (h : Governs demand accepts refuses) {n : Nat}
    (hsize : demand code = size n) : ∃ tail, accepts (code ++ tail) := by
  rcases Nat.lt_or_ge code.length n with hlt | hle
  · refine ⟨List.replicate (n - code.length) default, (h.accepts_iff _).2 ?_⟩
    rw [h.append_of_size code n hsize hlt]
    simp only [Met, List.length_append, List.length_replicate]
    omega
  · refine ⟨[], (h.accepts_iff _).2 ?_⟩
    rw [List.append_nil, hsize]
    exact hle

/-- More bytes help where the buffer ends inside an item, and nowhere else. -/
theorem exists_accepts_append_iff [Inhabited α] (h : Governs demand accepts refuses)
    (hfail : ¬ accepts code) (hrefuse : ¬ refuses code) :
    (∃ tail, accepts (code ++ tail)) ↔ Short demand code := by
  rw [h.accepts_iff] at hfail
  rw [h.refuses_iff] at hrefuse
  constructor
  · rintro ⟨tail, hacc⟩
    obtain ⟨n, hn, -⟩ := ((h.accepts_iff _).1 hacc).exists_size
    unfold Short
    cases hdemand : demand code with
    | size m =>
      rw [hdemand] at hfail
      exact Nat.lt_of_not_le hfail
    | unknown => exact ⟨tail, n, hn⟩
    | rejected => exact h.append_of_rejected code hdemand tail n hn
    | refused => exact hrefuse hdemand
  · intro hshort
    unfold Short at hshort
    cases hdemand : demand code with
    | size m => exact h.exists_accepts_of_size hdemand
    | unknown =>
      simp only [hdemand] at hshort
      obtain ⟨tail, n, hn⟩ := hshort
      obtain ⟨more, hmore⟩ := h.exists_accepts_of_size hn
      exact ⟨tail ++ more, by rwa [← List.append_assoc]⟩
    | rejected | refused => simp [hdemand] at hshort

theorem not_short_of_accepts (h : Governs demand accepts refuses) (hacc : accepts code) :
    ¬ Short demand code := by
  obtain ⟨n, hn, hle⟩ := ((h.accepts_iff _).1 hacc).exists_size
  simp only [Short, hn]
  omega

theorem not_short_of_refuses (h : Governs demand accepts refuses) (href : refuses code) :
    ¬ Short demand code := by
  simp [Short, (h.refuses_iff _).1 href]

end Governs

end Demand
