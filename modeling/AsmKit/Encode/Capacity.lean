import AsmKit.Encode.Emit

/-!
# What the capacity decides

An emitter that is only waiting for its capacity settles on a sequence, or on a refusal, before it
looks at the room it has.
-/

namespace AsmKit

/-- The sequence is stored wherever there is room for it. -/
structure Emits (emit : Nat → EmitOut) (result : EmitResult) (code : List Byte) : Prop where
  length : code.length = result.size
  eq : ∀ capacity, emit capacity = emitBytes result code capacity

/-- No room is enough, and what is stored all the same has room. -/
structure Refuses (emit : Nat → EmitOut) : Prop where
  status : ∀ capacity, (emit capacity).status ≠ .ok
  stored : ∀ capacity, (emit capacity).code.length ≤ capacity

/-- The capacity decides nothing but whether there is room. -/
def Steady (emit : Nat → EmitOut) : Prop := (∃ result code, Emits emit result code) ∨ Refuses emit

variable {emit : Nat → EmitOut} {result : EmitResult} {code : List Byte} {status : Status}

theorem refuses_status (h : status ≠ .ok) : Refuses fun _ => { status, result } :=
  ⟨fun _ => h, fun capacity => Nat.zero_le capacity⟩

theorem steady_status (h : status ≠ .ok) : Steady fun _ => { status, result } :=
  .inr (refuses_status h)

theorem Steady.stored (h : Steady emit) (capacity : Nat) :
    (emit capacity).code.length ≤ capacity ∧
      ((emit capacity).status = .ok → (emit capacity).code.length = (emit capacity).result.size) := by
  rcases h with ⟨result, code, hlength, heq⟩ | ⟨hstatus, hstored⟩
  · rw [heq, emitBytes]
    split
    · exact ⟨Nat.zero_le capacity, fun h => by cases h⟩
    · exact ⟨by dsimp only; omega, fun _ => hlength⟩
  · exact ⟨hstored capacity, fun h => absurd h (hstatus capacity)⟩

/-- What succeeds at one capacity comes out the same at any other with room for it. -/
theorem Steady.eq_of_ok (h : Steady emit) {capacity capacity' : Nat}
    (hok : (emit capacity).status = .ok) (hroom : (emit capacity).result.size ≤ capacity') :
    emit capacity' = emit capacity := by
  rcases h with ⟨result, code, hlength, heq⟩ | ⟨hstatus, -⟩
  · rw [heq] at hok hroom ⊢
    rw [emitBytes_result] at hroom
    rw [heq, emitBytes_ok hroom, emitBytes_eq_of_ok hok]
  · exact absurd hok (hstatus capacity)

theorem emitFinish_code (out : EmitOut) (options : Option EmitOptions) :
    (emitFinish out options).code = out.code := by
  unfold emitFinish
  split <;> rfl

theorem Steady.emitFinish (h : Steady emit) (options : Option EmitOptions) :
    Steady fun capacity => AsmKit.emitFinish (emit capacity) options := by
  have hstored : ∀ capacity, (AsmKit.emitFinish (emit capacity) options).code.length ≤ capacity := by
    intro capacity
    rw [emitFinish_code]
    exact (h.stored capacity).1
  rcases h with ⟨result, code, hlength, heq⟩ | ⟨hstatus, -⟩
  · by_cases hallowed : emitResultClobbersAllowed options result = true
    · refine .inl ⟨result, code, hlength, fun capacity => ?_⟩
      rw [AsmKit.emitFinish, heq, emitBytes_result, if_neg (by simp [hallowed])]
    · refine .inr ⟨fun capacity hok => ?_, hstored⟩
      obtain ⟨hsame, hemit⟩ := emitFinish_of_ok hok
      have hnot := hsame
      rw [AsmKit.emitFinish, if_pos ⟨hemit, by rwa [heq, emitBytes_result]⟩] at hnot
      rw [← hnot] at hemit
      cases hemit
  · refine .inr ⟨fun capacity hok => hstatus capacity (emitFinish_of_ok hok).2, hstored⟩

/-- The sequence an emitter comes to, or its refusal. A refusal asks for its room before. -/
def ComesTo (room : Nat) (emit : Nat → EmitOut) : Except Status EmitResult → Prop
  | .ok result => ∃ code, Emits emit result code
  | .error status => Refuses emit ∧
      ∀ capacity, (emit capacity).status = if capacity < room then .outputTooSmall else status

/-- The room that is asked for, refused or not. -/
def formRoom (room : Nat) : Except Status EmitResult → Nat
  | .ok result => result.size
  | .error _ => room

section

variable {room : Nat}

theorem comesTo_emitBytes (h : code.length = result.size) :
    ComesTo room (emitBytes result code) (.ok result) := ⟨code, h, fun _ => rfl⟩

theorem comesTo_status (h : status ≠ .ok) : ComesTo 0 (fun _ => { status, result }) (.error status) :=
  ⟨refuses_status h, fun capacity => (if_neg (Nat.not_lt_zero capacity)).symm⟩

theorem comesTo_refused (result : EmitResult) (h : status ≠ .ok)
    (heq : ∀ capacity, emit capacity = { status, result }) : ComesTo 0 emit (.error status) := by
  rw [funext heq]
  exact comesTo_status h

end

section

variable {room : Nat} {form form' : Except Status EmitResult}

theorem ComesTo.steady (h : ComesTo room emit form) : Steady emit := by
  cases form with
  | error status => exact .inr h.1
  | ok result =>
    obtain ⟨code, hemits⟩ := h
    exact .inl ⟨result, code, hemits⟩

theorem ComesTo.congr {emit' : Nat → EmitOut} (h : ComesTo room emit' form)
    (heq : ∀ capacity, emit capacity = emit' capacity) : ComesTo room emit form := by
  rw [funext heq]
  exact h

theorem ComesTo.ite {c : Prop} [Decidable c] {emit' : Nat → EmitOut} (h : ComesTo room emit form)
    (h' : ComesTo room emit' form') :
    ComesTo room (fun capacity => if c then emit capacity else emit' capacity)
      (if c then form else form') := by
  by_cases hc : c
  · simpa only [if_pos hc] using h
  · simpa only [if_neg hc] using h'

theorem ComesTo.ok_iff (h : ComesTo room emit form) {capacity : Nat} :
    (emit capacity).status = .ok ↔ ∃ result, form = .ok result ∧ result.size ≤ capacity := by
  cases form with
  | error status =>
    refine iff_of_false (h.1.status capacity) ?_
    rintro ⟨result, hform, -⟩
    cases hform
  | ok result =>
    obtain ⟨code, -, heq⟩ := h
    rw [heq, emitBytes_status_ok_iff]
    constructor
    · exact fun hroom => ⟨result, rfl, hroom⟩
    · rintro ⟨result', hform, hroom⟩
      cases hform
      exact hroom

theorem ComesTo.result_eq (h : ComesTo room emit (.ok result)) (capacity : Nat) :
    (emit capacity).result = result := by
  obtain ⟨code, -, heq⟩ := h
  rw [heq, emitBytes_result]

theorem ComesTo.status_cases (h : ComesTo room emit form) (capacity : Nat) :
    (emit capacity).status = .ok ∨ (emit capacity).status = .outputTooSmall ∨
      form = .error (emit capacity).status := by
  cases form with
  | error status =>
    rw [h.2]
    split
    · exact .inr (.inl rfl)
    · exact .inr (.inr rfl)
  | ok result =>
    obtain ⟨code, -, heq⟩ := h
    rw [heq, emitBytes]
    split
    · exact .inr (.inl rfl)
    · exact .inl rfl

theorem ComesTo.tooSmall_iff (h : ComesTo room emit form) (hform : form ≠ .error .outputTooSmall)
    {capacity : Nat} : (emit capacity).status = .outputTooSmall ↔ capacity < formRoom room form := by
  cases form with
  | error status =>
    rw [h.2, formRoom]
    split
    · next hlt => exact iff_of_true rfl hlt
    · next hge => exact iff_of_false (fun h => hform (by rw [h])) hge
  | ok result =>
    obtain ⟨code, -, heq⟩ := h
    rw [heq, emitBytes, formRoom]
    split
    · next hlt => exact iff_of_true rfl hlt
    · next hge => exact iff_of_false (fun h => by cases h) hge

end

end AsmKit
