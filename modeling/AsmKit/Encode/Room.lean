import AsmKit.Encode.BranchForm

/-!
# The room an emitter waits for

An emitter asks for its room once. Below it the emitter says how much that is, from there on it comes
to the same outcome whatever the capacity.
-/

namespace AsmKit

/-- What is handed out short of the room, and what is handed out from there on. -/
structure WaitsFor (emit : Nat → EmitOut) (short : EmitResult) (out : EmitOut) : Prop where
  settled : out.status ≠ .outputTooSmall
  size : out.status = .ok → out.result.size = short.size
  eq : ∀ capacity, emit capacity =
    if capacity < short.size then { status := .outputTooSmall, result := short } else out

def Waits (emit : Nat → EmitOut) : Prop := ∃ short out, WaitsFor emit short out

/-- An emitter that waits, and stores nothing where it fails. -/
def WaitsClean (emit : Nat → EmitOut) : Prop :=
  ∃ short out, WaitsFor emit short out ∧ (out.status ≠ .ok → out.code = [])

/-- What retrying with the reported size relies on. -/
structure RetryLaw (emit : Nat → EmitOut) : Prop where
  tooSmall : ∀ capacity, (emit capacity).status = .outputTooSmall →
    capacity < (emit capacity).result.size ∧
    ∀ retry, (emit capacity).result.size ≤ retry → (emit retry).status ≠ .outputTooSmall
  ok : ∀ capacity, (emit capacity).status = .ok → ∀ retry,
    (retry < (emit capacity).result.size →
      (emit retry).status = .outputTooSmall ∧
        (emit retry).result.size = (emit capacity).result.size) ∧
    ((emit capacity).result.size ≤ retry → emit retry = emit capacity)

section

variable {emit emit' : Nat → EmitOut} {result short : EmitResult} {code : List Byte} {status : Status}
  {out : EmitOut} {options : Option EmitOptions}

theorem WaitsFor.of_le (h : WaitsFor emit short out) {capacity : Nat} (hroom : short.size ≤ capacity) :
    emit capacity = out := by
  rw [h.eq, if_neg (Nat.not_lt.2 hroom)]

theorem WaitsFor.of_lt (h : WaitsFor emit short out) {capacity : Nat} (hroom : capacity < short.size) :
    emit capacity = { status := .outputTooSmall, result := short } := by
  rw [h.eq, if_pos hroom]

theorem Waits.retryLaw (h : Waits emit) : RetryLaw emit := by
  obtain ⟨short, out, h⟩ := h
  constructor
  · intro capacity hstatus
    rcases lt_or_ge capacity short.size with hroom | hroom
    · rw [h.of_lt hroom]
      refine ⟨hroom, fun retry hretry => ?_⟩
      rw [h.of_le hretry]
      exact h.settled
    · rw [h.of_le hroom] at hstatus
      exact absurd hstatus h.settled
  · intro capacity hok retry
    rcases lt_or_ge capacity short.size with hroom | hroom
    · rw [h.of_lt hroom] at hok
      cases hok
    · rw [h.of_le hroom] at hok ⊢
      rw [h.size hok]
      refine ⟨fun hretry => ?_, fun hretry => h.of_le hretry⟩
      rw [h.of_lt hretry]
      exact ⟨rfl, rfl⟩

/-! ## What waits -/

theorem WaitsClean.waits (h : WaitsClean emit) : Waits emit := by
  obtain ⟨short, out, h, -⟩ := h
  exact ⟨short, out, h⟩

theorem WaitsClean.code_eq (h : WaitsClean emit) {capacity : Nat} (hfail : (emit capacity).status ≠ .ok) :
    (emit capacity).code = [] := by
  obtain ⟨short, out, h, hclean⟩ := h
  rcases lt_or_ge capacity short.size with hroom | hroom
  · rw [h.of_lt hroom]
  · rw [h.of_le hroom] at hfail ⊢
    exact hclean hfail

theorem waitsClean_emitBytes : WaitsClean (emitBytes result code) :=
  ⟨result, { status := .ok, result, code }, ⟨nofun, fun _ => rfl, fun _ => rfl⟩,
    fun h => absurd rfl h⟩

theorem waitsClean_status (hok : status ≠ .ok) (hsmall : status ≠ .outputTooSmall) :
    WaitsClean fun _ => { status, result } :=
  ⟨{ size := 0 }, { status, result }, ⟨hsmall, fun h => absurd h hok,
    fun capacity => (if_neg (Nat.not_lt_zero capacity)).symm⟩, fun _ => rfl⟩

theorem WaitsClean.congr (h : WaitsClean emit') (heq : ∀ capacity, emit capacity = emit' capacity) :
    WaitsClean emit := by
  rw [funext heq]
  exact h

theorem WaitsClean.ite {c : Prop} [Decidable c] (h : WaitsClean emit) (h' : WaitsClean emit') :
    WaitsClean fun capacity => if c then emit capacity else emit' capacity := by
  by_cases hc : c
  · simpa only [if_pos hc] using h
  · simpa only [if_neg hc] using h'

theorem Waits.emitFinish (h : Waits emit) (options : Option EmitOptions) :
    Waits fun capacity => AsmKit.emitFinish (emit capacity) options := by
  obtain ⟨short, out, h⟩ := h
  refine ⟨short, AsmKit.emitFinish out options, ?_, fun hok => ?_, fun capacity => ?_⟩
  · unfold AsmKit.emitFinish
    split
    · nofun
    · exact h.settled
  · obtain ⟨hsame, hout⟩ := emitFinish_of_ok hok
    rw [hsame]
    exact h.size hout
  · rw [h.eq]
    split
    · exact if_neg fun hfinish => nomatch hfinish.1
    · rfl

end

/-! ## The emitters -/

section

variable {engine : Engine} {isCall : Bool} {fromAddress toAddress : BitVec 64}
  {options : Option EmitOptions}

theorem X86.emitAny_waits : WaitsClean (X86.emitAny engine isCall fromAddress toAddress options) := by
  refine .congr ?_ fun _ => emitAny_eq
  exact .ite waitsClean_emitBytes (.ite (waitsClean_status nofun nofun) waitsClean_emitBytes)

theorem Arm.emitAny_waits : WaitsClean (Arm.emitAny engine isCall fromAddress toAddress options) := by
  by_cases hmode : engine.config.mode = .armA32
  · refine .congr ?_ fun _ => emitAny_eq_a32 hmode
    exact .ite waitsClean_emitBytes (.ite (waitsClean_status nofun nofun) waitsClean_emitBytes)
  · refine .congr ?_ fun _ => emitAny_eq_thumb hmode
    exact .ite waitsClean_emitBytes (waitsClean_status nofun nofun)

theorem A64.emitAny_waits : WaitsClean (A64.emitAny isCall fromAddress toAddress options) := by
  refine .congr ?_ fun _ => emitAny_eq
  exact .ite waitsClean_emitBytes (.ite (waitsClean_status nofun nofun)
    (.ite (waitsClean_status nofun nofun) waitsClean_emitBytes))

theorem emitTarget_waits : WaitsClean (emitTarget engine isCall fromAddress toAddress options) := by
  unfold emitTarget
  cases engine.target.arch with
  | x86 => exact X86.emitAny_waits
  | arm => exact Arm.emitAny_waits
  | aarch64 => exact A64.emitAny_waits
  | bpf | wasm => exact waitsClean_status nofun nofun

theorem emitJump_waits : Waits (emitJump engine fromAddress toAddress options) :=
  (WaitsClean.waits emitTarget_waits).emitFinish options

theorem emitCall_waits : Waits (emitCall engine fromAddress toAddress options) :=
  (WaitsClean.waits emitTarget_waits).emitFinish options

end

end AsmKit
