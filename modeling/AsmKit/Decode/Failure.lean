import AsmKit.Bpf.Decode
import AsmKit.Core.Target
import AsmKit.Decode.Block
import AsmKit.Lib.Demand
import AsmKit.Wasm.Decode

/-!
# `asmkit_decode_one_ex`

The decoder that says why it failed. The bytecode targets decode by their own rows here.
-/

namespace AsmKit

/-- `asmkit_decode_failure_kind_t`. -/
inductive DecodeFailureKind where
  | none | invalidEncoding | insufficientBytes | unsupportedFeature
deriving DecidableEq, Repr

/-- The rows of the bytecode targets. -/
structure BytecodeRows where
  bpf : List Bpf.Record
  wasm : Wasm.Rows

/-- The tables with the decoders of the bytecode targets. -/
def Tables.withBytecode (tables : Tables) (rows : BytecodeRows) : Tables :=
  { tables with
    decodeOther := fun engine code address _ =>
      if engine.target.arch = .bpf then Bpf.decodeOne rows.bpf engine code address
      else Wasm.decodeOne rows.wasm engine code address }

/-- What the status of a failure says about its kind. -/
def failureKind : Except Status Inst → DecodeFailureKind
  | .error .unsupportedFeature => .unsupportedFeature
  | .error .decodeFailed => .invalidEncoding
  | _ => .none

def decodeOneEx (tables : Tables) (engine : Engine) (code : List Byte) (address : BitVec 64)
    (prior : Inst) : Except Status Inst × DecodeFailureKind :=
  match getTargetCapabilities engine with
  | .error status => (.error status, .none)
  | .ok capabilities =>
    if code.length < capabilities.minimumInstructionUnit then (.error .decodeFailed, .insufficientBytes)
    else
      let result := decodeOne tables engine code address prior
      (result, failureKind result)

/-- Some instruction is decoded from the code, whatever the record held before. -/
def Decodes (tables : Tables) (engine : Engine) (code : List Byte) (address : BitVec 64) : Prop :=
  ∃ prior inst, decodeOne tables engine code address prior = .ok inst

/-- The result is the one the demand leads to, on code of the length. -/
def Explains (length : Nat) (d : Demand) (r : Except Status Inst) : Prop :=
  match d with
  | .size n => if n ≤ length then ∃ inst, r = .ok inst else r = .error .decodeFailed
  | .unknown | .rejected => r = .error .decodeFailed
  | .refused => r = .error .unsupportedFeature

section

variable {length : Nat} {d : Demand} {r : Except Status Inst}

theorem explains_ok {n : Nat} {inst : Inst} (h : n ≤ length) : Explains length (.size n) (.ok inst) := by
  rw [Explains, if_pos h]
  exact ⟨inst, rfl⟩

theorem explains_ite {n : Nat} {inst : Inst} :
    Explains length (.size n) (if length < n then .error .decodeFailed else .ok inst) := by
  rw [Explains]
  split
  · rw [if_neg (by omega)]
    exact ⟨inst, rfl⟩
  · rw [if_pos (by omega)]

theorem Explains.map (h : Explains length d r) (f : Inst → Inst) : Explains length d (r.map f) := by
  cases r with
  | ok inst =>
    cases d with
    | size n =>
      simp only [Explains] at h ⊢
      split at h
      · rw [if_pos ‹_›]
        exact ⟨f inst, rfl⟩
      · cases h
    | unknown | rejected | refused => cases h
  | error status => exact h

theorem Explains.unlessMet (h : Explains length d r) : Explains length (d.unlessMet length) r := by
  unfold Demand.unlessMet
  split
  · exact h
  · next hunmet =>
    rw [not_or] at hunmet
    unfold Explains at h
    cases d with
    | size n =>
      have hmore : ¬ n ≤ length := hunmet.1
      simp only [if_neg hmore] at h
      exact h
    | unknown | rejected => exact h
    | refused => exact absurd rfl hunmet.2

theorem Explains.isOk_iff (h : Explains length d r) : (∃ inst, r = .ok inst) ↔ d.Met length := by
  unfold Explains at h
  unfold Demand.Met
  cases d with
  | size n =>
    simp only at h ⊢
    split at h
    · exact iff_of_true h ‹_›
    · exact iff_of_false (by simp [h]) ‹_›
  | unknown | rejected | refused => exact iff_of_false (by simp_all) id

theorem Explains.refused_iff (h : Explains length d r) :
    r = .error .unsupportedFeature ↔ d = .refused := by
  unfold Explains at h
  cases d with
  | size n =>
    simp only at h
    split at h
    · obtain ⟨inst, rfl⟩ := h
      simp
    · simp [h]
  | unknown | rejected | refused => simp [h]

theorem Explains.status (h : Explains length d r) {status : Status} (hr : r = .error status) :
    status = .decodeFailed ∨ status = .unsupportedFeature := by
  subst hr
  unfold Explains at h
  split at h
  · split at h
    · obtain ⟨inst, h⟩ := h
      cases h
    · cases h
      exact .inl rfl
  · cases h
    exact .inl rfl
  · cases h
    exact .inl rfl
  · cases h
    exact .inr rfl

end

/-- The kind of a failure says whether more bytes can help. -/
structure ClassifiesTruncation (tables : Tables) (engine : Engine) (code : List Byte) (address : BitVec 64)
    (prior : Inst) : Prop where
  invalid : decodeOneEx tables engine code address prior = (.error .decodeFailed, .invalidEncoding) →
    ∀ tail, ¬ Decodes tables engine (code ++ tail) address
  insufficient :
    decodeOneEx tables engine code address prior = (.error .decodeFailed, .insufficientBytes) →
      ¬ Decodes tables engine code address ∧ ∃ tail, Decodes tables engine (code ++ tail) address

end AsmKit
