import AsmKit.Decode.Block

/-!
# What fails says so

No decoder fails with the status of a success.
-/

namespace AsmKit

/-- A failure with a status of its own. -/
def FailsLoudly {α : Type} (r : Except Status α) : Prop := r ≠ .error .ok

theorem failsLoudly_ok {α : Type} {a : α} : FailsLoudly (.ok a) := by
  rintro ⟨⟩

theorem failsLoudly_error {α : Type} {status : Status} (h : status ≠ .ok) :
    FailsLoudly (.error status : Except Status α) := by
  rintro ⟨⟩
  exact h rfl

theorem FailsLoudly.status_ne_ok {α : Type} {status : Status}
    (h : FailsLoudly (.error status : Except Status α)) : status ≠ .ok :=
  fun hok => h (hok ▸ rfl)

theorem FailsLoudly.ite {α : Type} {c : Prop} [Decidable c] {r r' : Except Status α} (h : FailsLoudly r)
    (h' : FailsLoudly r') : FailsLoudly (if c then r else r') := by
  split
  · exact h
  · exact h'

theorem FailsLoudly.map {α β : Type} {r : Except Status α} (h : FailsLoudly r) (f : α → β) :
    FailsLoudly (r.map f) := by
  cases r with
  | error status => exact failsLoudly_error h.status_ne_ok
  | ok a => exact failsLoudly_ok

/-! ## x86 -/

namespace X86

variable {engine : Engine} {tables : Tables} {code : List Byte} {address : BitVec 64} {prior : Inst}

theorem lookupTdRecord_failsLoudly (q : Query) : FailsLoudly (lookupTdRecord tables engine q) := by
  unfold lookupTdRecord
  simp only
  split
  · exact failsLoudly_ok
  refine .ite (failsLoudly_error (by decide)) ?_
  split
  · exact failsLoudly_ok
  · exact .ite (failsLoudly_error (by decide)) failsLoudly_ok

theorem decodeModrm_failsLoudly (h : Head) :
    FailsLoudly (decodeModrm engine tables code address prior h) := by
  unfold decodeModrm
  split
  · exact failsLoudly_error (by decide)
  unfold decodeWithModrm
  simp only
  refine .ite (failsLoudly_error (by decide)) ?_
  split
  · next hlookup => exact failsLoudly_error (hlookup ▸ lookupTdRecord_failsLoudly _).status_ne_ok
  · refine .ite (failsLoudly_error (by decide)) ?_
    split <;> exact failsLoudly_ok

theorem decodeTd_failsLoudly (h : Head) : FailsLoudly (decodeTd engine tables code address prior h) := by
  unfold decodeTd
  split
  · next hlookup =>
    refine failsLoudly_error (FailsLoudly.status_ne_ok (α := Option Record) ?_)
    rw [← hlookup, lookupNoModrm]
    exact .ite failsLoudly_ok (lookupTdRecord_failsLoudly _)
  split
  · unfold decodeTdNoModrm
    exact .ite (failsLoudly_error (by decide)) failsLoudly_ok
  refine .ite ?_ (.ite ?_ (.ite ?_ (decodeModrm_failsLoudly h)))
  · unfold decodeRelBranch
    exact .ite (failsLoudly_error (by decide)) failsLoudly_ok
  · unfold decodeIo
    exact .ite (failsLoudly_error (by decide)) failsLoudly_ok
  · unfold decodeOther
    refine .ite (failsLoudly_error (by decide)) ?_
    split
    · exact failsLoudly_ok
    · exact failsLoudly_error (by decide)

theorem decodeOne_failsLoudly : FailsLoudly (decodeOne engine tables code address prior) := by
  unfold decodeOne
  refine .ite (failsLoudly_error (by decide)) (.ite (failsLoudly_error (by decide)) ?_)
  split
  · exact failsLoudly_error (by decide)
  unfold decodeHead
  refine .ite ?_ (.ite ?_ (.ite ?_ (decodeTd_failsLoudly _)))
  iterate 2
    · generalize finish engine code address _ _ _ _ _ = inst
      cases inst with
      | none => exact failsLoudly_error (by decide)
      | some inst => exact failsLoudly_ok
  · unfold decodeRelBranch
    exact .ite (failsLoudly_error (by decide)) failsLoudly_ok

end X86

/-! ## ARM -/

namespace Arm

variable {engine : Engine} {tables : Tables} {code : List Byte} {address : BitVec 64}

theorem finishTd_failsLoudly (word : BitVec 32) (record : Record) :
    FailsLoudly (finishTd tables engine code address word record) := by
  unfold finishTd
  split
  · exact failsLoudly_error (by decide)
  · exact failsLoudly_ok

theorem decodeTd_failsLoudly {word : BitVec 32} {find : Bool → Option Record} {r : Except Status Inst}
    (h : decodeTd tables engine code address word find = some r) : FailsLoudly r := by
  unfold decodeTd at h
  split at h
  · cases h
    exact finishTd_failsLoudly _ _
  split at h
  · cases h
    exact failsLoudly_error (by decide)
  · cases h

theorem getD_failsLoudly {found : Option (Except Status Inst)} {inst : Inst}
    (h : ∀ r, found = some r → FailsLoudly r) : FailsLoudly (found.getD (.ok inst)) := by
  cases found with
  | none => exact failsLoudly_ok
  | some r => exact h r rfl

theorem decodeThumb32Td_failsLoudly {w : BitVec 32} {r : Except Status Inst}
    (h : decodeThumb32Td tables engine code address w = some r) : FailsLoudly r := by
  simp only [decodeThumb32Td, Option.orElse_eq_orElse, Option.orElse_eq_or, Option.or_eq_some_iff] at h
  rcases h with h | ⟨-, h | ⟨-, h | ⟨-, h⟩⟩⟩
  · exact decodeTd_failsLoudly h
  · obtain ⟨p, -, hp⟩ := List.exists_of_findSome?_eq_some h
    exact decodeTd_failsLoudly hp
  · exact decodeTd_failsLoudly h
  · exact decodeTd_failsLoudly h

theorem decodeOne_failsLoudly : FailsLoudly (decodeOne tables engine code address) := by
  refine FailsLoudly.map ?_ _
  have htd : ∀ word find inst,
      FailsLoudly ((decodeTd tables engine code address word find).getD (.ok inst)) :=
    fun _ _ _ => getD_failsLoudly fun _ => decodeTd_failsLoudly
  unfold genDecodeOne
  split
  · unfold decodeA32
    exact .ite (failsLoudly_error (by decide)) (.ite failsLoudly_ok (.ite failsLoudly_ok
      (.ite failsLoudly_ok (.ite failsLoudly_ok (htd _ _ _)))))
  · unfold decodeThumb
    refine .ite (failsLoudly_error (by decide)) (.ite failsLoudly_ok (.ite failsLoudly_ok
      (.ite failsLoudly_ok (.ite failsLoudly_ok (.ite failsLoudly_ok (.ite ?_ (htd _ _ _)))))))
    unfold decodeThumb32
    exact .ite (failsLoudly_error (by decide)) (.ite failsLoudly_ok
      (getD_failsLoudly fun _ => decodeThumb32Td_failsLoudly))
  · exact failsLoudly_error (by decide)

end Arm

/-! ## AArch64 -/

theorem A64.decodeOne_failsLoudly {tables : A64.Tables} {engine : Engine} {code : List Byte}
    {address : BitVec 64} : FailsLoudly (A64.decodeOne tables engine code address) := by
  unfold A64.decodeOne
  refine .ite (failsLoudly_error (by decide)) (.ite ?_ ?_)
  · exact .ite (failsLoudly_error (by decide)) failsLoudly_ok
  split
  · unfold A64.finishTd
    simp only
    split
    · exact failsLoudly_error (by decide)
    · exact failsLoudly_ok
  · exact .ite (failsLoudly_error (by decide)) failsLoudly_ok

/-! ## Instructions and blocks -/

variable {tables : Tables} {engine : Engine} {code : List Byte} {address : BitVec 64}

theorem decodeOne_failsLoudly (hbpf : engine.target.arch ≠ .bpf) (hwasm : engine.target.arch ≠ .wasm)
    (prior : Inst) : FailsLoudly (decodeOne tables engine code address prior) := by
  refine FailsLoudly.map ?_ _
  unfold targetDecodeOne
  cases harch : engine.target.arch with
  | x86 => exact X86.decodeOne_failsLoudly
  | arm => exact Arm.decodeOne_failsLoudly
  | aarch64 => exact A64.decodeOne_failsLoudly
  | bpf => exact absurd harch hbpf
  | wasm => exact absurd harch hwasm

theorem decodeBlockUntil_failsLoudly (hbpf : engine.target.arch ≠ .bpf)
    (hwasm : engine.target.arch ≠ .wasm) (minSize capacity : Nat) (priors : Nat → Inst) :
    FailsLoudly (decodeBlockUntil tables engine code address minSize capacity priors) := by
  have hloop : ∀ fuel block,
      FailsLoudly (decodeBlockLoop tables engine code address minSize priors fuel block) := by
    intro fuel
    induction fuel with
    | zero => exact fun _ => failsLoudly_ok
    | succ fuel ih =>
      intro block
      unfold decodeBlockLoop
      refine .ite failsLoudly_ok ?_
      simp only
      split
      · next hdec => exact failsLoudly_error (hdec ▸ decodeOne_failsLoudly hbpf hwasm _).status_ne_ok
      · exact .ite (failsLoudly_error (by decide)) (.ite failsLoudly_ok (ih _))
  unfold decodeBlockUntil
  refine .ite (failsLoudly_error (by decide)) ?_
  split
  · next h => exact failsLoudly_error (h ▸ hloop _ _).status_ne_ok
  · exact .ite (failsLoudly_error (by decide)) failsLoudly_ok

end AsmKit
