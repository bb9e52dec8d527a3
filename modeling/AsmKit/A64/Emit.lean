import AsmKit.Core.Bits
import AsmKit.Core.Engine

/-!
# Branches of AArch64

`asmkit_gen_aarch64_emit_rel` and the emitters of the AArch64 overlay: `b`/`bl` in range, else
`ldr x16, #8; br/blr x16` with an inlined address.
-/

namespace AsmKit.A64

/-! ## Emitters -/

def relDisp (fromAddress toAddress : BitVec 64) : BitVec 64 := toAddress - fromAddress

def relWord (isCall : Bool) (disp : BitVec 64) : BitVec 32 :=
  (if isCall then 0x94000000 else 0x14000000) ||| ((disp.sshiftRight 2).setWidth 32 &&& 0x03ffffff)

/-- `asmkit_gen_aarch64_emit_rel`. -/
def emitRel (isCall : Bool) (fromAddress toAddress : BitVec 64) (capacity : Nat) : EmitOut :=
  let disp := relDisp fromAddress toAddress
  if i64FitsI26Words4 disp then
    emitBytes { size := 4 } (store32le (relWord isCall disp)) capacity
  else { status := .branchOutOfRange, result := { size := 4 } }

def x16Mask : BitVec 64 := 1 <<< 16

def absResult : EmitResult := { size := 16, clobberMaskLo := x16Mask }

def absCode (isCall : Bool) (toAddress : BitVec 64) : List Byte :=
  store32le 0x58000050 ++ store32le (if isCall then 0xd63f0200 else 0xd61f0200) ++
    store64le toAddress

def emitAbs (isCall : Bool) (toAddress : BitVec 64) (capacity : Nat) : EmitOut :=
  emitBytes absResult (absCode isCall toAddress) capacity

def emitAny (isCall : Bool) (fromAddress toAddress : BitVec 64) (options : Option EmitOptions)
    (capacity : Nat) : EmitOut :=
  let mode := emitMode options
  let rel := emitRel isCall fromAddress toAddress capacity
  if mode ≠ .absoluteOnly ∧ (rel.status = .ok ∨ rel.status = .outputTooSmall ∨ mode = .directOnly)
  then rel
  else if mode = .preferClobberless then { rel with status := .forbiddenClobber }
  else if mode = .allowScratchClobber ∧
      ∃ o ∈ options, o.allowedClobberMaskLo &&& x16Mask = 0 then
    { rel with status := .forbiddenClobber }
  else emitAbs isCall toAddress capacity

def emitJump := emitAny false

def emitCall := emitAny true

/-! ## Planning -/

/-- `a64_min_patch`: the size and the low clobber mask. -/
def minPatch (fromAddress toAddress : BitVec 64) (mode : BranchMode) : Nat × BitVec 64 :=
  let disp := relDisp fromAddress toAddress
  if mode ≠ .absoluteOnly ∧ i64FitsI26Words4 disp then (4, 0)
  else if mode = .directOnly ∨ mode = .preferClobberless then (0, 0)
  else (16, x16Mask)

def planJumpBack (mode : BranchMode) : Except Status BranchPlanBound :=
  if mode = .directOnly ∨ mode = .preferClobberless then
    .ok { size := 4, requiresNearIsland := true,
          islandMinDistance := -134217728, islandMaxDistance := 134217724 }
  else .ok { size := 16, clobberMaskLo := x16Mask }

/-! ## What an emitter hands out -/

variable {isCall : Bool} {fromAddress toAddress : BitVec 64} {capacity : Nat}

@[simp] theorem absCode_length : (absCode isCall toAddress).length = 16 := rfl

theorem emitRel_of_ok (h : (emitRel isCall fromAddress toAddress capacity).status = .ok) :
    i64FitsI26Words4 (relDisp fromAddress toAddress) = true ∧
      emitRel isCall fromAddress toAddress capacity =
        { status := .ok, result := { size := 4 }
          code := store32le (relWord isCall (relDisp fromAddress toAddress)) } := by
  unfold emitRel at h ⊢
  by_cases hfits : i64FitsI26Words4 (relDisp fromAddress toAddress) = true
  · simp only [hfits, if_true] at h ⊢
    exact ⟨trivial, emitBytes_eq_of_ok h⟩
  · simp [hfits] at h

theorem emitAny_eq {options : Option EmitOptions} :
    emitAny isCall fromAddress toAddress options capacity =
      if emitMode options ≠ .absoluteOnly ∧ i64FitsI26Words4 (relDisp fromAddress toAddress) = true then
        emitBytes { size := 4 } (store32le (relWord isCall (relDisp fromAddress toAddress))) capacity
      else if emitMode options = .directOnly then
        { status := .branchOutOfRange, result := { size := 4 } }
      else if emitMode options = .preferClobberless ∨ (emitMode options = .allowScratchClobber ∧
          ∃ o ∈ options, o.allowedClobberMaskLo &&& x16Mask = 0) then
        { status := .forbiddenClobber, result := { size := 4 } }
      else emitBytes absResult (absCode isCall toAddress) capacity := by
  unfold emitAny emitRel emitAbs
  by_cases habs : emitMode options = .absoluteOnly
  · simp [habs]
  by_cases hfits : i64FitsI26Words4 (relDisp fromAddress toAddress) = true
  · simp only [hfits, if_true, and_true]
    rw [if_pos ⟨habs, emitBytes_settled _ _ _ _⟩, if_pos habs]
  · simp only [hfits, Bool.false_eq_true, if_false, and_false]
    by_cases hdirect : emitMode options = .directOnly
    · simp [hdirect]
    by_cases hclobber : emitMode options = .preferClobberless
    · simp [hclobber]
    · simp [hdirect, hclobber]

theorem emitAny_of_ok {options : Option EmitOptions}
    (h : (emitAny isCall fromAddress toAddress options capacity).status = .ok) :
    (emitMode options ≠ .absoluteOnly ∧
      i64FitsI26Words4 (relDisp fromAddress toAddress) = true ∧
      emitAny isCall fromAddress toAddress options capacity =
        { status := .ok, result := { size := 4 }
          code := store32le (relWord isCall (relDisp fromAddress toAddress)) }) ∨
    ((emitMode options = .absoluteOnly ∨
      i64FitsI26Words4 (relDisp fromAddress toAddress) = false) ∧
      emitAny isCall fromAddress toAddress options capacity =
        { status := .ok, result := absResult, code := absCode isCall toAddress }) := by
  rw [emitAny_eq] at h ⊢
  split at h
  · next hrel =>
    rw [if_pos hrel]
    exact .inl ⟨hrel.1, hrel.2, emitBytes_eq_of_ok h⟩
  · next hrel =>
    rw [if_neg hrel]
    rw [not_and_or, not_not, Bool.not_eq_true] at hrel
    right
    split at h
    · cases h
    · next hdirect =>
      rw [if_neg hdirect]
      split at h
      · cases h
      · next hclobber =>
        rw [if_neg hclobber]
        exact ⟨hrel, emitBytes_eq_of_ok h⟩

end AsmKit.A64
