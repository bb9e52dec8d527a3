import AsmKit.Core.Bits
import AsmKit.Core.Engine

/-!
# Branches of ARM

`asmkit_gen_arm_emit_rel` and the emitters of the ARM overlay. A32 falls back to a literal load of
the pc or, for a call, to `ldr ip; blx ip`. Thumb has the 16-bit jump only.
-/

namespace AsmKit.Arm

/-! ## Emitters -/

def relDispA32 (fromAddress toAddress : BitVec 64) : BitVec 64 := toAddress - (fromAddress + 8)

def relDispThumb (fromAddress toAddress : BitVec 64) : BitVec 64 := toAddress - (fromAddress + 4)

def relWordA32 (isCall : Bool) (disp : BitVec 64) : BitVec 32 :=
  (if isCall then 0xeb000000 else 0xea000000) ||| ((disp.sshiftRight 2).setWidth 32 &&& 0x00ffffff)

def relWordThumb (disp : BitVec 64) : BitVec 16 :=
  0xe000 ||| ((disp.sshiftRight 1).setWidth 16 &&& 0x07ff)

def fitsThumb (disp : BitVec 64) : Bool :=
  disp &&& 1 == 0 && -2048 ≤ disp.toInt && disp.toInt ≤ 2046

/-- `asmkit_gen_arm_emit_rel`. -/
def emitRel (engine : Engine) (isCall : Bool) (fromAddress toAddress : BitVec 64)
    (capacity : Nat) : EmitOut :=
  if engine.config.mode = .armA32 then
    let disp := relDispA32 fromAddress toAddress
    if i64FitsI24Words4 disp then
      emitBytes { size := 4 } (store32le (relWordA32 isCall disp)) capacity
    else { status := .branchOutOfRange, result := { size := 4 } }
  else if engine.config.mode = .armThumb ∧ ¬ isCall then
    let disp := relDispThumb fromAddress toAddress
    if fitsThumb disp then
      emitBytes { size := 2 } (store16le (relWordThumb disp)) capacity
    else { status := .branchOutOfRange, result := { size := 2 } }
  else { status := .branchOutOfRange }

def ipMask : BitVec 64 := 1 <<< 12

def absResultA32 (isCall : Bool) : EmitResult :=
  if isCall then { size := 12, clobberMaskLo := ipMask } else { size := 8 }

def absCodeA32 (isCall : Bool) (toAddress : BitVec 64) : List Byte :=
  if isCall then
    store32le 0xe59fc004 ++ store32le 0xe12fff3c ++ store32le (toAddress.setWidth 32)
  else store32le 0xe51ff004 ++ store32le (toAddress.setWidth 32)

def emitAbsA32 (isCall : Bool) (toAddress : BitVec 64) (capacity : Nat) : EmitOut :=
  emitBytes (absResultA32 isCall) (absCodeA32 isCall toAddress) capacity

def emitAny (engine : Engine) (isCall : Bool) (fromAddress toAddress : BitVec 64)
    (options : Option EmitOptions) (capacity : Nat) : EmitOut :=
  let mode := emitMode options
  let rel := emitRel engine isCall fromAddress toAddress capacity
  if mode ≠ .absoluteOnly ∧ (rel.status = .ok ∨ rel.status = .outputTooSmall ∨ mode = .directOnly)
  then rel
  else if engine.config.mode = .armA32 then emitAbsA32 isCall toAddress capacity
  else if mode = .absoluteOnly then { status := .branchOutOfRange }
  else { rel with status := .branchOutOfRange }

def emitJump (engine : Engine) := emitAny engine false

def emitCall (engine : Engine) := emitAny engine true

/-! ## Planning -/

/-- `arm_min_patch`, which reports no clobbers. -/
def minPatch (engine : Engine) (fromAddress toAddress : BitVec 64) (mode : BranchMode) : Nat :=
  if engine.config.mode = .armA32 then
    if mode ≠ .absoluteOnly ∧ i64FitsI24Words4 (relDispA32 fromAddress toAddress) then 4
    else if mode = .directOnly then 0 else 8
  else if mode ≠ .absoluteOnly ∧ fitsThumb (relDispThumb fromAddress toAddress) then 2
  else 0

def planJumpBack (engine : Engine) (mode : BranchMode) : Except Status BranchPlanBound :=
  if engine.config.mode = .armA32 then
    if mode = .directOnly then
      .ok { size := 4, requiresNearIsland := true,
            islandMinDistance := -33554432, islandMaxDistance := 33554428 }
    else .ok { size := 8 }
  else if mode = .absoluteOnly then .error .branchOutOfRange
  else .ok { size := 2, requiresNearIsland := true,
             islandMinDistance := -2048, islandMaxDistance := 2046 }

/-! ## What an emitter hands out -/

variable {engine : Engine} {isCall : Bool} {fromAddress toAddress : BitVec 64} {capacity : Nat}

@[simp] theorem absCodeA32_length :
    (absCodeA32 isCall toAddress).length = (absResultA32 isCall).size := by
  cases isCall <;> rfl

theorem emitRel_of_ok (h : (emitRel engine isCall fromAddress toAddress capacity).status = .ok) :
    (engine.config.mode = .armA32 ∧ i64FitsI24Words4 (relDispA32 fromAddress toAddress) = true ∧
      emitRel engine isCall fromAddress toAddress capacity =
        { status := .ok, result := { size := 4 }
          code := store32le (relWordA32 isCall (relDispA32 fromAddress toAddress)) }) ∨
    (engine.config.mode = .armThumb ∧ isCall = false ∧
      fitsThumb (relDispThumb fromAddress toAddress) = true ∧
      emitRel engine isCall fromAddress toAddress capacity =
        { status := .ok, result := { size := 2 }
          code := store16le (relWordThumb (relDispThumb fromAddress toAddress)) }) := by
  unfold emitRel at h ⊢
  by_cases ha32 : engine.config.mode = .armA32
  · left
    simp only [ha32, if_true] at h ⊢
    by_cases hfits : i64FitsI24Words4 (relDispA32 fromAddress toAddress) = true
    · simp only [hfits, if_true] at h ⊢
      exact ⟨trivial, trivial, emitBytes_eq_of_ok h⟩
    · simp [hfits] at h
  · right
    rw [if_neg ha32] at h ⊢
    by_cases hthumb : engine.config.mode = .armThumb ∧ ¬ isCall
    · rw [if_pos hthumb] at h ⊢
      by_cases hfits : fitsThumb (relDispThumb fromAddress toAddress) = true
      · simp only [hfits, if_true] at h ⊢
        exact ⟨hthumb.1, by simpa using hthumb.2, trivial, emitBytes_eq_of_ok h⟩
      · simp [hfits] at h
    · rw [if_neg hthumb] at h
      cases h

/-! ## The form of a branch, whatever the capacity -/

theorem emitAny_eq_a32 (hmode : engine.config.mode = .armA32) {options : Option EmitOptions} :
    emitAny engine isCall fromAddress toAddress options capacity =
      if emitMode options ≠ .absoluteOnly ∧
          i64FitsI24Words4 (relDispA32 fromAddress toAddress) = true then
        emitBytes { size := 4 } (store32le (relWordA32 isCall (relDispA32 fromAddress toAddress)))
          capacity
      else if emitMode options = .directOnly then
        { status := .branchOutOfRange, result := { size := 4 } }
      else emitAbsA32 isCall toAddress capacity := by
  unfold emitAny emitRel
  by_cases habs : emitMode options = .absoluteOnly
  · simp [hmode, habs]
  by_cases hfits : i64FitsI24Words4 (relDispA32 fromAddress toAddress) = true
  · simp only [hmode, hfits, if_true, and_true]
    rw [if_pos ⟨habs, emitBytes_settled _ _ _ _⟩, if_pos habs]
  · simp only [hmode, hfits, Bool.false_eq_true, if_false, and_false]
    by_cases hdirect : emitMode options = .directOnly <;> simp [hdirect, habs]

theorem emitAny_eq_thumb (hmode : engine.config.mode ≠ .armA32) {options : Option EmitOptions} :
    emitAny engine isCall fromAddress toAddress options capacity =
      if emitMode options ≠ .absoluteOnly ∧ (engine.config.mode = .armThumb ∧ ¬ isCall) ∧
          fitsThumb (relDispThumb fromAddress toAddress) = true then
        emitBytes { size := 2 } (store16le (relWordThumb (relDispThumb fromAddress toAddress))) capacity
      else
        { status := .branchOutOfRange
          result := { size :=
            if emitMode options ≠ .absoluteOnly ∧ engine.config.mode = .armThumb ∧ ¬ isCall then 2
            else 0 } } := by
  unfold emitAny emitRel
  simp only [if_neg hmode]
  by_cases habs : emitMode options = .absoluteOnly
  · simp [habs]
  by_cases hthumb : engine.config.mode = .armThumb ∧ ¬ isCall
  · simp only [if_pos hthumb]
    by_cases hfits : fitsThumb (relDispThumb fromAddress toAddress) = true
    · simp only [if_pos hfits]
      rw [if_pos ⟨habs, emitBytes_settled _ _ _ _⟩, if_pos ⟨habs, hthumb, hfits⟩]
    · have hnot : ¬ (emitMode options ≠ .absoluteOnly ∧ (engine.config.mode = .armThumb ∧ ¬ isCall) ∧
          fitsThumb (relDispThumb fromAddress toAddress) = true) := fun h => hfits h.2.2
      have hsize : emitMode options ≠ .absoluteOnly ∧ engine.config.mode = .armThumb ∧ ¬ isCall :=
        ⟨habs, hthumb⟩
      simp only [if_neg hfits, if_neg hnot, if_pos hsize]
      by_cases hdirect : emitMode options = .directOnly <;> simp [hdirect, habs]
  · have hnot : ¬ (emitMode options ≠ .absoluteOnly ∧ (engine.config.mode = .armThumb ∧ ¬ isCall) ∧
        fitsThumb (relDispThumb fromAddress toAddress) = true) := fun h => hthumb h.2.1
    have hsize : ¬ (emitMode options ≠ .absoluteOnly ∧ engine.config.mode = .armThumb ∧ ¬ isCall) :=
      fun h => hthumb h.2
    simp only [if_neg hthumb, if_neg hnot, if_neg hsize]
    by_cases hdirect : emitMode options = .directOnly <;> simp [hdirect, habs]

theorem emitAny_of_ok {options : Option EmitOptions}
    (h : (emitAny engine isCall fromAddress toAddress options capacity).status = .ok) :
    (emitMode options ≠ .absoluteOnly ∧
      (emitRel engine isCall fromAddress toAddress capacity).status = .ok ∧
      emitAny engine isCall fromAddress toAddress options capacity =
        emitRel engine isCall fromAddress toAddress capacity) ∨
    ((emitMode options = .absoluteOnly ∨
      i64FitsI24Words4 (relDispA32 fromAddress toAddress) = false) ∧
      engine.config.mode = .armA32 ∧
      emitAny engine isCall fromAddress toAddress options capacity =
        { status := .ok, result := absResultA32 isCall, code := absCodeA32 isCall toAddress }) := by
  unfold emitAny at h ⊢
  simp only at h ⊢
  split at h
  · next hrel =>
    rw [if_pos hrel]
    exact .inl ⟨hrel.1, h, rfl⟩
  · next hrel =>
    rw [if_neg hrel]
    right
    split at h
    · next hmode =>
      rw [if_pos hmode]
      refine ⟨?_, hmode, emitBytes_eq_of_ok h⟩
      by_contra hcon
      rw [not_or] at hcon
      have hfits : i64FitsI24Words4 (relDispA32 fromAddress toAddress) = true := by
        simpa using hcon.2
      refine hrel ⟨hcon.1, ?_⟩
      simp only [emitRel, hmode, hfits, if_true, emitBytes]
      split <;> simp
    · split at h <;> cases h

end AsmKit.Arm
