import AsmKit.Core.Bits
import AsmKit.Core.Engine

/-!
# Branches of x86

`asmkit_gen_x86_emit_rel` and the emitters of the x86 overlay. The overlay hands out a relative
jump or call where the distance allows it, and `jmp/call [rip]` with an inlined address in 64-bit
mode where it does not.
-/

namespace AsmKit.X86

/-! ## Emitters -/

def directSize (engine : Engine) : Nat := if engine.config.mode = .x86_16 then 3 else 5

/-- The distance test of `emit_rel`, which depends on the mode. -/
def fitsDirect (engine : Engine) (disp : BitVec 64) : Bool :=
  if engine.config.mode = .x86_16 then i64FitsI16 disp else i64FitsI32 disp

def relDisp (engine : Engine) (fromAddress toAddress : BitVec 64) : BitVec 64 :=
  toAddress - (fromAddress + BitVec.ofNat 64 (directSize engine))

def relCode (engine : Engine) (isCall : Bool) (disp : BitVec 64) : List Byte :=
  (if isCall then 0xe8 else 0xe9) ::
    if engine.config.mode = .x86_16 then store16le (disp.setWidth 16) else store32le (disp.setWidth 32)

/-- `asmkit_gen_x86_emit_rel`. -/
def emitRel (engine : Engine) (isCall : Bool) (fromAddress toAddress : BitVec 64)
    (capacity : Nat) : EmitOut :=
  let disp := relDisp engine fromAddress toAddress
  if fitsDirect engine disp then
    emitBytes { size := directSize engine } (relCode engine isCall disp) capacity
  else { status := .branchOutOfRange }

def absCode (isCall : Bool) (toAddress : BitVec 64) : List Byte :=
  0xff :: (if isCall then 0x15 else 0x25) :: (store32le 0 ++ store64le toAddress)

def emitAbs (isCall : Bool) (toAddress : BitVec 64) (capacity : Nat) : EmitOut :=
  emitBytes { size := 14 } (absCode isCall toAddress) capacity

def emitAny (engine : Engine) (isCall : Bool) (fromAddress toAddress : BitVec 64)
    (options : Option EmitOptions) (capacity : Nat) : EmitOut :=
  let mode := emitMode options
  let rel := emitRel engine isCall fromAddress toAddress capacity
  if mode ≠ .absoluteOnly ∧ (rel.status = .ok ∨ rel.status = .outputTooSmall ∨ mode = .directOnly)
  then rel
  else if engine.config.mode ≠ .x86_64 then { status := .branchOutOfRange }
  else emitAbs isCall toAddress capacity

def emitJump (engine : Engine) := emitAny engine false

def emitCall (engine : Engine) := emitAny engine true

/-- `x86_emit_jcc`, which never looks at the mode. -/
def emitJcc (cc : Byte) (fromAddress toAddress : BitVec 64) (capacity : Nat) : EmitOut :=
  let disp := toAddress - (fromAddress + 6)
  if i64FitsI32 disp then
    emitBytes { size := 6 } (0x0f :: (0x80 ||| (cc &&& 0x0f)) :: store32le (disp.setWidth 32)) capacity
  else { status := .branchOutOfRange, result := { size := 6 } }

/-! ## Planning -/

/-- `x86_min_patch`, which reports no clobbers. -/
def minPatch (engine : Engine) (fromAddress toAddress : BitVec 64) (mode : BranchMode) : Nat :=
  let disp := relDisp engine fromAddress toAddress
  if mode ≠ .absoluteOnly ∧ fitsDirect engine disp then directSize engine
  else if mode = .directOnly then 0
  else if engine.config.mode = .x86_64 then 14 else 0

def planJumpBack (engine : Engine) (mode : BranchMode) : Except Status BranchPlanBound :=
  if mode = .directOnly ∨ engine.config.mode ≠ .x86_64 then
    if mode = .absoluteOnly then .error .branchOutOfRange
    else if engine.config.mode = .x86_16 then
      .ok { size := directSize engine, requiresNearIsland := true,
            islandMinDistance := -32768, islandMaxDistance := 32767 }
    else
      .ok { size := directSize engine, requiresNearIsland := true,
            islandMinDistance := -2147483648, islandMaxDistance := 2147483647 }
  else .ok { size := 14 }

/-! ## What an emitter hands out -/

variable {engine : Engine} {isCall : Bool} {fromAddress toAddress : BitVec 64} {capacity : Nat}

@[simp] theorem relCode_length (disp : BitVec 64) :
    (relCode engine isCall disp).length = directSize engine := by
  by_cases hmode : engine.config.mode = .x86_16 <;> simp [relCode, directSize, hmode]

@[simp] theorem absCode_length : (absCode isCall toAddress).length = 14 := rfl

theorem emitRel_of_ok (h : (emitRel engine isCall fromAddress toAddress capacity).status = .ok) :
    fitsDirect engine (relDisp engine fromAddress toAddress) = true ∧
      emitRel engine isCall fromAddress toAddress capacity =
        { status := .ok, result := { size := directSize engine }
          code := relCode engine isCall (relDisp engine fromAddress toAddress) } := by
  unfold emitRel at h ⊢
  by_cases hfits : fitsDirect engine (relDisp engine fromAddress toAddress) = true
  · simp only [hfits, if_true] at h ⊢
    exact ⟨trivial, emitBytes_eq_of_ok h⟩
  · simp [hfits] at h

theorem emitAny_eq {options : Option EmitOptions} :
    emitAny engine isCall fromAddress toAddress options capacity =
      if emitMode options ≠ .absoluteOnly ∧
          fitsDirect engine (relDisp engine fromAddress toAddress) = true then
        emitBytes { size := directSize engine }
          (relCode engine isCall (relDisp engine fromAddress toAddress)) capacity
      else if emitMode options = .directOnly ∨ engine.config.mode ≠ .x86_64 then
        { status := .branchOutOfRange }
      else emitBytes { size := 14 } (absCode isCall toAddress) capacity := by
  unfold emitAny emitRel emitAbs
  by_cases habs : emitMode options = .absoluteOnly
  · simp [habs]
  by_cases hfits : fitsDirect engine (relDisp engine fromAddress toAddress) = true
  · simp only [hfits, if_true, and_true]
    rw [if_pos ⟨habs, emitBytes_settled _ _ _ _⟩, if_pos habs]
  · simp only [hfits, Bool.false_eq_true, if_false, and_false]
    by_cases hdirect : emitMode options = .directOnly <;> simp [hdirect, habs]

theorem emitAny_of_ok {options : Option EmitOptions}
    (h : (emitAny engine isCall fromAddress toAddress options capacity).status = .ok) :
    (emitMode options ≠ .absoluteOnly ∧
      fitsDirect engine (relDisp engine fromAddress toAddress) = true ∧
      emitAny engine isCall fromAddress toAddress options capacity =
        { status := .ok, result := { size := directSize engine }
          code := relCode engine isCall (relDisp engine fromAddress toAddress) }) ∨
    ((emitMode options = .absoluteOnly ∨
      fitsDirect engine (relDisp engine fromAddress toAddress) = false) ∧
      engine.config.mode = .x86_64 ∧
      emitAny engine isCall fromAddress toAddress options capacity =
        { status := .ok, result := { size := 14 }, code := absCode isCall toAddress }) := by
  rw [emitAny_eq] at h ⊢
  split at h
  · next hrel =>
    rw [if_pos hrel]
    exact .inl ⟨hrel.1, hrel.2, emitBytes_eq_of_ok h⟩
  · next hrel =>
    rw [if_neg hrel]
    rw [not_and_or, not_not, Bool.not_eq_true] at hrel
    right
    split at h
    · cases h
    · next hmode =>
      rw [if_neg hmode]
      rw [not_or, not_not] at hmode
      exact ⟨hrel, hmode.2, emitBytes_eq_of_ok h⟩

end AsmKit.X86
