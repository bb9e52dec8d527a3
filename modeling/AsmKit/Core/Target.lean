import AsmKit.Core.Engine

/-!
# Target capabilities

`asmkit_get_target_capabilities`.
-/

namespace AsmKit

namespace TargetCap

def nativeLinear : BitVec 32 := 1 <<< 0
def structuredControlFlow : BitVec 32 := 1 <<< 1
def encode : BitVec 32 := 1 <<< 2
def relocateInstruction : BitVec 32 := 1 <<< 3
def emitBranch : BitVec 32 := 1 <<< 4
def emitCall : BitVec 32 := 1 <<< 5
def branchIsland : BitVec 32 := 1 <<< 6
def emitPadding : BitVec 32 := 1 <<< 7

/-- What the targets with branches share. -/
def native : BitVec 32 :=
  encode ||| nativeLinear ||| relocateInstruction ||| emitBranch ||| emitCall ||| branchIsland |||
    emitPadding

end TargetCap

structure TargetCapabilities where
  arch : Arch
  mode : Mode
  flags : BitVec 32
  minimumInstructionUnit : Nat
  instructionAlignment : Nat
  maximumInstructionSize : Nat
deriving DecidableEq, Repr

/-- The flags, the instruction unit and the alignment of a mode. -/
def Mode.capabilities : Mode → Option (BitVec 32 × Nat × Nat)
  | .x86_16 | .x86_32 | .x86_64 => some (TargetCap.native, 1, 1)
  | .armA32 => some (TargetCap.native, 4, 4)
  | .armThumb => some (TargetCap.native, 2, 2)
  | .aarch64 => some (TargetCap.native, 4, 4)
  | .bpf64 =>
    some (TargetCap.encode ||| TargetCap.nativeLinear ||| TargetCap.relocateInstruction, 8, 8)
  | .wasm32 | .wasm64 => some (TargetCap.encode ||| TargetCap.structuredControlFlow, 1, 1)
  | .default => none

def getTargetCapabilities (engine : Engine) : Except Status TargetCapabilities :=
  match engine.config.mode.capabilities with
  | none => .error .unsupportedMode
  | some (flags, unit, alignment) =>
    .ok { arch := engine.config.arch, mode := engine.config.mode, flags
          minimumInstructionUnit := unit, instructionAlignment := alignment
          maximumInstructionSize := maxInstBytes }

/-- The address is a multiple of the alignment the target publishes. -/
def Aligned (engine : Engine) (address : BitVec 64) : Prop :=
  ∀ capabilities, getTargetCapabilities engine = .ok capabilities →
    capabilities.instructionAlignment ∣ address.toNat

theorem aligned_iff {engine : Engine} {address : BitVec 64} {flags : BitVec 32} {unit n : Nat}
    (hmode : engine.config.mode.capabilities = some (flags, unit, n)) :
    Aligned engine address ↔ n ∣ address.toNat := by
  unfold Aligned getTargetCapabilities
  rw [hmode]
  constructor
  · intro h
    exact h _ rfl
  · rintro h capabilities heq
    cases heq
    exact h

end AsmKit
