import AsmKit.Core.Types

/-!
# Engines

The configuration, the table of targets, and `asmkit_engine_init`. The function pointers of a
target are told apart by its architecture, so only the mode range of the table is kept.
-/

namespace AsmKit

/-! ## Targets -/

/-- The value of the mode in the C enumeration. -/
def Mode.value : Mode → Nat
  | .default => 0
  | .x86_16 => 1
  | .x86_32 => 2
  | .x86_64 => 3
  | .armA32 => 4
  | .armThumb => 5
  | .aarch64 => 6
  | .bpf64 => 7
  | .wasm32 => 8
  | .wasm64 => 9

/-- The architecture whose target covers the mode. -/
def Mode.arch : Mode → Option Arch
  | .default => none
  | .x86_16 | .x86_32 | .x86_64 => some .x86
  | .armA32 | .armThumb => some .arm
  | .aarch64 => some .aarch64
  | .bpf64 => some .bpf
  | .wasm32 | .wasm64 => some .wasm

structure TargetOps where
  arch : Arch
  firstMode : Mode
  lastMode : Mode
deriving DecidableEq, Repr

def x86Ops : TargetOps := ⟨.x86, .x86_16, .x86_64⟩
def armOps : TargetOps := ⟨.arm, .armA32, .armThumb⟩
def aarch64Ops : TargetOps := ⟨.aarch64, .aarch64, .aarch64⟩
def bpfOps : TargetOps := ⟨.bpf, .bpf64, .bpf64⟩
def wasmOps : TargetOps := ⟨.wasm, .wasm32, .wasm64⟩

def defaultModeForArch : Arch → Mode
  | .x86 => .x86_64
  | .arm => .armA32
  | .aarch64 => .aarch64
  | .bpf => .bpf64
  | .wasm => .wasm32

def lookupTargetOps (arch : Arch) (mode : Mode) : Option TargetOps :=
  let mode := if mode = .default then defaultModeForArch arch else mode
  [x86Ops, armOps, aarch64Ops, bpfOps, wasmOps].find? fun ops =>
    ops.arch = arch ∧ ops.firstMode.value ≤ mode.value ∧ mode.value ≤ ops.lastMode.value

/-! ## Configurations -/

namespace EngineFlag

def explicitFeatures : BitVec 32 := 1 <<< 0
def allTargetFeatures : BitVec 32 := 1 <<< 1

end EngineFlag

structure EngineConfig where
  arch : Arch
  mode : Mode
  featureBits : Vector (BitVec 64) 8 := .replicate 8 0
  flags : BitVec 32 := 0
deriving DecidableEq, Repr

/-- An engine that `asmkit_engine_init` set up: its target is the one of its architecture and
mode. -/
structure Engine where
  config : EngineConfig
  target : TargetOps
  mode_ne_default : config.mode ≠ .default
  lookup : lookupTargetOps config.arch config.mode = some target

def EngineConfig.resolveMode (config : EngineConfig) : Mode :=
  if config.mode = .default then defaultModeForArch config.arch else config.mode

def EngineConfig.resolve (config : EngineConfig) : EngineConfig :=
  let config := { config with mode := config.resolveMode }
  if hasFlag config.flags EngineFlag.allTargetFeatures ∨
      ¬ hasFlag config.flags EngineFlag.explicitFeatures then
    { config with
      featureBits := .replicate 8 (BitVec.allOnes 64)
      flags := config.flags ||| EngineFlag.allTargetFeatures }
  else config

@[simp] theorem EngineConfig.resolve_mode (config : EngineConfig) :
    config.resolve.mode = config.resolveMode := by
  simp only [resolve]
  split <;> rfl

@[simp] theorem EngineConfig.resolve_arch (config : EngineConfig) :
    config.resolve.arch = config.arch := by
  simp only [resolve]
  split <;> rfl

theorem EngineConfig.resolve_mode_ne_default (config : EngineConfig) :
    config.resolve.mode ≠ .default := by
  rw [resolve_mode, resolveMode]
  split
  · cases config.arch <;> simp [defaultModeForArch]
  · assumption

def engineInit (config : EngineConfig) : Except Status Engine :=
  match h : lookupTargetOps config.resolve.arch config.resolve.mode with
  | none => .error .unsupportedMode
  | some target => .ok ⟨config.resolve, target, config.resolve_mode_ne_default, h⟩

/-- The configuration `asmkit_engine_init` settles on when no features are named. -/
def allFeatures (arch : Arch) (mode : Mode) : EngineConfig :=
  { arch, mode, featureBits := .replicate 8 (BitVec.allOnes 64)
    flags := EngineFlag.allTargetFeatures }

def x86Engine16 : Engine := ⟨allFeatures .x86 .x86_16, x86Ops, by decide, by decide⟩
def x86Engine64 : Engine := ⟨allFeatures .x86 .x86_64, x86Ops, by decide, by decide⟩
def armEngineA32 : Engine := ⟨allFeatures .arm .armA32, armOps, by decide, by decide⟩
def armEngineThumb : Engine := ⟨allFeatures .arm .armThumb, armOps, by decide, by decide⟩
def aarch64Engine : Engine := ⟨allFeatures .aarch64 .aarch64, aarch64Ops, by decide, by decide⟩
def bpfEngine : Engine := ⟨allFeatures .bpf .bpf64, bpfOps, by decide, by decide⟩
def wasmEngine64 : Engine := ⟨allFeatures .wasm .wasm64, wasmOps, by decide, by decide⟩

example : engineInit { arch := .x86, mode := .default } = .ok x86Engine64 := rfl

/-- `asmkit_engine_feature_word`. -/
def Engine.featureWord (engine : Engine) (word : Nat) : BitVec 64 :=
  if hasFlag engine.config.flags EngineFlag.allTargetFeatures then BitVec.allOnes 64
  else engine.config.featureBits[word]?.getD 0

/-- `asmkit_target_feature_enabled`. -/
def Engine.featureEnabled (engine : Engine) (bit : Nat) : Bool :=
  (engine.featureWord (bit / 64)).getLsbD (bit % 64)

/-- `bpf_td_features_match` and `wasm_td_features_match`: no feature is required that is off. -/
def Engine.featuresMatch (engine : Engine) (required : Vector (BitVec 64) 8) : Bool :=
  (List.range 8).all fun i => required[i]?.getD 0 &&& ~~~engine.featureWord i == 0

/-! ## What the architecture says about the mode -/

theorem lookupTargetOps_eq_some {arch : Arch} {mode : Mode} {ops : TargetOps}
    (hmode : mode ≠ .default) (h : lookupTargetOps arch mode = some ops) :
    ops.arch = arch ∧ ops.firstMode.value ≤ mode.value ∧ mode.value ≤ ops.lastMode.value := by
  have hfound := List.find?_some h
  simpa [hmode] using hfound

namespace Engine

variable (engine : Engine)

theorem target_arch : engine.target.arch = engine.config.arch :=
  (lookupTargetOps_eq_some engine.mode_ne_default engine.lookup).1

theorem mode_arch : engine.config.mode.arch = some engine.target.arch := by
  have hlookup := engine.lookup
  rw [← engine.target_arch] at hlookup
  have hne := engine.mode_ne_default
  cases hmode : engine.config.mode <;> cases harch : engine.target.arch <;>
    simp_all [lookupTargetOps, Mode.value, Mode.arch, x86Ops, armOps, aarch64Ops, bpfOps, wasmOps]

theorem mode_of_x86 (h : engine.target.arch = .x86) :
    engine.config.mode = .x86_16 ∨ engine.config.mode = .x86_32 ∨ engine.config.mode = .x86_64 := by
  have hmode := engine.mode_arch
  rw [h] at hmode
  cases hm : engine.config.mode <;> simp_all [Mode.arch]

theorem mode_of_arm (h : engine.target.arch = .arm) :
    engine.config.mode = .armA32 ∨ engine.config.mode = .armThumb := by
  have hmode := engine.mode_arch
  rw [h] at hmode
  cases hm : engine.config.mode <;> simp_all [Mode.arch]

theorem mode_of_aarch64 (h : engine.target.arch = .aarch64) : engine.config.mode = .aarch64 := by
  have hmode := engine.mode_arch
  rw [h] at hmode
  cases hm : engine.config.mode <;> simp_all [Mode.arch]

theorem mode_of_bpf (h : engine.target.arch = .bpf) : engine.config.mode = .bpf64 := by
  have hmode := engine.mode_arch
  rw [h] at hmode
  cases hm : engine.config.mode <;> simp_all [Mode.arch]

theorem mode_of_wasm (h : engine.target.arch = .wasm) :
    engine.config.mode = .wasm32 ∨ engine.config.mode = .wasm64 := by
  have hmode := engine.mode_arch
  rw [h] at hmode
  cases hm : engine.config.mode <;> simp_all [Mode.arch]

theorem featuresMatch_none : engine.featuresMatch (.replicate 8 0) = true := by
  simp only [featuresMatch, List.all_eq_true, List.mem_range]
  intro i hi
  simp [hi]

end Engine

end AsmKit
