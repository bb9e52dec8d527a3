import AsmKit.Analysis.Inst
import AsmKit.Decode.Block
import AsmKit.Encode.Emit

/-!
# `asmkit_relocate_inst`, `asmkit_plan_detour` and `asmkit_relocate_prologue`
-/

namespace AsmKit

/-! ## One instruction -/

def relocateInst (engine : Engine) (inst : Inst) (relocatedAddress : BitVec 64) (capacity : Nat) :
    EmitOut :=
  match engine.target.arch with
  | .x86 => X86.relocate engine inst relocatedAddress capacity
  | .arm => Arm.relocate engine inst relocatedAddress capacity
  | .aarch64 => A64.relocate inst relocatedAddress capacity
  | .bpf | .wasm => { status := .unsupportedTargetOperation }

/-! ## Planning -/

structure DetourPlanOptions where
  branchMode : BranchMode := .auto
  minPatchSizeOverride : Nat := 0
deriving DecidableEq, Repr

structure DetourPlan where
  patchSize : Nat
  minOverwriteSize : Nat
  entryStubSize : Nat
  islandStubSize : Nat
  trampolineMinSize : Nat := 0
  requiresNearIsland : Bool
  islandMinDistance : Int
  islandMaxDistance : Int
  clobberMaskLo : BitVec 64
  clobberMaskHi : BitVec 64
  hazardFlags : BitVec 64 := 0
deriving DecidableEq, Repr

def planBranchMode (options : Option DetourPlanOptions) : BranchMode :=
  (options.map (·.branchMode)).getD .auto

/-- `min_patch_size` of the target: the size and the low clobber mask. -/
def minPatchSize (engine : Engine) (fromAddress toAddress : BitVec 64) (mode : BranchMode) :
    Nat × BitVec 64 :=
  match engine.target.arch with
  | .x86 => (X86.minPatch engine fromAddress toAddress mode, 0)
  | .arm => (Arm.minPatch engine fromAddress toAddress mode, 0)
  | .aarch64 => A64.minPatch fromAddress toAddress mode
  | .bpf | .wasm => (0, 0)

def planJumpBack (engine : Engine) (mode : BranchMode) : Except Status BranchPlanBound :=
  match engine.target.arch with
  | .x86 => X86.planJumpBack engine mode
  | .arm => Arm.planJumpBack engine mode
  | .aarch64 => A64.planJumpBack mode
  | .bpf | .wasm => .error .unsupportedTargetOperation

/-- What the plan sets aside for an instruction. -/
def InstSemantics.bound (sem : InstSemantics) (inst : Inst) : Nat :=
  if sem.maxEmitSize ≠ 0 then sem.maxEmitSize else inst.size

/-- The plan with an instruction added. -/
def DetourPlan.add (plan : DetourPlan) (inst : Inst) (sem : InstSemantics) : DetourPlan :=
  { plan with
    trampolineMinSize := plan.trampolineMinSize + sem.bound inst
    hazardFlags := plan.hazardFlags ||| sem.hazardFlags
    clobberMaskLo := plan.clobberMaskLo ||| sem.clobberMaskLo
    clobberMaskHi := plan.clobberMaskHi ||| sem.clobberMaskHi }

/-- The loop of `asmkit_plan_detour`. -/
def planInsts (engine : Engine) : List Inst → DetourPlan → Except Status DetourPlan
  | [], plan => .ok plan
  | inst :: insts, plan =>
    match analyzeInst engine inst with
    | .error status => .error status
    | .ok sem =>
      if sem.relocKind = .reject then .error .unsupportedRelocation
      else planInsts engine insts (plan.add inst sem)

def minOverwrite (options : Option DetourPlanOptions) (patchSize : Nat) : Nat :=
  max patchSize ((options.map (·.minPatchSizeOverride)).getD 0)

def isNative (engine : Engine) : Bool :=
  engine.config.arch != .bpf && engine.config.arch != .wasm

def planDetour (tables : Tables) (engine : Engine) (code : List Byte)
    (address replacementAddress : BitVec 64) (options : Option DetourPlanOptions)
    (priors : Nat → Inst) : Except Status DetourPlan :=
  let mode := planBranchMode options
  let (patchSize, clobbers) := minPatchSize engine address replacementAddress mode
  if ¬ isNative engine then .error .unsupportedTargetOperation
  else if patchSize = 0 then .error .branchOutOfRange
  else
    match planJumpBack engine mode with
    | .error status => .error status
    | .ok jumpBack =>
      match decodeBlockUntil tables engine code address (minOverwrite options patchSize)
          maxBlockInstructions priors with
      | .error status => .error status
      | .ok block =>
        (planInsts engine block.insts
          { patchSize, minOverwriteSize := block.totalSize, entryStubSize := patchSize
            islandStubSize := patchSize, requiresNearIsland := jumpBack.requiresNearIsland
            islandMinDistance := jumpBack.islandMinDistance
            islandMaxDistance := jumpBack.islandMaxDistance
            clobberMaskLo := clobbers ||| jumpBack.clobberMaskLo
            clobberMaskHi := jumpBack.clobberMaskHi }).map
          fun plan => { plan with trampolineMinSize := plan.trampolineMinSize + jumpBack.size }

/-! ## Relocating a prologue -/

structure RelocateOptions where
  minOverwriteSize : Nat
  continuationAddress : BitVec 64
  jumpBackMode : BranchMode := .auto
  allowedClobberMaskLo : BitVec 64 := 0
  allowedClobberMaskHi : BitVec 64 := 0
deriving DecidableEq, Repr

structure RelocatedInst where
  originalAddress : BitVec 64
  originalSize : Nat
  relocatedAddress : BitVec 64
  relocatedOffset : Nat
  relocatedSize : Nat
deriving DecidableEq, Repr

structure RelocateResult where
  overwrittenSize : Nat := 0
  originalAddress : BitVec 64 := 0
  continuationAddress : BitVec 64 := 0
  relocatedAddress : BitVec 64 := 0
  relocatedSize : Nat := 0
  relocatedInsts : List RelocatedInst := []
  jumpBackOffset : Nat := 0
  jumpBackSize : Nat := 0
  clobberMaskLo : BitVec 64 := 0
  clobberMaskHi : BitVec 64 := 0
  hazardFlags : BitVec 64 := 0
deriving DecidableEq, Repr

/-- The trampoline under construction: the bytes up to the offset, and the result so far. -/
structure Trampoline where
  code : List Byte := []
  offset : Nat := 0
  result : RelocateResult := {}
deriving DecidableEq, Repr

/-- `*out_code`, the result and the status of a relocation. -/
structure RelocateOut where
  status : Status
  code : List Byte := []
  result : RelocateResult := {}
deriving DecidableEq, Repr

def clobbersForbidden (options : RelocateOptions) (emit : EmitResult) : Bool :=
  emit.clobberMaskLo &&& ~~~options.allowedClobberMaskLo != 0 ||
    emit.clobberMaskHi &&& ~~~options.allowedClobberMaskHi != 0

def RelocateResult.addClobbers (result : RelocateResult) (emit : EmitResult) : RelocateResult :=
  { result with
    clobberMaskLo := result.clobberMaskLo ||| emit.clobberMaskLo
    clobberMaskHi := result.clobberMaskHi ||| emit.clobberMaskHi }

def RelocateResult.addHazards (result : RelocateResult) (sem : InstSemantics) : RelocateResult :=
  { result with hazardFlags := result.hazardFlags ||| sem.hazardFlags }

/-- The trampoline with a relocated instruction behind it. -/
def Trampoline.push (t : Trampoline) (relocatedAddress : BitVec 64) (inst : Inst) (emit : EmitOut) :
    Trampoline :=
  { code := t.code ++ emit.code
    offset := t.offset + emit.result.size
    result := { t.result.addClobbers emit.result with
      relocatedInsts := t.result.relocatedInsts ++
        [{ originalAddress := inst.address, originalSize := inst.size
           relocatedAddress := relocatedAddress + BitVec.ofNat 64 t.offset
           relocatedOffset := t.offset, relocatedSize := emit.result.size }] } }

/-- The loop of `asmkit_relocate_prologue`, which stops at the first instruction that cannot be
relocated, with what the output and the result hold then. -/
def relocateInsts (engine : Engine) (options : RelocateOptions) (relocatedAddress : BitVec 64)
    (capacity : Nat) : List Inst → Trampoline → Except RelocateOut Trampoline
  | [], t => .ok t
  | inst :: insts, t =>
    match analyzeInst engine inst with
    | .error status => .error { status, code := t.code, result := t.result }
    | .ok sem =>
      let t := { t with result := t.result.addHazards sem }
      let emit := relocateInst engine inst (relocatedAddress + BitVec.ofNat 64 t.offset)
        (capacity - t.offset)
      if emit.status ≠ .ok then
        .error { status := emit.status, code := t.code ++ emit.code, result := t.result }
      else if clobbersForbidden options emit.result then
        .error { status := .forbiddenClobber, code := t.code ++ emit.code
                 result := t.result.addClobbers emit.result }
      else relocateInsts engine options relocatedAddress capacity insts
        (t.push relocatedAddress inst emit)

def RelocateOptions.jumpOptions (options : RelocateOptions) : EmitOptions :=
  { mode := options.jumpBackMode, allowedClobberMaskLo := options.allowedClobberMaskLo
    allowedClobberMaskHi := options.allowedClobberMaskHi }

/-- The jump back behind the relocated instructions. -/
def appendJumpBack (engine : Engine) (options : RelocateOptions)
    (originalAddress relocatedAddress : BitVec 64) (capacity : Nat) (block : Block) (t : Trampoline) :
    RelocateOut :=
  let result := { t.result with jumpBackOffset := t.offset }
  let emit := emitJump engine (relocatedAddress + BitVec.ofNat 64 t.offset)
    options.continuationAddress (some options.jumpOptions) (capacity - t.offset)
  let code := t.code ++ emit.code
  if emit.status ≠ .ok then
    { status := emit.status, code
      result :=
        if emit.status = .forbiddenClobber then result.addClobbers emit.result else result }
  else
    { status := .ok, code
      result := { result.addClobbers emit.result with
        overwrittenSize := block.totalSize, originalAddress
        continuationAddress := options.continuationAddress, relocatedAddress
        jumpBackSize := emit.result.size, relocatedSize := t.offset + emit.result.size } }

def relocatePrologue (tables : Tables) (engine : Engine) (code : List Byte)
    (originalAddress relocatedAddress : BitVec 64) (options : RelocateOptions) (capacity : Nat)
    (priors : Nat → Inst) : RelocateOut :=
  if ¬ isNative engine then { status := .unsupportedTargetOperation }
  else
    match decodeBlockUntil tables engine code originalAddress (max options.minOverwriteSize 1)
        maxBlockInstructions priors with
    | .error status => { status }
    | .ok block =>
      match relocateInsts engine options relocatedAddress capacity block.insts {} with
      | .error out => out
      | .ok t => appendJumpBack engine options originalAddress relocatedAddress capacity block t

end AsmKit
