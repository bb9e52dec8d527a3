import AsmKit.A64.Reencode
import AsmKit.Arm.Reencode
import AsmKit.X86.Reencode

/-!
# Encoding a decoded instruction

An instruction that an overlay encodes itself is decoded back from what it emits just when it has
the one form that the overlay builds.
-/

namespace AsmKit

/-- The mnemonics that the overlay of a target encodes itself. -/
def ownMnemonics : Arch → List Nat
  | .x86 => X86.ownMnemonics
  | .arm => Arm.ownMnemonics
  | .aarch64 => A64.ownMnemonics
  | .bpf | .wasm => []

/-- What is asked of the generated parts: the rows of the instructions that are emitted, and the
names of the registers. -/
structure OwnRows (tables : Tables) (encoders : Encoders) (engine : Engine) : Prop where
  ret : engine.target.arch = .x86 → X86.RetRow engine tables.x86
  branches : engine.target.arch = .aarch64 → A64.BranchRows tables.a64
  registers : engine.target.arch = .aarch64 → A64.RegisterInfos encoders

/-- The form that the overlay builds. -/
def Inst.IsOwnForm (engine : Engine) (inst : Inst) : Prop :=
  match engine.target.arch with
  | .x86 => X86.IsPlain engine inst
  | .arm => Arm.IsPlain engine inst
  | .aarch64 => A64.ReturnsToLink inst
  | .bpf | .wasm => True

/-- A decoded instruction that the overlay encodes is decoded back just when it has the form that
the overlay builds. -/
theorem encodeInst_decodesBack_iff {tables : Tables} {encoders : Encoders} {engine : Engine}
    {code : List Byte} {address : BitVec 64} {prior inst : Inst} {capacity : Nat} {out : EncodeOut}
    (hrows : OwnRows tables encoders engine)
    (hdec : decodeOne tables engine code address prior = .ok inst)
    (hmnemonic : inst.mnemonicId ∈ ownMnemonics engine.target.arch)
    (hown : encodeOwn encoders engine inst capacity = some out)
    (hok : (encodeInst encoders engine inst capacity).status = .ok) (prior' : Inst) :
    inst.DecodesBack tables engine (encodeInst encoders engine inst capacity).code prior' ↔
      inst.IsOwnForm engine := by
  obtain ⟨heq, hinst, hmode⟩ := encodeInst_own hown hok
  rw [heq] at hok ⊢
  unfold encodeOwn at hown
  unfold Inst.IsOwnForm
  cases harch : engine.target.arch with
  | x86 =>
    rw [harch] at hown hmnemonic hinst
    exact X86.decodesBack_iff harch (hrows.ret harch) hmnemonic hinst hown hok prior'
  | arm =>
    rw [harch] at hown hmnemonic hinst
    exact Arm.decodesBack_iff harch hinst hmode hmnemonic hown hok prior'
  | aarch64 =>
    rw [harch] at hown hmnemonic
    exact A64.decodesBack_iff harch (hrows.branches harch) (hrows.registers harch) hdec hmnemonic
      hown hok
  | bpf | wasm =>
    rw [harch] at hmnemonic
    cases hmnemonic

/-! ## At fixed instructions -/

def branchTables : Tables := { noTables with a64 := A64.branchTables }

/-- The names of the 64-bit registers alone. -/
def gprEncoders : Encoders where
  registerInfo reg :=
    ((List.range 32).find? fun n => A64.tdGprId n 64 false == reg).map fun n => ⟨n, 64⟩
  encodeTd _ _ _ := { status := .unsupportedInstruction }

/-- `ret`. -/
def retInst : Inst :=
  (decodeOne branchTables aarch64Engine (store32le 0xd65f03c0) 0x1000
    aarch64Engine.emptyInst).toOption.getD aarch64Engine.emptyInst

theorem encodeInst_ret :
    decodeOne branchTables aarch64Engine (store32le 0xd65f03c0) 0x1000 aarch64Engine.emptyInst =
      .ok retInst ∧
    retInst.DecodesBack branchTables aarch64Engine
      (encodeInst gprEncoders aarch64Engine retInst 4).code aarch64Engine.emptyInst := by
  have hdec : decodeOne branchTables aarch64Engine (store32le 0xd65f03c0) 0x1000
      aarch64Engine.emptyInst = .ok retInst := rfl
  have hrows : OwnRows branchTables gprEncoders aarch64Engine := by
    refine ⟨?_, fun _ => A64.branchTables_rows, fun _ => ?_⟩
    · intro harch
      cases harch
    · unfold A64.RegisterInfos
      decide
  exact ⟨hdec, (encodeInst_decodesBack_iff hrows hdec (by decide) rfl rfl aarch64Engine.emptyInst).2
    fun _ => rfl⟩

/-- `beq` to 0x1008. -/
def beqInst : Inst :=
  (decodeOne noTables armEngineA32 (store32le 0x0a000000) 0x1000
    armEngineA32.emptyInst).toOption.getD armEngineA32.emptyInst

/-- The condition is lost: the code is that of `b`. -/
theorem encodeInst_beq :
    decodeOne noTables armEngineA32 (store32le 0x0a000000) 0x1000 armEngineA32.emptyInst =
      .ok beqInst ∧
    beqInst.mnemonicId ∈ ownMnemonics armEngineA32.target.arch ∧
    encodeInst gprEncoders armEngineA32 beqInst 4 =
      { status := .ok, size := 4, code := store32le 0xea000000 } ∧
    ∀ prior, ¬ beqInst.DecodesBack noTables armEngineA32
      (encodeInst gprEncoders armEngineA32 beqInst 4).code prior := by
  refine ⟨rfl, by decide, rfl, ?_⟩
  rintro prior ⟨inst', hdec, hagrees⟩
  cases hdec
  cases hagrees.predicate { mode := .armA32 }

end AsmKit
