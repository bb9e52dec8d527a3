import AsmKit.Encode.Permission
import AsmKit.Encode.RoundTrip

/-!
# The displacement of a branch operand

`asmkit_operand_pc_rel` names the target of a branch by a displacement. The encoders take a 0 for no
displacement, and each counts from its own base.
-/

namespace AsmKit

/-- The instruction is the relative jump or call of the target. Thumb has no call of two bytes. -/
def Inst.IsRelBranch (engine : Engine) (isCall : Bool) (inst : Inst) : Prop :=
  match engine.target.arch with
  | .x86 => X86.instMnemonic inst = if isCall then X86.Mnemonic.call else X86.Mnemonic.jmp
  | .arm => Arm.instMnemonic inst = (if isCall then Arm.Mnemonic.bl else Arm.Mnemonic.b) ∧
      (engine.config.mode = .armThumb → isCall = false)
  | .aarch64 => A64.instMnemonic inst = if isCall then A64.Mnemonic.bl else A64.Mnemonic.b
  | .bpf | .wasm => False

/-- A branch with its target in the displacement form. -/
structure Inst.IsPcRelBranch (engine : Engine) (isCall : Bool) (disp : BitVec 64) (inst : Inst) :
    Prop where
  arch : inst.arch = engine.target.arch
  mode : inst.mode = engine.config.mode
  branch : inst.IsRelBranch engine isCall
  operand : ∃ width, inst.operands.head? = some (Operand.ofPcRel disp width)

/-- The displacement is one that the decoder can give. ARM's count from the instruction itself. -/
def DispInRange (engine : Engine) (disp : BitVec 64) : Prop :=
  match engine.target.arch with
  | .x86 => X86.fitsDirect engine disp = true
  | .arm =>
    if engine.config.mode = .armA32 then i64FitsI24Words4 (disp - 8) = true
    else Arm.fitsThumb (disp - 4) = true
  | .aarch64 => i64FitsI26Words4 disp = true
  | .bpf | .wasm => False

/-- The instruction is encoded, and what is decoded at its address leads with the displacement. -/
def KeepsDisp (tables : Tables) (encoders : Encoders) (engine : Engine) (inst : Inst) (capacity : Nat)
    (prior : Inst) (disp : BitVec 64) : Prop :=
  (encodeInst encoders engine inst capacity).status = .ok ∧
    ∃ inst', decodeOne tables engine (encodeInst encoders engine inst capacity).code inst.address prior =
      .ok inst' ∧ inst'.LeadsWith disp

/-- No 0 is read as no displacement, unless address 0 is where it leads; on ARM that is all there is. -/
def DispKept (engine : Engine) (address disp : BitVec 64) : Prop :=
  match engine.target.arch with
  | .x86 => disp ≠ 0 ∨ address + BitVec.ofNat 64 (X86.directSize engine) = 0
  | .arm => disp = 0 ∧ address = 0
  | .aarch64 => disp ≠ 0 ∨ address = 0
  | .bpf | .wasm => False

section

variable {tables : AsmKit.Tables} {encoders : Encoders} {engine : Engine} {inst prior : Inst} {capacity : Nat}
  {isCall : Bool} {disp : BitVec 64}

theorem keepsDisp_iff {fits : Prop} [Decidable fits] {refused : EmitOut} {result : EmitResult}
    {code : List Byte} {imm : BitVec 64}
    (hout : encodeInst encoders engine inst capacity =
      (if fits then emitBytes result code capacity else refused).encoded)
    (hrefused : refused.status ≠ .ok) (hroom : result.size ≤ capacity)
    (hdec : fits → ∃ inst', decodeOne tables engine code inst.address prior = .ok inst' ∧
      inst'.LeadsWith imm) :
    KeepsDisp tables encoders engine inst capacity prior disp ↔ fits ∧ imm = disp := by
  unfold KeepsDisp
  rw [hout]
  by_cases hfits : fits
  · obtain ⟨inst', hdec, hleads⟩ := hdec hfits
    rw [if_pos hfits, emitBytes_ok hroom]
    simp only [EmitOut.encoded, hdec, Except.ok.injEq, exists_eq_left', true_and]
    rw [Inst.leadsWith_iff hleads, and_iff_right hfits]
  · rw [if_neg hfits]
    exact iff_of_false (fun h => hrefused h.1) fun h => hfits h.1

theorem distance_eq_iff {base : BitVec 64} :
    (if disp = 0 then 0 else base + disp) - base = disp ↔ disp ≠ 0 ∨ base = 0 := by
  by_cases hzero : disp = 0
  · rw [if_pos hzero, hzero]
    simp
  · rw [if_neg hzero]
    exact iff_of_true (by bv_omega) (.inl hzero)

theorem Inst.IsPcRelBranch.leadingTarget (h : inst.IsPcRelBranch engine isCall disp) :
    ∃ width, inst.leadingTarget = some (Operand.ofPcRel disp width) := by
  obtain ⟨width, hhead⟩ := h.operand
  refine ⟨width, ?_⟩
  rw [Inst.leadingTarget, hhead, Option.filter_some, if_pos]
  rfl

/-! ## x86 -/

theorem X86.branchTarget_ofPcRel (width size : Nat) :
    branchTarget inst (Operand.ofPcRel disp width) size =
      if disp = 0 then 0 else inst.address + BitVec.ofNat 64 size + disp := by
  have habs : (Operand.ofPcRel disp width).absTarget = 0 := rfl
  have himm : (Operand.ofPcRel disp width).imm = disp := rfl
  rw [branchTarget, habs, himm]
  simp

theorem X86.encode_pcRelBranch (harch : engine.target.arch = .x86)
    (h : inst.IsPcRelBranch engine isCall disp) :
    encodeInst encoders engine inst capacity = (emitRel engine isCall inst.address
      (if disp = 0 then 0 else inst.address + BitVec.ofNat 64 (directSize engine) + disp)
      capacity).encoded := by
  obtain ⟨width, hlead⟩ := h.leadingTarget
  have hbranch := h.branch
  unfold Inst.IsRelBranch at hbranch
  rw [harch] at hbranch
  have hne : instMnemonic inst ≠ Mnemonic.nop ∧ instMnemonic inst ≠ Mnemonic.ret ∧
      (instMnemonic inst = Mnemonic.jmp ∨ instMnemonic inst = Mnemonic.call) ∧
      (instMnemonic inst == Mnemonic.call) = isCall := by
    rw [hbranch]
    cases isCall <;> decide
  have harch' := h.arch
  rw [harch] at harch'
  rw [encodeInst, harch, encode, if_neg (by simp [harch', h.mode]), encodeOwn]
  simp only [if_neg hne.1, if_neg hne.2.1, if_pos hne.2.2.1, hne.2.2.2, hlead, Option.map_some,
    Option.getD_some, branchTarget_ofPcRel]

theorem X86.keepsDisp_iff (harch : engine.target.arch = .x86)
    (h : inst.IsPcRelBranch engine isCall disp) (hrange : fitsDirect engine disp = true)
    (hroom : directSize engine ≤ capacity) :
    KeepsDisp tables encoders engine inst capacity prior disp ↔
      disp ≠ 0 ∨ inst.address + BitVec.ofNat 64 (directSize engine) = 0 := by
  have hdisp : relDisp engine inst.address
      (if disp = 0 then 0 else inst.address + BitVec.ofNat 64 (directSize engine) + disp) = disp ↔
      disp ≠ 0 ∨ inst.address + BitVec.ofNat 64 (directSize engine) = 0 := distance_eq_iff
  rw [AsmKit.keepsDisp_iff (encode_pcRelBranch harch h) nofun hroom fun hfits => ?_, hdisp]
  · rw [and_iff_right_of_imp]
    intro h
    rwa [hdisp.2 h]
  · have hrel : ∃ inst', decodeOne engine tables.x86 (relCode engine isCall (relDisp engine inst.address
        (if disp = 0 then 0 else inst.address + BitVec.ofNat 64 (directSize engine) + disp)))
        inst.address prior = .ok inst' ∧ inst'.arch = .x86 ∧ inst'.LeadsWith (relDisp engine inst.address
        (if disp = 0 then 0 else inst.address + BitVec.ofNat 64 (directSize engine) + disp)) ∧ _ :=
      decodeOne_rel harch isCall hfits
    obtain ⟨inst', hdec, -, hleads, -⟩ := hrel
    refine ⟨applyOperandMetadata tables inst', ?_, hleads.withMetadata tables⟩
    rw [AsmKit.decodeOne, targetDecodeOne, harch, hdec]
    rfl

/-! ## AArch64 -/

theorem A64.branchTarget_ofPcRel (h : inst.IsPcRelBranch engine isCall disp) :
    branchTarget inst = if disp = 0 then 0 else inst.address + disp := by
  obtain ⟨width, hhead⟩ := h.operand
  obtain ⟨rest, hops⟩ := List.head?_eq_some_iff.1 hhead
  have hpcRel : findPcRelOperand inst = some (Operand.ofPcRel disp width) := by
    rw [findPcRelOperand, hops]
    rfl
  have habs : (Operand.ofPcRel disp width).absTarget = 0 := rfl
  have himm : (Operand.ofPcRel disp width).imm = disp := rfl
  simp only [branchTarget, hpcRel, operandTarget, habs, himm]
  simp

theorem A64.encode_pcRelBranch (harch : engine.target.arch = .aarch64)
    (h : inst.IsPcRelBranch engine isCall disp) :
    encodeInst encoders engine inst capacity =
      (emitRel isCall inst.address (if disp = 0 then 0 else inst.address + disp) capacity).encoded := by
  obtain ⟨width, hlead⟩ := h.leadingTarget
  have hbranch := h.branch
  unfold Inst.IsRelBranch at hbranch
  rw [harch] at hbranch
  have hmnemonic : (instMnemonic inst = Mnemonic.b ∨ instMnemonic inst = Mnemonic.bl) ∧
      (instMnemonic inst == Mnemonic.bl) = isCall := by
    rw [hbranch]
    cases isCall <;> decide
  have harch' := h.arch
  have hmode := h.mode
  have hmode' := engine.mode_of_aarch64 harch
  rw [harch] at harch'
  rw [encodeInst, harch, encode, if_neg (by simp [harch', hmode, hmode']), encodeOwn]
  simp only [if_pos hmnemonic.1, hmnemonic.2, hlead, Option.map_some, Option.getD_some,
    branchTarget_ofPcRel h]

theorem A64.keepsDisp_iff (harch : engine.target.arch = .aarch64) (hrows : PcRelRows tables.a64)
    (h : inst.IsPcRelBranch engine isCall disp) (hrange : i64FitsI26Words4 disp = true)
    (hroom : 4 ≤ capacity) :
    KeepsDisp tables encoders engine inst capacity prior disp ↔ disp ≠ 0 ∨ inst.address = 0 := by
  have hdisp : relDisp inst.address (if disp = 0 then 0 else inst.address + disp) = disp ↔
      disp ≠ 0 ∨ inst.address = 0 := distance_eq_iff
  rw [AsmKit.keepsDisp_iff (encode_pcRelBranch harch h) nofun hroom fun hfits => ?_, hdisp]
  · rw [and_iff_right_of_imp]
    intro h
    rwa [hdisp.2 h]
  · obtain ⟨inst', hdec, -, hleads⟩ :=
      decodeOne_relWord hrows (engine.mode_of_aarch64 harch) isCall hfits inst.address
    refine ⟨applyOperandMetadata tables inst', ?_, hleads.withMetadata tables⟩
    rw [AsmKit.decodeOne, targetDecodeOne, harch, hdec]
    rfl

/-! ## ARM -/

theorem Arm.armBranchTarget_ofPcRel (width size : Nat) :
    armBranchTarget inst (Operand.ofPcRel disp width) size =
      if disp = 0 then 0 else inst.address + BitVec.ofNat 64 size + disp := by
  have habs : (Operand.ofPcRel disp width).absTarget = 0 := rfl
  have himm : (Operand.ofPcRel disp width).imm = disp := rfl
  rw [armBranchTarget, habs, himm]
  simp

theorem Arm.encode_pcRelBranch (harch : engine.target.arch = .arm)
    (h : inst.IsPcRelBranch engine isCall disp) :
    encodeInst encoders engine inst capacity = (emitRel engine isCall inst.address
      (if disp = 0 then 0 else inst.address + BitVec.ofNat 64 (directSize engine) + disp)
      capacity).encoded := by
  obtain ⟨width, hlead⟩ := h.leadingTarget
  have hbranch := h.branch
  unfold Inst.IsRelBranch at hbranch
  rw [harch] at hbranch
  have hmnemonic : (instMnemonic inst = Mnemonic.b ∨ instMnemonic inst = Mnemonic.bl) ∧
      (instMnemonic inst == Mnemonic.bl) = isCall := by
    rw [hbranch.1]
    cases isCall <;> decide
  have harch' := h.arch
  rw [harch] at harch'
  rw [encodeInst, harch, encode, if_neg (by simp [harch', h.mode]), encodeOwn]
  simp only [if_pos hmnemonic.1, hmnemonic.2, hlead, Option.map_some, Option.getD_some,
    armBranchTarget_ofPcRel]

theorem Arm.distance_eq_iff {address size pc : BitVec 64} (hsize : size ≠ 0) :
    (if disp = 0 then 0 else address + size + disp) - (address + pc) + pc = disp ↔
      disp = 0 ∧ address = 0 := by
  have hcancel : ∀ target : BitVec 64, target - (address + pc) + pc = target - address := by
    intro target
    bv_omega
  rw [hcancel]
  by_cases hzero : disp = 0
  · rw [if_pos hzero, hzero]
    simp
  · rw [if_neg hzero]
    exact iff_of_false (by bv_omega) fun h => hzero h.1

theorem Arm.keepsDisp_iff (harch : engine.target.arch = .arm)
    (h : inst.IsPcRelBranch engine isCall disp) (hroom : directSize engine ≤ capacity) :
    KeepsDisp tables encoders engine inst capacity prior disp ↔ disp = 0 ∧ inst.address = 0 := by
  have hback : ∀ {inst' : Inst} {code : List Byte},
      decodeOne tables.arm engine code inst.address = .ok inst' →
      AsmKit.decodeOne tables engine code inst.address prior =
        .ok (applyOperandMetadata tables inst') := by
    intro inst' code hdec
    rw [AsmKit.decodeOne, targetDecodeOne, harch, hdec]
    rfl
  have hout : encodeInst encoders engine inst capacity = _ := encode_pcRelBranch harch h
  have hbranch := h.branch
  unfold Inst.IsRelBranch at hbranch
  rw [harch] at hbranch
  by_cases hmode : engine.config.mode = .armA32
  · have hsize : directSize engine = 4 := if_pos hmode
    rw [hsize] at hroom hout
    rw [emitRel, if_pos hmode] at hout
    rw [AsmKit.keepsDisp_iff hout (by decide) hroom fun hfits => ?_]
    · have hdist : relDispA32 inst.address
          (if disp = 0 then 0 else inst.address + BitVec.ofNat 64 4 + disp) + 8 = disp ↔
          disp = 0 ∧ inst.address = 0 := distance_eq_iff (by decide)
      rw [hdist, and_iff_right_of_imp]
      rintro ⟨rfl, haddress⟩
      rw [haddress]
      decide
    · obtain ⟨inst', hdec, -, -, -, hleads, -⟩ := decodeOne_relA32 hmode isCall hfits
      exact ⟨_, hback hdec, hleads.withMetadata tables⟩
  · have hthumb : engine.config.mode = .armThumb := (engine.mode_of_arm harch).resolve_left hmode
    have hsize : directSize engine = 2 := if_neg hmode
    rw [hsize] at hroom hout
    rw [emitRel, if_neg hmode, if_pos ⟨hthumb, by simp [hbranch.2 hthumb]⟩] at hout
    rw [AsmKit.keepsDisp_iff hout (by decide) hroom fun hfits => ?_]
    · have hdist : relDispThumb inst.address
          (if disp = 0 then 0 else inst.address + BitVec.ofNat 64 2 + disp) + 4 = disp ↔
          disp = 0 ∧ inst.address = 0 := distance_eq_iff (by decide)
      rw [hdist, and_iff_right_of_imp]
      rintro ⟨rfl, haddress⟩
      rw [haddress]
      decide
    · obtain ⟨inst', hdec, -, -, hleads, -⟩ := decodeOne_relThumb hthumb hfits
      exact ⟨_, hback hdec, hleads.withMetadata tables⟩

/-! ## Any target -/

/-- A displacement in range comes back exactly where it is not lost on the way. -/
theorem keepsDisp_iff_dispKept (hrows : engine.target.arch = .aarch64 → A64.PcRelRows tables.a64)
    (h : inst.IsPcRelBranch engine isCall disp) (hrange : DispInRange engine disp)
    (hroom : relativeSize engine ≤ capacity) :
    KeepsDisp tables encoders engine inst capacity prior disp ↔ DispKept engine inst.address disp := by
  unfold relativeSize at hroom
  unfold DispInRange at hrange
  unfold DispKept
  cases harch : engine.target.arch with
  | x86 =>
    rw [harch] at hroom hrange
    exact X86.keepsDisp_iff harch h hrange hroom
  | arm =>
    rw [harch] at hroom
    exact Arm.keepsDisp_iff harch h hroom
  | aarch64 =>
    rw [harch] at hroom hrange
    exact A64.keepsDisp_iff harch (hrows harch) h hrange hroom
  | bpf | wasm =>
    rw [harch] at hrange
    exact hrange.elim

end

/-- The branch at 0x1000 as `asmkit_inst_init` and `asmkit_operand_pc_rel` set it up. -/
def pcRelBranch (engine : Engine) (mnemonicId : Nat) (disp : BitVec 64) : Inst :=
  { engine.emptyInst with mnemonicId, address := 0x1000, operands := [Operand.ofPcRel disp 32] }

theorem keepsDisp_b :
    KeepsDisp { noTables with a64 := A64.pcRelTables } gprEncoders aarch64Engine
      (pcRelBranch aarch64Engine A64.Mnemonic.b 0x20) 4 aarch64Engine.emptyInst 0x20 := by
  have hbranch : (pcRelBranch aarch64Engine A64.Mnemonic.b 0x20).IsPcRelBranch aarch64Engine false 0x20 :=
    ⟨rfl, rfl, rfl, 32, rfl⟩
  have hrange : i64FitsI26Words4 0x20 = true := by decide
  exact (keepsDisp_iff_dispKept (fun _ => A64.pcRelTables_rows) hbranch hrange (by decide)).2
    (.inl (by decide))

/-- The A32 branch comes back with a displacement of four bytes more. -/
theorem not_keepsDisp_a32 :
    (pcRelBranch armEngineA32 Arm.Mnemonic.b 0x100).IsPcRelBranch armEngineA32 false 0x100 ∧
    DispInRange armEngineA32 0x100 ∧ ∀ prior, ¬ KeepsDisp noTables gprEncoders armEngineA32
      (pcRelBranch armEngineA32 Arm.Mnemonic.b 0x100) 4 prior 0x100 := by
  refine ⟨⟨rfl, rfl, ⟨rfl, nofun⟩, 32, rfl⟩, ?_, ?_⟩
  · have hrange : i64FitsI24Words4 (0x100 - 8) = true := by decide
    exact hrange
  · rintro prior ⟨-, inst', hdec, o, hlead, himm⟩
    cases hdec
    cases hlead
    revert himm
    decide

end AsmKit
