import AsmKit.Relocate.Metadata
import AsmKit.X86.Branches
import AsmKit.X86.Jcc

/-!
# Relocating the conditional jumps of x86

Every mode gets the near form with four displacement bytes, of which the 16-bit processor reads two.
-/

namespace AsmKit

open LittleEndian SignedField

namespace X86

open Isa.X86 (Cpu Insn rel machine)

/-! ## The target -/

theorem Jcc.disp_length_cases {mode : Mode} (j : Jcc mode) :
    IsDispSize j.disp.length := by
  have h := j.disp_length
  split at h
  · split at h
    · exact .inr (.inl h)
    · exact .inr (.inr h)
  · exact .inl h

section

variable {engine : Engine} (j : Jcc engine.config.mode) (rest : List Byte)
  (address relocatedAddress : BitVec 64)

theorem setWidth_jccTarget {w : Nat} (hw : w ≤ 64) :
    (pcRelativeOperandTarget (j.inst rest address) (j.inst rest address).operand0).setWidth w =
      j.target w address := by
  have htarget : pcRelativeOperandTarget (j.inst rest address) (j.inst rest address).operand0 =
      address + BitVec.ofNat 64 j.bytes.length + readSigned (j.disp ++ rest) j.disp.length := by
    have hoperand : (j.inst rest address).operand0 =
        pcOperand (j.disp ++ rest) j.disp.length address j.bytes.length := rfl
    rw [hoperand, pcRelativeOperandTarget, if_neg (by simp [pcOperand])]
    split <;> rfl
  have hcut := setWidth_signExtend_shiftLeft hw (wordOf (8 * j.disp.length) j.disp) 0
  rw [BitVec.shiftLeft_zero, BitVec.shiftLeft_zero] at hcut
  rw [htarget, readSigned_eq j.disp_length_cases, List.take_left, BitVec.setWidth_add _ _ hw, hcut,
    setWidth_add_ofNat hw, Jcc.target, rel, List.take_length]

/-! ## The two forms -/

/-- The near form with four displacement bytes. -/
def nearForm (cc : BitVec 4) (relocatedAddress target : BitVec 64) : EmitOut :=
  { status := .ok, result := { size := 6 }
    code := jccBody cc true (store32le ((target - (relocatedAddress + 6)).setWidth 32)) }

/-- The inverted condition over the absolute jump. -/
def invertedForm (cc : BitVec 4) (target : BitVec 64) : EmitOut :=
  { status := .ok, result := { size := 16 }
    code := jccBody (cc ^^^ 1) false [14] ++ absCode false target }

variable {j rest address relocatedAddress} {capacity : Nat}

theorem findOpcode_jcc : findOpcode (j.inst rest address) = some j.prefixes.length := by
  have hlen : j.prefixes.length < maxInstBytes := Nat.lt_succ_of_lt j.prefixes_length_lt
  cases hnear : j.near with
  | true =>
    refine @findOpcode_eq_some _ _ (jccOpcode true j.cc :: j.disp) 0x0f ?_ rfl hlen
      j.prefixes_isPrefix ?_
    · simp [Jcc.inst, Jcc.bytes, jccBody, hnear]
    · change isPrefix engine.config.mode 0x0f = false
      cases engine.config.mode <;> decide
  | false =>
    refine @findOpcode_eq_some _ _ j.disp (jccOpcode false j.cc) ?_ rfl hlen
      j.prefixes_isPrefix (Jcc.isPrefix_opcode _ _ _)
    simp [Jcc.inst, Jcc.bytes, jccBody, hnear]

theorem condOpcode_jcc : condOpcode (j.inst rest address) j.prefixes.length = jccOpcode j.near j.cc := by
  have h0 := j.getD_bytes [] 0
  have h1 := j.getD_bytes [] 1
  rw [List.append_nil, List.append_nil] at h0 h1
  have hsize : (j.inst rest address).size = j.dispOffset + j.disp.length := j.bytes_length
  rw [Nat.add_zero] at h0
  cases hnear : j.near with
  | true =>
    simp only [jccBody, hnear, if_true, List.cons_append, List.getD_cons_zero,
      List.getD_cons_succ] at h0 h1
    have hlt : j.prefixes.length + 1 < (j.inst rest address).size := by
      rw [hsize, Jcc.dispOffset, hnear, if_pos rfl]
      omega
    exact (if_pos ⟨h0, hlt⟩).trans h1
  | false =>
    simp only [jccBody, hnear, Bool.false_eq_true, if_false, List.cons_append,
      List.getD_cons_zero] at h0
    have hop : ∀ cc, jccOpcode false cc ≠ 0x0f := by decide
    exact (if_neg fun h => hop j.cc (h0.symm.trans h.1)).trans h0

theorem relocateCond_of_ok
    (h : (relocateCond engine (j.inst rest address) relocatedAddress capacity).status = .ok) :
    let target := pcRelativeOperandTarget (j.inst rest address) (j.inst rest address).operand0
    let out := relocateCond engine (j.inst rest address) relocatedAddress capacity
    (i64FitsI32 (target - (relocatedAddress + 6)) = true ∧
      out = nearForm j.cc relocatedAddress target) ∨
    (engine.config.mode = .x86_64 ∧ out = invertedForm j.cc target) := by
  have hop : ∀ near cc, (isShortJcc (jccOpcode near cc) = true ∨ isNearJcc (jccOpcode near cc) = true) ∧
      (0x80 ||| ((jccOpcode near cc &&& 0x0f) &&& 0x0f)) = jccOpcode true cc ∧
      (0x70 ||| ((jccOpcode near cc ^^^ 1) &&& 0x0f)) = jccOpcode false (cc ^^^ 1) := by decide
  obtain ⟨hjcc, hnear, hinverted⟩ := hop j.near j.cc
  have hoperands : ¬ (j.inst rest address).operands = [] := by simp [Jcc.inst]
  intro target
  simp only [relocateCond, hoperands, if_false, findOpcode_jcc, condOpcode_jcc, if_pos hjcc] at h ⊢
  have hemit : emitJcc (jccOpcode j.near j.cc &&& 0x0f) relocatedAddress target capacity =
      if i64FitsI32 (target - (relocatedAddress + 6)) then
        emitBytes { size := 6 } (nearForm j.cc relocatedAddress target).code capacity
      else { status := .branchOutOfRange, result := { size := 6 } } := by
    simp only [emitJcc, hnear]
    rfl
  rw [show pcRelativeOperandTarget (j.inst rest address) (j.inst rest address).operand0 = target
    from rfl, hemit] at h ⊢
  by_cases hfits : i64FitsI32 (target - (relocatedAddress + 6)) = true
  · left
    simp only [hfits, if_true] at h ⊢
    have htaken : (emitBytes { size := 6 } (nearForm j.cc relocatedAddress target).code
        capacity).status = .ok ∨ (emitBytes { size := 6 }
          (nearForm j.cc relocatedAddress target).code capacity).status = .outputTooSmall ∨
        engine.config.mode ≠ .x86_64 := by
      unfold emitBytes
      split
      · exact .inr (.inl rfl)
      · exact .inl rfl
    rw [if_pos htaken] at h ⊢
    exact ⟨trivial, emitBytes_eq_of_ok h⟩
  · right
    simp only [if_neg hfits] at h ⊢
    by_cases hmode : engine.config.mode = .x86_64
    · rw [if_neg (by simp [hmode])] at h ⊢
      refine ⟨hmode, ?_⟩
      unfold emitJccAbs at h ⊢
      rw [emitBytes_eq_of_ok h, hinverted]
      rfl
    · rw [if_pos (.inr (.inr hmode))] at h
      cases h

end

/-! ## What the forms do -/

/-- The code jumps to the target where the condition holds and goes on behind its end elsewhere,
and changes no register and no flag. -/
def JumpsIf (w : Nat) (cc : BitVec 4) (target : BitVec w) (relocatedAddress : BitVec 64)
    (out : EmitOut) : Prop :=
  let last := relocatedAddress.setWidth w + BitVec.ofNat w out.result.size
  (machine w).Runs last (At relocatedAddress out.code) fun s s' =>
    s'.ip = (if s.flags.holds cc then target else last) ∧ s'.reg = s.reg ∧ s'.flags = s.flags

section

variable {engine : Engine} {w : Nat} {cc : BitVec 4} {relocatedAddress target : BitVec 64}

theorem nearForm_code_length : (nearForm cc relocatedAddress target).code.length = 6 := rfl

theorem near_target (hw : w ≤ 64) :
    relocatedAddress.setWidth w + BitVec.ofNat w 6 +
      (target - (relocatedAddress + 6)).setWidth w = target.setWidth w := by
  have hsix : relocatedAddress.setWidth w + BitVec.ofNat w 6 = (relocatedAddress + 6).setWidth w :=
    (setWidth_add_ofNat hw relocatedAddress 6).symm
  rw [hsix, setWidth_add_sub hw]

theorem step_nearForm (hw : HasWidth engine w) (hmode : engine.config.mode ≠ .x86_16)
    (hfits : i64FitsI32 (target - (relocatedAddress + 6)) = true) {s : Cpu w}
    (hs : At relocatedAddress (nearForm cc relocatedAddress target).code s) :
    Isa.X86.step s = some (if s.flags.holds cc then (.branch, { s with ip := target.setWidth w })
      else (.next, { s with ip := relocatedAddress.setWidth w + BitVec.ofNat w 6 })) := by
  obtain ⟨hip, hload⟩ := hs
  have hnear : Isa.X86.nearSize w = 4 := by
    cases hw with
    | w16 h => exact absurd h hmode
    | w32 _ => rfl
    | w64 _ => rfl
  have hfield : ((target - (relocatedAddress + 6)).setWidth 32).signExtend w =
      (target - (relocatedAddress + 6)).setWidth w := by
    cases hw with
    | w16 h => exact absurd h hmode
    | w32 _ => exact BitVec.signExtend_eq _
    | w64 _ =>
      rw [BitVec.setWidth_eq]
      exact signExtend_setWidth_of_fits _ (by omega) (by omega) ((i64FitsI32_iff _).1 hfits)
  have hrel : rel w 4 (store32le ((target - (relocatedAddress + 6)).setWidth 32)) =
      (target - (relocatedAddress + 6)).setWidth w := by
    have hbytes := Isa.X86.rel_of_bytes (w := w) (n := 4)
      (v := (target - (relocatedAddress + 6)).setWidth 32) []
    rw [List.append_nil] at hbytes
    rw [store32le_eq, hbytes, hfield]
  have hdec := decode_jccBody w cc true
    (store32le ((target - (relocatedAddress + 6)).setWidth 32)) (by rw [hnear]; rfl)
  rw [Isa.X86.step_of_loaded hload (by rw [nearForm_code_length]; omega) hdec]
  simp only [Isa.X86.exec, Insn.target, Insn.next, store32le_length, hrel]
  have hsize : (jccBody cc true (store32le ((target - (relocatedAddress + 6)).setWidth 32))).length = 6 :=
    rfl
  rw [hsize, hip, near_target hw.le]

theorem jumpsIf_nearForm (hw : HasWidth engine w) (hmode : engine.config.mode ≠ .x86_16)
    (hfits : i64FitsI32 (target - (relocatedAddress + 6)) = true) :
    JumpsIf w cc (target.setWidth w) relocatedAddress (nearForm cc relocatedAddress target) := by
  intro (s : Cpu w) hs
  have hstep := step_nearForm hw hmode hfits hs
  cases hholds : s.flags.holds cc with
  | true =>
    rw [hholds, if_pos rfl] at hstep
    exact ⟨_, .branch hstep, (if_pos hholds).symm, rfl, rfl⟩
  | false =>
    rw [hholds, if_neg Bool.false_ne_true] at hstep
    refine ⟨_, .last hstep rfl, ?_, rfl, rfl⟩
    rw [hholds]
    rfl

theorem jumpsIf_invertedForm :
    JumpsIf 64 cc target relocatedAddress (invertedForm cc target) := by
  intro (s : Cpu 64) hs
  obtain ⟨hip, hload⟩ := hs
  rw [BitVec.setWidth_eq] at hip
  have hdec := decode_jccBody 64 (cc ^^^ 1) false [14] rfl
  have hsize : (jccBody (cc ^^^ 1) false [14]).length = 2 := rfl
  have hstep := Isa.X86.step_of_loaded hload.left (by rw [hsize]; omega) hdec
  have hrel : rel 64 1 [14] = 14#64 := rfl
  have hlast : relocatedAddress + 2#64 + 14#64 = relocatedAddress + 16#64 := by
    rw [BitVec.add_assoc]
    rfl
  simp only [Isa.X86.exec, Insn.target, Insn.next, Isa.X86.Flags.holds_flip, List.length_singleton,
    hrel, hsize, hip, hlast] at hstep
  cases hholds : s.flags.holds cc with
  | true =>
    rw [hholds, if_neg (by decide)] at hstep
    have hne : relocatedAddress + 2#64 ≠
        relocatedAddress.setWidth 64 + BitVec.ofNat 64 (invertedForm cc target).result.size := by
      rw [BitVec.setWidth_eq, ne_eq, BitVec.add_right_inj]
      exact (by decide : ¬ 2#64 = BitVec.ofNat 64 16)
    have hstub : At (relocatedAddress + 2#64) (absCode false target)
        ({ s with ip := relocatedAddress + 2#64 } : Cpu 64) := by
      refine ⟨(BitVec.setWidth_eq _).symm, ?_⟩
      have hright := hload.right
      rw [hsize, hip] at hright
      exact hright
    refine ⟨_, .next hstep hne (.branch (step_absCode hstub)), ?_, rfl, rfl⟩
    rw [hholds]
    rfl
  | false =>
    rw [hholds, if_pos (by decide)] at hstep
    refine ⟨_, .branch hstep, ?_, rfl, rfl⟩
    rw [hholds, BitVec.setWidth_eq]
    rfl

theorem store32le_halves (v : BitVec 32) :
    ∃ high, store32le v = store16le (v.setWidth 16) ++ high := by
  refine ⟨[(v >>> 16).setWidth 8, (v >>> 24).setWidth 8], ?_⟩
  have hsecond : ((v.setWidth 16) >>> 8).setWidth 8 = (v >>> 8).setWidth 8 := by
    apply BitVec.eq_of_getLsbD_eq
    intro i hi
    simp [show 8 + i < 16 by omega]
  rw [store16le, hsecond, BitVec.setWidth_setWidth_of_le _ (by omega)]
  rfl

theorem exists_holds : ∀ cc : BitVec 4, ∃ cf pf zf sf of,
    (⟨cf, pf, zf, sf, of⟩ : Isa.X86.Flags).holds cc = true := by decide

/-- In 16-bit mode the jump is two bytes shorter than the emitter thinks, and so is its reach. -/
theorem not_jumpsIf_nearForm :
    ¬ JumpsIf 16 cc (target.setWidth 16) relocatedAddress (nearForm cc relocatedAddress target) := by
  intro h
  obtain ⟨cf, pf, zf, sf, of, hholds⟩ := exists_holds cc
  let s : Cpu 16 :=
    { reg := fun _ => 0, flags := ⟨cf, pf, zf, sf, of⟩, ip := relocatedAddress.setWidth 16
      mem := store (fun _ => 0) (relocatedAddress.setWidth 16)
        (nearForm cc relocatedAddress target).code }
  have hs : At relocatedAddress (nearForm cc relocatedAddress target).code s :=
    ⟨rfl, loaded_store _ _ _ (by rw [nearForm_code_length]; decide)⟩
  obtain ⟨high, hsplit⟩ := store32le_halves ((target - (relocatedAddress + 6)).setWidth 32)
  have hcode : (nearForm cc relocatedAddress target).code =
      jccBody cc true (store16le (((target - (relocatedAddress + 6)).setWidth 32).setWidth 16)) ++
        high := by
    rw [nearForm, hsplit, jccBody, jccBody, List.append_assoc]
  have hload := hs.2
  rw [hcode] at hload
  rw [BitVec.setWidth_setWidth_of_le _ (by omega : 16 ≤ 32)] at hload
  have hdec := decode_jccBody 16 cc true
    (store16le ((target - (relocatedAddress + 6)).setWidth 16)) rfl
  have hrel : rel 16 2 (store16le ((target - (relocatedAddress + 6)).setWidth 16)) =
      (target - (relocatedAddress + 6)).setWidth 16 := by
    have hbytes := Isa.X86.rel_of_bytes (w := 16) (n := 2)
      (v := (target - (relocatedAddress + 6)).setWidth 16) []
    rw [List.append_nil] at hbytes
    rw [store16le_eq, hbytes]
    exact BitVec.signExtend_eq _
  have hsize : (jccBody cc true
      (store16le ((target - (relocatedAddress + 6)).setWidth 16))).length = 4 := rfl
  have hstep := Isa.X86.step_of_loaded hload.left (by rw [hsize]; omega) hdec
  simp only [Isa.X86.exec, hsize, store16le_length, hrel, Insn.target, Insn.next] at hstep
  rw [if_pos (show s.flags.holds cc = true from hholds)] at hstep
  have hpost := (h.post_of_leaves hs (.branch hstep)).1
  rw [if_pos (show s.flags.holds cc = true from hholds)] at hpost
  have htarget := @near_target 16 relocatedAddress target (by omega)
  have hread : relocatedAddress.setWidth 16 + 4#16 +
      (target - (relocatedAddress + 6)).setWidth 16 = target.setWidth 16 := hpost
  grind

end

end X86

/-! ## `asmkit_relocate_inst` on conditional jumps -/

section

variable {tables : Tables} {engine : Engine} {w : Nat} {address relocatedAddress : BitVec 64}
  {prior inst : Inst} {capacity : Nat}

theorem decodeOne_jcc (harch : engine.target.arch = .x86) (j : X86.Jcc engine.config.mode)
    (rest : List Byte) :
    decodeOne tables engine (j.bytes ++ rest) address prior =
      .ok (applyOperandMetadata tables (j.inst rest address)) := by
  simp only [decodeOne, targetDecodeOne, harch, X86.decodeOne_jcc j harch, Except.map]

theorem relocateInst_jcc (harch : engine.target.arch = .x86) (j : X86.Jcc engine.config.mode)
    (rest : List Byte) :
    relocateInst engine (applyOperandMetadata tables (j.inst rest address)) relocatedAddress capacity =
      X86.relocateCond engine (j.inst rest address) relocatedAddress capacity := by
  rw [relocateInst_metadata, relocateInst]
  simp only [harch]
  rfl

theorem X86.HasWidth.arch (hw : X86.HasWidth engine w) : engine.target.arch = .x86 := by
  have harch := engine.mode_arch
  cases hw with
  | w16 hmode | w32 hmode | w64 hmode => rw [hmode] at harch; exact (Option.some.inj harch).symm

theorem X86.relocateCond_jumpsIf_iff (hw : X86.HasWidth engine w) (j : X86.Jcc engine.config.mode)
    (rest : List Byte)
    (hok : (X86.relocateCond engine (j.inst rest address) relocatedAddress capacity).status = .ok) :
    X86.JumpsIf w j.cc (j.target w address) relocatedAddress
        (X86.relocateCond engine (j.inst rest address) relocatedAddress capacity) ↔
      engine.config.mode ≠ .x86_16 := by
  rw [← X86.setWidth_jccTarget j rest address hw.le]
  rcases X86.relocateCond_of_ok hok with ⟨hfits, hout⟩ | ⟨hmode, hout⟩
  · rw [hout]
    refine ⟨fun h hmode => ?_, fun hmode => X86.jumpsIf_nearForm hw hmode hfits⟩
    cases hw with
    | w16 _ => exact X86.not_jumpsIf_nearForm h
    | w32 h32 => rw [h32] at hmode; cases hmode
    | w64 h64 => rw [h64] at hmode; cases hmode
  · rw [hout]
    refine ⟨fun _ h16 => ?_, fun _ => ?_⟩
    · rw [hmode] at h16
      cases h16
    cases hw with
    | w16 h16 => rw [h16] at hmode; cases hmode
    | w32 h32 => rw [h32] at hmode; cases hmode
    | w64 _ =>
      rw [BitVec.setWidth_eq]
      exact X86.jumpsIf_invertedForm

/-- A relocated conditional jump does what it did in 32-bit and 64-bit mode, and never in 16-bit
mode. -/
theorem relocateInst_jumpsIf_iff (hw : X86.HasWidth engine w) (j : X86.Jcc engine.config.mode)
    (rest : List Byte) (hdec : decodeOne tables engine (j.bytes ++ rest) address prior = .ok inst)
    (hok : (relocateInst engine inst relocatedAddress capacity).status = .ok) :
    X86.JumpsIf w j.cc (j.target w address) relocatedAddress
        (relocateInst engine inst relocatedAddress capacity) ↔
      engine.config.mode ≠ .x86_16 := by
  rw [decodeOne_jcc hw.arch] at hdec
  cases hdec
  rw [relocateInst_jcc hw.arch] at hok ⊢
  exact X86.relocateCond_jumpsIf_iff hw j rest hok

/-- `jne` to itself. -/
def jneSelf (mode : Mode) : X86.Jcc mode where
  prefixes := []
  cc := 5
  near := false
  disp := [0xfe]
  prefixes_ok := by simp
  disp_length := rfl
  length_le := by decide

/-- In 64-bit mode, moved out of reach. -/
theorem relocateInst_jumpsIf_iff_far :
    ∃ inst, decodeOne noTables x86Engine64 [0x75, 0xfe] 0x1000 x86Engine64.emptyInst = .ok inst ∧
      X86.JumpsIf 64 5 0x1000 0x7fff00000000 (relocateInst x86Engine64 inst 0x7fff00000000 16) := by
  have hdec := @decodeOne_jcc noTables x86Engine64 0x1000 x86Engine64.emptyInst rfl
    (jneSelf x86Engine64.config.mode) []
  exact ⟨_, hdec, (relocateInst_jumpsIf_iff (.w64 rfl) (jneSelf _) [] hdec (by decide)).2 (by decide)⟩

/-- In 16-bit mode, moved next door. -/
theorem relocateInst_not_jumpsIf :
    ∃ inst, decodeOne noTables x86Engine16 [0x75, 0xfe] 0x1000 x86Engine16.emptyInst = .ok inst ∧
      (relocateInst x86Engine16 inst 0x2000 6).status = .ok ∧
      ¬ X86.JumpsIf 16 5 0x1000 0x2000 (relocateInst x86Engine16 inst 0x2000 6) := by
  have hdec := @decodeOne_jcc noTables x86Engine16 0x1000 x86Engine16.emptyInst rfl
    (jneSelf x86Engine16.config.mode) []
  have hiff := @X86.relocateCond_jumpsIf_iff x86Engine16 16 0x1000 0x2000 6 (.w16 rfl)
    (jneSelf x86Engine16.config.mode) [] (by decide)
  refine ⟨_, hdec, by decide, ?_⟩
  rw [relocateInst_jcc rfl]
  exact fun h => absurd (hiff.1 h) (by decide)

end

end AsmKit
