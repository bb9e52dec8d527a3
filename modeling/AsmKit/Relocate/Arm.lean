import AsmKit.Arm.Branches
import AsmKit.Relocate.Metadata

/-!
# Relocating A32 branches

The branch is built anew from its class and its target, so only `b` and `bl` without a condition
come out as they went in.
-/

namespace AsmKit

open LittleEndian SignedField
open Isa.A32 (Cpu machine)

namespace Arm

/-! ## The branch words -/

/-- `bl`. -/
def links (w : BitVec 32) : Bool := w.getLsbD 24

/-- Where a branch word leads. -/
def branchTarget (w : BitVec 32) (address : BitVec 64) : BitVec 32 :=
  address.setWidth 32 + 8#32 + (field 24 0 w).signExtend 32 <<< 2

theorem isB_eq_isA32Branch (w : BitVec 32) : Isa.A32.isB w = isA32Branch w := by
  have hlt : (w >>> 28).toNat < 2 ^ 4 := by
    have hw := w.isLt
    rw [BitVec.toNat_ushiftRight, Nat.shiftRight_eq_div_pow]
    omega
  have hcond : (Isa.A32.cond w != 15) = (w >>> 28 != 0x0f) := by
    rw [Bool.eq_iff_iff, bne_iff_ne, bne_iff_ne, ne_eq, ne_eq, ← BitVec.toNat_inj,
      ← BitVec.toNat_inj, Isa.A32.cond, field, BitVec.toNat_setWidth, Nat.mod_eq_of_lt hlt]
    rfl
  rw [Isa.A32.isB, isA32Branch, hcond, Bool.and_comm]

theorem links_eq (w : BitVec 32) : links w = (w &&& 0x01000000 != 0) := by
  have htwo : (0x01000000 : BitVec 32) = BitVec.twoPow 32 24 := rfl
  rw [links, htwo, BitVec.and_twoPow]
  cases w.getLsbD 24 <;> rfl

theorem a32BranchDisp_eq (w : BitVec 32) :
    a32BranchDisp w = (field 24 0 w).signExtend 64 <<< 2 + 8 := by
  have hmask : w &&& 0x00ffffff = (field 24 0 w).setWidth 32 := and_mask_eq_setWidth_field 24 w
  have hsign := xor_sub_setWidth (w := 64) (m := 32) (field 24 0 w) (by omega) (by omega) (by omega)
  rw [a32BranchDisp, signExtend, hmask, BitVec.shiftLeft_eq_mul_twoPow]
  exact congrArg (· * 4 + 8) hsign

theorem setWidth_a32Target (w : BitVec 32) (address : BitVec 64) :
    (address + a32BranchDisp w).setWidth 32 = branchTarget w address := by
  have hdisp : (a32BranchDisp w).setWidth 32 = (field 24 0 w).signExtend 32 <<< 2 + 8#32 := by
    rw [a32BranchDisp_eq, ← setWidth_signExtend_shiftLeft (by omega : 32 ≤ 64)]
    exact setWidth_add_ofNat (by omega) _ 8
  rw [BitVec.setWidth_add _ _ (by omega : 32 ≤ 64), hdisp, branchTarget, BitVec.add_assoc,
    BitVec.add_comm (8#32)]

theorem a32Target_aligned (w : BitVec 32) {address : BitVec 64} (h : 4 ∣ address.toNat) :
    4 ∣ (address + a32BranchDisp w).toNat := by
  rw [a32BranchDisp_eq]
  exact dvd_add _ _ 2 (by omega) h
    (dvd_add _ _ 2 (by omega) (dvd_shiftLeft _ 2 (by omega)) (by decide))

/-! ## Decoding and relocating a branch word -/

section

variable {tables : Tables} {engine : Engine} {code : List Byte} {address relocatedAddress : BitVec 64}
  {inst : Inst} {capacity : Nat}

theorem genDecodeOne_branch (hmode : engine.config.mode = .armA32)
    (hbranch : Isa.A32.isB (load32le code) = true) (hlen : 4 ≤ code.length) :
    genDecodeOne tables engine code address =
      .ok (decodeA32Branch engine code address (load32le code)) := by
  rw [isB_eq_isA32Branch] at hbranch
  simp only [genDecodeOne, hmode, decodeA32, if_neg (Nat.not_lt.2 hlen), hbranch, if_true]

theorem mark_branch (w : BitVec 32) :
    markBlxTarget (markStateSwitch (decodeA32Branch engine code address w)) =
      decodeA32Branch engine code address w := by
  have hbranches : ∀ isCall : Bool, mnemonicId (if isCall then Id.bl else Id.b) ≠ Mnemonic.bx ∧
      mnemonicId (if isCall then Id.bl else Id.b) ≠ Mnemonic.blx := by decide
  have hmnemonic : (decodeA32Branch engine code address w).mnemonicId ≠ Mnemonic.bx ∧
      (decodeA32Branch engine code address w).mnemonicId ≠ Mnemonic.blx := hbranches _
  have hswitch : markStateSwitch (decodeA32Branch engine code address w) =
      decodeA32Branch engine code address w :=
    if_neg (not_or.2 hmnemonic)
  rw [hswitch]
  exact if_neg fun h => hmnemonic.2 h.1

theorem decodeOne_branch (hmode : engine.config.mode = .armA32)
    (hbranch : Isa.A32.isB (load32le code) = true)
    (hdec : decodeOne tables engine code address = .ok inst) :
    inst = decodeA32Branch engine code address (load32le code) := by
  have hlen : 4 ≤ code.length := by
    by_contra hshort
    simp only [decodeOne, genDecodeOne, hmode, decodeA32, if_pos (Nat.lt_of_not_le hshort)] at hdec
    cases hdec
  rw [decodeOne, genDecodeOne_branch hmode hbranch hlen] at hdec
  cases hdec
  exact mark_branch _

/-- The word of a branch that the relative form reaches. -/
def Reaches (w : BitVec 32) (address relocatedAddress : BitVec 64) : Bool :=
  i64FitsI24Words4 (relDispA32 relocatedAddress (address + a32BranchDisp w))

theorem relocate_branch (w : BitVec 32) :
    relocate engine (decodeA32Branch engine code address w) relocatedAddress capacity =
      relocateDirect engine (decodeA32Branch engine code address w) relocatedAddress capacity := by
  unfold relocate decodeA32Branch finish
  cases (w &&& 0x01000000 != 0) <;> simp

theorem relocateDirect_of_ok (hmode : engine.config.mode = .armA32) {w : BitVec 32}
    (h : (relocateDirect engine (decodeA32Branch engine code address w) relocatedAddress
      capacity).status = .ok) :
    relocateDirect engine (decodeA32Branch engine code address w) relocatedAddress capacity =
      if Reaches w address relocatedAddress then
        { status := .ok, result := { size := 4 }
          code := store32le (relWordA32 (links w)
            (relDispA32 relocatedAddress (address + a32BranchDisp w))) }
      else
        { status := .ok, result := absResultA32 (links w)
          code := absCodeA32 (links w) (address + a32BranchDisp w) } := by
  have hcall : ((decodeA32Branch engine code address w).instClass == .directCall) = links w := by
    rw [links_eq]
    unfold decodeA32Branch finish
    cases (w &&& 0x01000000 != 0) <;> rfl
  have htarget : (decodeA32Branch engine code address w).operand0.absTarget =
    address + a32BranchDisp w := rfl
  unfold relocateDirect at h ⊢
  simp only [hcall, htarget] at h ⊢
  by_cases hreach : Reaches w address relocatedAddress = true
  · have hrel : emitRel engine (links w) relocatedAddress (address + a32BranchDisp w) capacity =
        emitBytes { size := 4 } (store32le (relWordA32 (links w)
          (relDispA32 relocatedAddress (address + a32BranchDisp w)))) capacity := by
      rw [emitRel, if_pos hmode]
      exact if_pos hreach
    have hstatus : (emitRel engine (links w) relocatedAddress (address + a32BranchDisp w)
        capacity).status = .ok ∨ (emitRel engine (links w) relocatedAddress
          (address + a32BranchDisp w) capacity).status = .outputTooSmall ∨
        engine.config.mode ≠ .armA32 := by
      rw [hrel, emitBytes]
      split
      · exact .inr (.inl rfl)
      · exact .inl rfl
    rw [if_pos hstatus] at h ⊢
    rw [if_pos hreach, hrel]
    exact emitBytes_eq_of_ok (hrel ▸ h)
  · have hrel : emitRel engine (links w) relocatedAddress (address + a32BranchDisp w) capacity =
        { status := .branchOutOfRange, result := { size := 4 } } := by
      rw [emitRel, if_pos hmode]
      exact if_neg hreach
    have hstatus : ¬ ((emitRel engine (links w) relocatedAddress (address + a32BranchDisp w)
        capacity).status = .ok ∨ (emitRel engine (links w) relocatedAddress
          (address + a32BranchDisp w) capacity).status = .outputTooSmall ∨
        engine.config.mode ≠ .armA32) := by
      rw [hrel, hmode]
      simp
    rw [if_neg hstatus] at h ⊢
    rw [if_neg hreach]
    exact emitBytes_eq_of_ok h

end

/-! ## What a relocated branch does -/

/-- Where the condition of the branch holds the code leads to its target, elsewhere it falls
through and no register changes. -/
def BranchesAs (w : BitVec 32) (address relocatedAddress : BitVec 64) (out : EmitOut) : Prop :=
  machine.Runs (stop relocatedAddress out.code) (At false relocatedAddress out.code) fun s s' =>
    if s.nzcv.holds (Isa.A32.cond w) then s'.pc = branchTarget w address ∧ s'.thumb = false
    else s'.pc = stop relocatedAddress out.code ∧ s'.r = s.r

/-- A processor about to execute the code, with one value in all registers. -/
def cpuAt (address : BitVec 64) (nzcv : Isa.Nzcv) (code : List Byte) : Cpu :=
  { r := fun _ => address.setWidth 32, nzcv, pc := address.setWidth 32, thumb := false
    mem := store (fun _ => 0) (address.setWidth 32) code }

theorem cpuAt_at {code rest : List Byte} (address : BitVec 64) (nzcv : Isa.Nzcv)
    (h : (code ++ rest).length ≤ 2 ^ 32) :
    At false address code (cpuAt address nzcv (code ++ rest)) ∧
      Loaded (cpuAt address nzcv (code ++ rest)).mem (stop address code) rest := by
  have hload := loaded_store (fun _ => 0) (address.setWidth 32) (code ++ rest) h
  exact ⟨⟨rfl, rfl, hload.left⟩, hload.right⟩

theorem exists_not_holds : ∀ c : BitVec 4, c.toNat < 14 →
    ∃ n z carry v, (⟨n, z, carry, v⟩ : Isa.Nzcv).holds c = false := by decide

section

variable {w : BitVec 32} {address relocatedAddress : BitVec 64} {out : EmitOut}

/-- From every state that runs into the code its first instruction leads to the target. -/
def Leads (w : BitVec 32) (address relocatedAddress : BitVec 64) (out : EmitOut)
    (lr : Cpu → BitVec 32) : Prop :=
  ∀ s, At false relocatedAddress out.code s → ∃ t, Isa.A32.step s = some (.branch, t) ∧
    t.pc = branchTarget w address ∧ t.thumb = false ∧
    t.r = fun q => if q = 14#4 then lr s else s.r q

theorem branchesAs_of_always (hcond : Isa.A32.cond w = 14) {lr : Cpu → BitVec 32}
    (hleads : Leads w address relocatedAddress out lr) :
    BranchesAs w address relocatedAddress out := by
  apply Machine.Runs.of_branch
  intro (s : Cpu) hs
  obtain ⟨t, hstep, hpc, hthumb, -⟩ := hleads s hs
  have halways : s.nzcv.holds (Isa.A32.cond w) = true := by
    rw [hcond]
    exact s.nzcv.holds_always 14#4 (by decide)
  exact ⟨t, hstep, (if_pos halways).mpr ⟨hpc, hthumb⟩⟩

/-- A branch whose condition can fail is taken all the same. -/
theorem BranchesAs.falls_through (h : BranchesAs w address relocatedAddress out)
    (hcond : (Isa.A32.cond w).toNat < 14) (hlength : out.code.length ≤ 2 ^ 32)
    {lr : Cpu → BitVec 32} (hleads : Leads w address relocatedAddress out lr) :
    branchTarget w address = stop relocatedAddress out.code ∧
      ∃ s, lr s = relocatedAddress.setWidth 32 := by
  obtain ⟨n, z, carry, v, hfails⟩ := exists_not_holds _ hcond
  obtain ⟨hs, -⟩ := @cpuAt_at out.code [] relocatedAddress ⟨n, z, carry, v⟩ (by simpa using hlength)
  obtain ⟨t, hstep, hpc, -, hr⟩ := hleads _ hs
  obtain ⟨s', hl, hpost⟩ := h _ hs
  have hs' := (Machine.leaves_of_branch hstep).1 hl
  have hnot : ¬ (⟨n, z, carry, v⟩ : Isa.Nzcv).holds (Isa.A32.cond w) = true := by simp [hfails]
  obtain ⟨hstop, hkept⟩ := (if_neg hnot).mp hpost
  rw [hs', hpc] at hstop
  rw [hs', hr] at hkept
  exact ⟨hstop, _, congrFun hkept 14#4⟩

/-! ## The emitted forms -/

theorem leads_relWordA32 (hreach : Reaches w address relocatedAddress = true) (status : Status)
    (result : EmitResult) :
    Leads w address relocatedAddress
      ⟨status, result, store32le (relWordA32 (links w)
        (relDispA32 relocatedAddress (address + a32BranchDisp w)))⟩
      fun s => if links w then relocatedAddress.setWidth 32 + 4#32 else s.r 14#4 := by
  intro s hs
  refine ⟨_, step_relWordA32 hreach hs, setWidth_a32Target w address, ?_, ?_⟩
  · cases links w <;> exact hs.2.1
  · funext q
    cases links w
    · by_cases hq : q = 14#4 <;> simp [hq]
    · rfl

theorem leads_absCodeA32 (haddress : 4 ∣ address.toNat) (hrelocated : 4 ∣ relocatedAddress.toNat)
    (status : Status) (result : EmitResult) :
    Leads w address relocatedAddress
      ⟨status, result, absCodeA32 false (address + a32BranchDisp w)⟩ fun s => s.r 14#4 := by
  intro s hs
  refine ⟨_, step_absJump hrelocated (a32Target_aligned w haddress) hs,
    setWidth_a32Target w address, rfl, ?_⟩
  funext q
  by_cases hq : q = 14#4 <;> simp [hq]

/-- A call through an inlined address takes the address from behind the code, and it is made
whatever the flags are. -/
theorem not_branchesAs_absCodeA32 (haddress : 4 ∣ address.toNat)
    (hrelocated : 4 ∣ relocatedAddress.toNat) (status : Status) (result : EmitResult) :
    ¬ BranchesAs w address relocatedAddress
      ⟨status, result, absCodeA32 true (address + a32BranchDisp w)⟩ := by
  intro h
  have haligned : 2 ^ 2 ∣ (branchTarget w address + 4#32).toNat := by
    rw [← setWidth_a32Target]
    exact dvd_add _ _ 2 (by omega)
      (dvd_setWidth _ 2 (by omega) (a32Target_aligned w haddress)) (by decide)
  obtain ⟨hs, hrest⟩ := @cpuAt_at (absCodeA32 true (address + a32BranchDisp w))
    (store32le (branchTarget w address + 4#32)) relocatedAddress ⟨false, false, false, false⟩
    (by simp [absResultA32])
  obtain ⟨t, hleaves, hpc, hlr⟩ :=
    leaves_absCall hrelocated hs hrest ((and_mask_eq_zero_iff _ 2 (by omega)).2 haligned)
  have hpost := Machine.Runs.post_of_leaves h hs hleaves
  by_cases hholds : (⟨false, false, false, false⟩ : Isa.Nzcv).holds (Isa.A32.cond w) = true
  · have htarget := ((if_pos hholds).mp hpost).1
    rw [hpc] at htarget
    exact absurd (BitVec.add_right_eq_self.1 htarget) (by decide)
  · have hkept := congrFun ((if_neg hholds).mp hpost).2 14#4
    rw [hlr] at hkept
    exact absurd (BitVec.add_right_eq_self.1 hkept) (by decide)

end

/-- What a relocated branch needs to do its work: a jump that is always taken, or that leads behind
the code in any case; a call that is always made and is in reach. -/
def KeepsBranch (w : BitVec 32) (address relocatedAddress : BitVec 64) : Prop :=
  if links w then Isa.A32.cond w = 14 ∧ Reaches w address relocatedAddress = true
  else Isa.A32.cond w = 14 ∨ branchTarget w address =
    relocatedAddress.setWidth 32 + if Reaches w address relocatedAddress then 4#32 else 8#32

instance (w : BitVec 32) (address relocatedAddress : BitVec 64) :
    Decidable (KeepsBranch w address relocatedAddress) :=
  inferInstanceAs (Decidable (ite _ _ _))

section

variable {w : BitVec 32} {address relocatedAddress : BitVec 64} {out : EmitOut}

theorem cond_lt (hbranch : Isa.A32.isB w = true) (hcond : Isa.A32.cond w ≠ 14) :
    (Isa.A32.cond w).toNat < 14 := by
  have hne : Isa.A32.cond w ≠ 15 := by
    rw [Isa.A32.isB, Bool.and_eq_true, bne_iff_ne] at hbranch
    exact hbranch.2
  have hlt := (Isa.A32.cond w).isLt
  have h14 : (Isa.A32.cond w).toNat ≠ 14 := fun h => hcond (BitVec.eq_of_toNat_eq h)
  have h15 : (Isa.A32.cond w).toNat ≠ 15 := fun h => hne (BitVec.eq_of_toNat_eq h)
  omega

theorem branchesAs_jump_iff (hbranch : Isa.A32.isB w = true) (hlength : out.code.length ≤ 2 ^ 32)
    (hleads : Leads w address relocatedAddress out fun s => s.r 14#4) :
    BranchesAs w address relocatedAddress out ↔
      Isa.A32.cond w = 14 ∨ branchTarget w address = stop relocatedAddress out.code := by
  constructor
  · intro h
    by_cases hcond : Isa.A32.cond w = 14
    · exact .inl hcond
    · exact .inr (h.falls_through (cond_lt hbranch hcond) hlength hleads).1
  · rintro (hcond | htarget)
    · exact branchesAs_of_always hcond hleads
    · apply Machine.Runs.of_branch
      intro (s : Cpu) hs
      obtain ⟨t, hstep, hpc, hthumb, hr⟩ := hleads s hs
      have hkept : t.r = s.r := by
        rw [hr]
        funext q
        by_cases hq : q = 14#4 <;> simp [hq]
      refine ⟨t, hstep, ?_⟩
      split
      · exact ⟨hpc, hthumb⟩
      · exact ⟨hpc.trans htarget, hkept⟩

theorem branchesAs_call_iff (hbranch : Isa.A32.isB w = true) (hlength : out.code.length ≤ 2 ^ 32)
    (hleads : Leads w address relocatedAddress out fun _ => relocatedAddress.setWidth 32 + 4#32) :
    BranchesAs w address relocatedAddress out ↔ Isa.A32.cond w = 14 := by
  constructor
  · intro h
    by_contra hcond
    obtain ⟨-, -, hlr⟩ := h.falls_through (cond_lt hbranch hcond) hlength hleads
    exact absurd (BitVec.add_right_eq_self.1 hlr) (by decide)
  · intro hcond
    exact branchesAs_of_always hcond hleads

theorem relocateDirect_branchesAs_iff {engine : Engine} {code : List Byte} {capacity : Nat}
    (hmode : engine.config.mode = .armA32) (hbranch : Isa.A32.isB w = true)
    (haddress : 4 ∣ address.toNat) (hrelocated : 4 ∣ relocatedAddress.toNat)
    (hok : (relocateDirect engine (decodeA32Branch engine code address w) relocatedAddress
      capacity).status = .ok) :
    BranchesAs w address relocatedAddress
        (relocateDirect engine (decodeA32Branch engine code address w) relocatedAddress capacity) ↔
      KeepsBranch w address relocatedAddress := by
  rw [relocateDirect_of_ok hmode hok, KeepsBranch]
  cases hlinks : links w with
  | false =>
    by_cases hreach : Reaches w address relocatedAddress = true
    · have hleads := leads_relWordA32 hreach .ok { size := 4 }
      simp only [hlinks, Bool.false_eq_true, if_false] at hleads
      simpa [hreach, stop] using branchesAs_jump_iff hbranch (by simp) hleads
    · have hleads := leads_absCodeA32 (w := w) haddress hrelocated .ok (absResultA32 false)
      simpa [hreach, stop, absResultA32] using
        branchesAs_jump_iff hbranch (by simp [absResultA32]) hleads
  | true =>
    by_cases hreach : Reaches w address relocatedAddress = true
    · have hleads := leads_relWordA32 hreach .ok { size := 4 }
      simp only [hlinks, if_true] at hleads
      simpa [hreach] using branchesAs_call_iff hbranch (by simp) hleads
    · simpa [hreach] using
        not_branchesAs_absCodeA32 (w := w) haddress hrelocated .ok (absResultA32 true)

end

end Arm

/-! ## `asmkit_relocate_inst` on A32 branches -/

section

variable {tables : Tables} {engine : Engine} {code : List Byte} {address relocatedAddress : BitVec 64}
  {prior inst : Inst} {capacity : Nat}

theorem Engine.arch_of_armA32 (hmode : engine.config.mode = .armA32) : engine.target.arch = .arm := by
  have harch := engine.mode_arch
  rw [hmode] at harch
  exact (Option.some.inj harch).symm

theorem decodeOne_a32Branch (hmode : engine.config.mode = .armA32) (hlen : 4 ≤ code.length)
    (hbranch : Isa.A32.isB (load32le code) = true) :
    decodeOne tables engine code address prior = .ok (applyOperandMetadata tables
      (Arm.decodeA32Branch engine code address (load32le code))) := by
  simp only [decodeOne, targetDecodeOne, Engine.arch_of_armA32 hmode, Arm.decodeOne,
    Arm.genDecodeOne_branch hmode hbranch hlen, Except.map, Arm.mark_branch]

theorem relocateInst_a32Branch (hmode : engine.config.mode = .armA32) (w : BitVec 32) :
    relocateInst engine (applyOperandMetadata tables (Arm.decodeA32Branch engine code address w))
        relocatedAddress capacity =
      Arm.relocateDirect engine (Arm.decodeA32Branch engine code address w) relocatedAddress
        capacity := by
  simp only [relocateInst, Engine.arch_of_armA32 hmode, Arm.relocate_metadata, Arm.relocate_branch]

/-- A relocated branch does what it did exactly when it is always taken and its call is in reach,
but for a jump to the end of the code. -/
theorem relocateInst_branchesAs_iff (hmode : engine.config.mode = .armA32)
    (hbranch : Isa.A32.isB (load32le code) = true) (haddress : 4 ∣ address.toNat)
    (hrelocated : 4 ∣ relocatedAddress.toNat)
    (hdec : decodeOne tables engine code address prior = .ok inst)
    (hok : (relocateInst engine inst relocatedAddress capacity).status = .ok) :
    Arm.BranchesAs (load32le code) address relocatedAddress
        (relocateInst engine inst relocatedAddress capacity) ↔
      Arm.KeepsBranch (load32le code) address relocatedAddress := by
  obtain ⟨inst0, htarget, rfl⟩ := decodeOne_eq_ok hdec
  simp only [targetDecodeOne, Engine.arch_of_armA32 hmode] at htarget
  have hinst := Arm.decodeOne_branch hmode hbranch htarget
  subst hinst
  rw [relocateInst_a32Branch hmode] at hok ⊢
  exact Arm.relocateDirect_branchesAs_iff hmode hbranch haddress hrelocated hok

/-- `b` to itself at `0x1000`, moved out of range. -/
theorem relocateInst_branchesAs_iff_far :
    ∃ inst, decodeOne noTables armEngineA32 (store32le 0xeafffffe) 0x1000 armEngineA32.emptyInst =
        .ok inst ∧
      Arm.BranchesAs 0xeafffffe 0x1000 0x10000000
        (relocateInst armEngineA32 inst 0x10000000 8) := by
  have hdec := @decodeOne_a32Branch noTables armEngineA32 (store32le 0xeafffffe) 0x1000
    armEngineA32.emptyInst rfl (by decide) (by decide)
  have hiff := @relocateInst_branchesAs_iff noTables armEngineA32 _ 0x1000 0x10000000 _ _ 8 rfl
    (by decide) (by decide) (by decide) hdec (by decide)
  exact ⟨_, hdec, hiff.2 (by decide)⟩

/-- `beq` at `0x1000` is taken whatever the flags are once it is moved. -/
theorem relocateInst_not_branchesAs :
    ∃ inst, decodeOne noTables armEngineA32 (store32le 0x0a000000) 0x1000 armEngineA32.emptyInst =
        .ok inst ∧
      (relocateInst armEngineA32 inst 0x2000 4).status = .ok ∧
      ¬ Arm.BranchesAs 0x0a000000 0x1000 0x2000 (relocateInst armEngineA32 inst 0x2000 4) := by
  have hdec := @decodeOne_a32Branch noTables armEngineA32 (store32le 0x0a000000) 0x1000
    armEngineA32.emptyInst rfl (by decide) (by decide)
  have hiff := @Arm.relocateDirect_branchesAs_iff (load32le (store32le 0x0a000000)) 0x1000 0x2000
    armEngineA32 (store32le 0x0a000000) 4 rfl (by decide) (by decide) (by decide) (by decide)
  refine ⟨_, hdec, by decide, ?_⟩
  rw [relocateInst_a32Branch rfl]
  exact fun h => absurd (hiff.1 h) (by decide)

end

end AsmKit
