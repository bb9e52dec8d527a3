import AsmKit.Arm.Emit
import AsmKit.Encode.Spec

/-!
# What the emitted A32 and Thumb branches do
-/

namespace AsmKit.Arm

open LittleEndian SignedField
open Isa.A32 (Cpu Insn decode machine)

variable {engine : Engine} {isCall : Bool} {fromAddress toAddress : BitVec 64}

/-! ## The A32 branch -/

theorem relWordA32_eq_setField (isCall : Bool) (disp : BitVec 64) :
    relWordA32 isCall disp =
      setField 24 0 (if isCall then 0xeb000000 else 0xea000000) ((disp.sshiftRight 2).setWidth 32) := by
  rw [← or_and_mask_eq_setField _ _ _ _ (by cases isCall <;> rfl), BitVec.shiftLeft_zero]
  rfl

theorem cond_relWordA32 (isCall : Bool) (disp : BitVec 64) :
    Isa.A32.cond (relWordA32 isCall disp) = 14 := by
  rw [relWordA32_eq_setField, Isa.A32.cond, field_setField_of_disjoint _ _ _ _ (by omega) (by omega)]
  cases isCall <;> rfl

theorem isB_relWordA32 (isCall : Bool) (disp : BitVec 64) :
    Isa.A32.isB (relWordA32 isCall disp) = true := by
  rw [Isa.A32.isB, cond_relWordA32, relWordA32_eq_setField, setField_and _ _ _ _ _ (by rfl)]
  cases isCall <;> rfl

theorem field_relWordA32 (isCall : Bool) (disp : BitVec 64) :
    field 24 0 (relWordA32 isCall disp) = (disp.sshiftRight 2).setWidth 24 := by
  rw [relWordA32_eq_setField, field_setField _ _ _ _ (by omega),
    BitVec.setWidth_setWidth_of_le _ (by omega)]

theorem decode_relWordA32 (isCall : Bool) (disp : BitVec 64) :
    decode (relWordA32 isCall disp) = some (.b 14 isCall ((disp.sshiftRight 2).setWidth 24)) := by
  have hlink : (relWordA32 isCall disp).getLsbD 24 = isCall := by
    rw [relWordA32_eq_setField, setField_getLsbD _ _ _ _ _ (by omega), if_neg (by omega)]
    cases isCall <;> rfl
  rw [decode, if_pos (isB_relWordA32 isCall disp), cond_relWordA32, hlink, field_relWordA32]

theorem target_of_fitsA32 (hfits : i64FitsI24Words4 (relDispA32 fromAddress toAddress) = true) :
    fromAddress.setWidth 32 + 8#32 +
      (((relDispA32 fromAddress toAddress).sshiftRight 2).setWidth 24).signExtend 32 <<< 2 =
      toAddress.setWidth 32 := by
  obtain ⟨hdvd, hfit⟩ := (i64FitsI24Words4_iff _).1 hfits
  have hfield := scaled_field_round_trip (w := 64) _ (by omega) (by omega) (by omega) hdvd hfit
  rw [← setWidth_signExtend_shiftLeft (w := 64) (by omega), hfield, relDispA32]
  have hbase : (fromAddress + 8).setWidth 32 = fromAddress.setWidth 32 + 8#32 :=
    setWidth_add_ofNat (by omega) fromAddress 8
  rw [← hbase, setWidth_add_sub (by omega)]

theorem step_relWordA32 (hfits : i64FitsI24Words4 (relDispA32 fromAddress toAddress) = true)
    {s : Cpu} (hs : At false fromAddress
      (store32le (relWordA32 isCall (relDispA32 fromAddress toAddress))) s) :
    Isa.A32.step s = some (.branch,
      { (if isCall then s.set 14#4 (fromAddress.setWidth 32 + 4) else s) with
        pc := toAddress.setWidth 32 }) := by
  obtain ⟨hpc, ha32, hload⟩ := hs
  rw [store32le_eq] at hload
  rw [Isa.A32.step_of_loaded ha32 hload (decode_relWordA32 _ _)]
  have halways : s.nzcv.holds 14#4 = true := s.nzcv.holds_always 14#4 (by decide)
  simp [Isa.A32.exec, Insn.condition, halways, Isa.A32.perform, Cpu.readPc, ha32, hpc,
    target_of_fitsA32 hfits]

/-! ## The Thumb branch -/

theorem relWordThumb_eq_setField (disp : BitVec 64) :
    relWordThumb disp = setField 11 0 0xe000 ((disp.sshiftRight 1).setWidth 16) := by
  rw [← or_and_mask_eq_setField _ _ _ _ (by rfl), BitVec.shiftLeft_zero]
  rfl

theorem relWordThumb_and (disp : BitVec 64) : relWordThumb disp &&& 0xf800 = 0xe000 := by
  rw [relWordThumb_eq_setField, setField_and _ _ _ _ _ (by rfl)]
  rfl

theorem field_relWordThumb (disp : BitVec 64) :
    field 11 0 (relWordThumb disp) = (disp.sshiftRight 1).setWidth 11 := by
  rw [relWordThumb_eq_setField, field_setField _ _ _ _ (by omega),
    BitVec.setWidth_setWidth_of_le _ (by omega)]

theorem decode_relWordThumb (disp : BitVec 64) :
    Isa.A32.decodeThumb (relWordThumb disp) = some (.thumbB ((disp.sshiftRight 1).setWidth 11)) := by
  rw [Isa.A32.decodeThumb, if_pos (beq_iff_eq.2 (relWordThumb_and disp)), field_relWordThumb]

theorem fitsThumb_iff (disp : BitVec 64) :
    fitsThumb disp = true ↔ (2 ^ 1 : Int) ∣ disp.toInt ∧ Fits 11 (disp.toInt / 2 ^ 1) := by
  have heven : (disp &&& 1 == 0) = true ↔ (2 ^ 1 : Int) ∣ disp.toInt := by
    rw [beq_iff_eq, dvd_toInt_iff_toNat disp 1 (by omega), ← and_mask_eq_zero_iff disp 1 (by omega)]
    rfl
  simp only [fitsThumb, Fits, Bool.and_eq_true, heven, decide_eq_true_eq]
  omega

theorem target_of_fitsThumb (hfits : fitsThumb (relDispThumb fromAddress toAddress) = true) :
    fromAddress.setWidth 32 + 4#32 +
      (((relDispThumb fromAddress toAddress).sshiftRight 1).setWidth 11).signExtend 32 <<< 1 =
      toAddress.setWidth 32 := by
  obtain ⟨hdvd, hfit⟩ := (fitsThumb_iff _).1 hfits
  have hfield := scaled_field_round_trip (w := 64) _ (by omega) (by omega) (by omega) hdvd hfit
  rw [← setWidth_signExtend_shiftLeft (w := 64) (by omega), hfield, relDispThumb]
  have hbase : (fromAddress + 4).setWidth 32 = fromAddress.setWidth 32 + 4#32 :=
    setWidth_add_ofNat (by omega) fromAddress 4
  rw [← hbase, setWidth_add_sub (by omega)]

theorem step_relWordThumb (hfits : fitsThumb (relDispThumb fromAddress toAddress) = true) {s : Cpu}
    (hs : At true fromAddress (store16le (relWordThumb (relDispThumb fromAddress toAddress))) s) :
    Isa.A32.step s = some (.branch, { s with pc := toAddress.setWidth 32 }) := by
  obtain ⟨hpc, hthumb, hload⟩ := hs
  rw [store16le_eq] at hload
  rw [Isa.A32.step_of_loaded_thumb hthumb hload (decode_relWordThumb _)]
  have halways : s.nzcv.holds 14#4 = true := s.nzcv.holds_always 14#4 (by decide)
  simp [Isa.A32.exec, Insn.condition, halways, Isa.A32.perform, Cpu.readPc, hthumb, hpc,
    target_of_fitsThumb hfits]

/-! ## The absolute forms -/

theorem literalBase_of_aligned {s : Cpu} (ha32 : s.thumb = false) (halign : 4 ∣ s.pc.toNat) :
    s.literalBase = s.pc + 8#32 := by
  have hdvd : 2 ^ 2 ∣ (s.pc + 8#32).toNat := by
    rw [BitVec.toNat_add]
    exact (Nat.dvd_mod_iff (by decide)).2 (Nat.dvd_add halign (by decide))
  simp only [Cpu.literalBase, Cpu.readPc, ha32, Bool.false_eq_true, if_false]
  exact and_not_mask_of_dvd _ 2 (by omega) hdvd

theorem step_absJump (hfrom : 4 ∣ fromAddress.toNat) (hto : 4 ∣ toAddress.toNat) {s : Cpu}
    (hs : At false fromAddress (absCodeA32 false toAddress) s) :
    Isa.A32.step s = some (.branch, { s with pc := toAddress.setWidth 32, thumb := false }) := by
  obtain ⟨hpc, ha32, hload⟩ := hs
  have hsplit : absCodeA32 false toAddress =
    store32le 0xe51ff004 ++ store32le (toAddress.setWidth 32) := rfl
  rw [hsplit] at hload
  have hliteral : readWord 32 s.mem (s.pc + 4#32) 4 = toAddress.setWidth 32 := by
    have hlast := hload.right
    rw [store32le_length, store32le_eq] at hlast
    exact hlast.readWord_eq (by omega)
  have hbase : s.literalBase = s.pc + 8#32 := by
    refine literalBase_of_aligned ha32 ?_
    rw [hpc]
    exact dvd_setWidth fromAddress 2 (by omega) hfrom
  have haddress : s.pc + 8#32 - 4#32 = s.pc + 4#32 := by
    rw [BitVec.sub_eq_iff_eq_add, BitVec.add_assoc]
    rfl
  have hwrite : s.writePc (toAddress.setWidth 32) =
      some { s with pc := toAddress.setWidth 32, thumb := false } :=
    Isa.A32.writePc_of_aligned s _
      ((and_mask_eq_zero_iff _ 2 (by omega)).2 (dvd_setWidth toAddress 2 (by omega) hto))
  have hfirst := hload.left
  rw [store32le_eq] at hfirst
  rw [Isa.A32.step_of_loaded ha32 hfirst (i := .ldrLit 14#4 false 15#4 4#12) (by decide)]
  have halways : s.nzcv.holds 14#4 = true := s.nzcv.holds_always 14#4 (by decide)
  simp [Isa.A32.exec, Insn.condition, halways, Isa.A32.perform, hbase, haddress, hliteral, hwrite]

/-- The call's load takes whatever lies behind the emitted bytes. -/
theorem step_absCall {s : Cpu} (hs : At false fromAddress (absCodeA32 true toAddress) s) :
    Isa.A32.step s = some (.next,
      (s.set 12#4 (readWord 32 s.mem (s.literalBase + 4#32) 4)).skip) := by
  obtain ⟨-, ha32, hload⟩ := hs
  have hsplit : absCodeA32 true toAddress =
    store32le 0xe59fc004 ++ (store32le 0xe12fff3c ++ store32le (toAddress.setWidth 32)) :=
    List.append_assoc _ _ _
  rw [hsplit] at hload
  have hfirst := hload.left
  rw [store32le_eq] at hfirst
  rw [Isa.A32.step_of_loaded ha32 hfirst (i := .ldrLit 14#4 true 12#4 4#12) (by decide)]
  have halways : s.nzcv.holds 14#4 = true := s.nzcv.holds_always 14#4 (by decide)
  simp [Isa.A32.exec, Insn.condition, halways, Isa.A32.perform]

theorem step_absCall_skip {s : Cpu} (hs : At false fromAddress (absCodeA32 true toAddress) s)
    (v : BitVec 32) :
    (s.set 12#4 v).skip.pc = fromAddress.setWidth 32 + 4#32 ∧
      Isa.A32.step (s.set 12#4 v).skip = Isa.A32.exec (s.set 12#4 v).skip (.blx 14#4 12#4) := by
  obtain ⟨hpc, ha32, hload⟩ := hs
  have hsplit : absCodeA32 true toAddress =
    store32le 0xe59fc004 ++ (store32le 0xe12fff3c ++ store32le (toAddress.setWidth 32)) :=
    List.append_assoc _ _ _
  rw [hsplit] at hload
  have hsecond := hload.right.left
  rw [store32le_length, store32le_eq] at hsecond
  have hpc' : (s.set 12#4 v).skip.pc = s.pc + 4#32 := Isa.A32.skip_pc ha32
  have hload' : Loaded (s.set 12#4 v).skip.mem (s.set 12#4 v).skip.pc (bytesOf 4 0xe12fff3c#32) := by
    rw [hpc']
    exact hsecond
  exact ⟨hpc'.trans (by rw [hpc]), Isa.A32.step_of_loaded ha32 hload' (by decide)⟩

theorem step_absCall_blx {s t : Cpu} {v : BitVec 32} {f : StepEnd}
    (hs : At false fromAddress (absCodeA32 true toAddress) s)
    (hstep : Isa.A32.step (s.set 12#4 v).skip = some (f, t)) :
    f = .branch ∧ t.r 14#4 = fromAddress.setWidth 32 + 8#32 := by
  obtain ⟨hpc, hexec⟩ := step_absCall_skip hs v
  rw [hexec] at hstep
  have hlinks := Isa.A32.exec_blx_links hstep
  rw [hpc, BitVec.add_assoc] at hlinks
  exact hlinks

theorem step_absCall_blx_pc {s : Cpu} {v : BitVec 32}
    (hs : At false fromAddress (absCodeA32 true toAddress) s) (hv : v &&& 3#32 = 0#32) :
    ∃ t, Isa.A32.step (s.set 12#4 v).skip = some (.branch, t) ∧ t.pc = v := by
  obtain ⟨-, hexec⟩ := step_absCall_skip hs v
  have halways : s.nzcv.holds 14#4 = true := s.nzcv.holds_always 14#4 (by decide)
  have hget : (s.set 12#4 v).skip.get 12#4 = v := by simp [Cpu.get]
  rw [hexec]
  simp only [Isa.A32.exec, Insn.condition, Isa.A32.skip_nzcv, Isa.A32.set_nzcv, halways, if_true,
    Isa.A32.perform, hget, Isa.A32.writePc_of_aligned _ v hv, Option.map_some]
  exact ⟨_, rfl, rfl⟩

theorem leaves_absCall {s : Cpu} {v : BitVec 32} (hfrom : 4 ∣ fromAddress.toNat)
    (hs : At false fromAddress (absCodeA32 true toAddress) s)
    (hrest : Loaded s.mem (stop fromAddress (absCodeA32 true toAddress)) (store32le v))
    (hv : v &&& 3#32 = 0#32) :
    ∃ t, machine.Leaves (stop fromAddress (absCodeA32 true toAddress)) s t ∧ t.pc = v ∧
      t.r 14#4 = fromAddress.setWidth 32 + 8#32 := by
  rw [store32le_eq] at hrest
  have haligned : 4 ∣ s.pc.toNat := by
    rw [hs.1]
    exact dvd_setWidth fromAddress 2 (by omega) hfrom
  have hliteral : s.literalBase + 4#32 = stop fromAddress (absCodeA32 true toAddress) := by
    rw [literalBase_of_aligned hs.2.1 haligned, hs.1, BitVec.add_assoc, stop, absCodeA32_length]
    rfl
  have hfirst := step_absCall hs
  rw [hliteral, hrest.readWord_eq (Nat.le_refl 32)] at hfirst
  have hne : (s.set 12#4 v).skip.pc ≠ stop fromAddress (absCodeA32 true toAddress) := by
    rw [(step_absCall_skip hs v).1, stop, absCodeA32_length, ne_eq, BitVec.add_right_inj]
    decide
  obtain ⟨t, hsecond, hpc⟩ := step_absCall_blx_pc hs hv
  exact ⟨t, .next hfirst hne (.branch hsecond), hpc, (step_absCall_blx hs hsecond).2⟩

/-! ## Jumps and calls -/

theorem jumpsTo_relWordA32 (hfits : i64FitsI24Words4 (relDispA32 fromAddress toAddress) = true)
    (status : Status) (result : EmitResult) :
    JumpsTo false fromAddress toAddress
      ⟨status, result, store32le (relWordA32 false (relDispA32 fromAddress toAddress))⟩ := by
  apply Machine.Runs.of_branch
  intro s hs
  exact ⟨_, step_relWordA32 hfits hs, rfl, hs.2.1, fun _ _ => rfl⟩

theorem jumpsTo_relWordThumb (hfits : fitsThumb (relDispThumb fromAddress toAddress) = true)
    (status : Status) (result : EmitResult) :
    JumpsTo true fromAddress toAddress
      ⟨status, result, store16le (relWordThumb (relDispThumb fromAddress toAddress))⟩ := by
  apply Machine.Runs.of_branch
  intro s hs
  exact ⟨_, step_relWordThumb hfits hs, rfl, hs.2.1, fun _ _ => rfl⟩

theorem jumpsTo_absCodeA32 (hfrom : 4 ∣ fromAddress.toNat) (hto : 4 ∣ toAddress.toNat)
    (status : Status) (result : EmitResult) :
    JumpsTo false fromAddress toAddress ⟨status, result, absCodeA32 false toAddress⟩ := by
  apply Machine.Runs.of_branch
  intro s hs
  exact ⟨_, step_absJump hfrom hto hs, rfl, rfl, fun _ _ => rfl⟩

theorem callsTo_relWordA32 (hfits : i64FitsI24Words4 (relDispA32 fromAddress toAddress) = true)
    (status : Status) (result : EmitResult) :
    CallsTo false fromAddress toAddress
      ⟨status, result, store32le (relWordA32 true (relDispA32 fromAddress toAddress))⟩ := by
  apply Machine.Runs.of_branch
  intro (s : Cpu) hs
  refine ⟨_, step_relWordA32 hfits hs, rfl, hs.2.1, ?_⟩
  simp [stop]

/-- A call through an inlined address, if it gets anywhere, returns into that address. -/
theorem not_callsTo_absCodeA32 (status : Status) (result : EmitResult) :
    ¬ CallsTo false fromAddress toAddress ⟨status, result, absCodeA32 true toAddress⟩ := by
  intro h
  let s : Cpu :=
    { r := fun _ => 0, nzcv := ⟨false, false, false, false⟩, pc := fromAddress.setWidth 32
      thumb := false, mem := store (fun _ => 0) (fromAddress.setWidth 32) (absCodeA32 true toAddress) }
  have hs : At false fromAddress (absCodeA32 true toAddress) s :=
    ⟨rfl, rfl, loaded_store _ _ _ (by simp [absResultA32])⟩
  have hne : ∀ v, (s.set 12#4 v).skip.pc ≠ stop fromAddress (absCodeA32 true toAddress) := by
    intro v
    rw [Isa.A32.skip_pc rfl, stop, absCodeA32_length, Isa.A32.set_pc, ne_eq, BitVec.add_right_inj]
    decide
  obtain ⟨s', hl, -, -, hlr⟩ := h s hs
  have hrest := (Machine.leaves_of_next (step_absCall hs) (hne _)).1 hl
  obtain ⟨f, t, hstep, hleft⟩ := hrest.first
  obtain ⟨hbranch, hlink⟩ := step_absCall_blx hs hstep
  rw [hleft hbranch] at hlink
  have heq : fromAddress.setWidth 32 + 8#32 = stop fromAddress (absCodeA32 true toAddress) :=
    hlink.symm.trans hlr
  rw [stop, absCodeA32_length, BitVec.add_right_inj] at heq
  exact absurd heq (by decide)

end AsmKit.Arm
