import AsmKit.A64.Emit
import AsmKit.Encode.Spec

/-!
# What the emitted A64 branches do
-/

namespace AsmKit.A64

open LittleEndian SignedField
open Isa.A64 (Cpu Insn decode machine scaled)

variable {isCall : Bool} {fromAddress toAddress : BitVec 64}

/-! ## The relative form -/

theorem relWord_eq_setField (isCall : Bool) (disp : BitVec 64) :
    relWord isCall disp =
      setField 26 0 (if isCall then 0x94000000 else 0x14000000) ((disp.sshiftRight 2).setWidth 32) := by
  rw [← or_and_mask_eq_setField _ _ _ _ (by cases isCall <;> rfl), BitVec.shiftLeft_zero]
  rfl

theorem decode_relWord (isCall : Bool) (disp : BitVec 64) :
    decode (relWord isCall disp) = some (.b isCall ((disp.sshiftRight 2).setWidth 26)) := by
  have hisB : Isa.A64.isB (relWord isCall disp) = true := by
    rw [relWord_eq_setField, Isa.A64.isB, setField_and _ _ _ _ _ (by rfl)]
    cases isCall <;> rfl
  have hlink : (relWord isCall disp).getLsbD 31 = isCall := by
    rw [relWord_eq_setField, setField_getLsbD _ _ _ _ _ (by omega), if_neg (by omega)]
    cases isCall <;> rfl
  have hoff : Isa.A64.off26 (relWord isCall disp) = (disp.sshiftRight 2).setWidth 26 := by
    rw [relWord_eq_setField, Isa.A64.off26, field_setField _ _ _ _ (by omega),
      BitVec.setWidth_setWidth_of_le _ (by omega)]
  rw [decode, if_pos hisB, hlink, hoff]

theorem scaled_of_fits {disp : BitVec 64} (hfits : i64FitsI26Words4 disp = true) :
    scaled ((disp.sshiftRight 2).setWidth 26) = disp := by
  obtain ⟨hdvd, hfit⟩ := (i64FitsI26Words4_iff disp).1 hfits
  exact scaled_field_round_trip disp (by omega) (by omega) (by omega) hdvd hfit

theorem step_relWord (hfits : i64FitsI26Words4 (relDisp fromAddress toAddress) = true) {s : Cpu}
    (hs : At fromAddress (store32le (relWord isCall (relDisp fromAddress toAddress))) s) :
    Isa.A64.step s = some (.branch, { (if isCall then s.set 30#5 (fromAddress + 4) else s) with
      pc := toAddress }) := by
  obtain ⟨hpc, hload⟩ := hs
  rw [store32le_eq] at hload
  have htarget : fromAddress + relDisp fromAddress toAddress = toAddress := by
    rw [relDisp, BitVec.add_comm, BitVec.sub_add_cancel]
  rw [Isa.A64.step_of_loaded hload (decode_relWord _ _)]
  simp [Isa.A64.exec, Insn.taken, Insn.links, Insn.target, scaled_of_fits hfits, hpc, htarget]

/-! ## The absolute form -/

theorem step_absCode {s : Cpu} (hs : At fromAddress (absCode isCall toAddress) s) :
    Isa.A64.step s = some (.next, (s.set 16#5 toAddress).skip) := by
  obtain ⟨hpc, hload⟩ := hs
  rw [absCode, List.append_assoc] at hload
  have hliteral : readWord 64 s.mem (s.pc + 8#64) 8 = toAddress := by
    have hlast := hload.right.right
    rw [store64le_eq, store32le_length, store32le_length, BitVec.add_assoc] at hlast
    exact hlast.readWord_eq (by omega)
  have hfirst := hload.left
  rw [store32le_eq] at hfirst
  rw [Isa.A64.step_of_loaded hfirst (i := .ldrLit 2#19 16#5) (by decide)]
  simp [Isa.A64.exec, Insn.target, scaled, hliteral]

theorem step_absCode_br {s : Cpu} (hs : At fromAddress (absCode isCall toAddress) s) :
    Isa.A64.step (s.set 16#5 toAddress).skip = some (.branch,
      { (if isCall then (s.set 16#5 toAddress).skip.set 30#5 (fromAddress + 8)
        else (s.set 16#5 toAddress).skip) with pc := toAddress }) := by
  obtain ⟨hpc, hload⟩ := hs
  rw [absCode, List.append_assoc] at hload
  have hsecond := hload.right.left
  rw [store32le_length, store32le_eq] at hsecond
  have hdec : decode (if isCall then 0xd63f0200 else 0xd61f0200) = some (.br isCall 16#5) := by
    cases isCall <;> decide
  have hget : (s.set 16#5 toAddress).skip.get 16#5 = toAddress :=
    Isa.A64.get_set_same s 16#5 toAddress (by decide)
  have hload' : Loaded (s.set 16#5 toAddress).skip.mem (s.set 16#5 toAddress).skip.pc
      (bytesOf 4 (if isCall then 0xd63f0200#32 else 0xd61f0200#32)) := by
    simpa using hsecond
  rw [Isa.A64.step_of_loaded hload' hdec]
  simp [Isa.A64.exec, Insn.taken, Insn.links, Insn.target, hget, hpc, BitVec.add_assoc]

theorem skip_pc_ne_stop {s : Cpu} (hs : At fromAddress (absCode isCall toAddress) s) :
    (s.set 16#5 toAddress).skip.pc ≠ stop fromAddress (absCode isCall toAddress) := by
  rw [Isa.A64.skip_pc, Isa.A64.set_pc, hs.1, stop, absCode_length, ne_eq, BitVec.add_right_inj]
  decide

theorem leaves_absCode {s : Cpu} (hs : At fromAddress (absCode isCall toAddress) s) :
    machine.Leaves (stop fromAddress (absCode isCall toAddress)) s
      { (if isCall then (s.set 16#5 toAddress).skip.set 30#5 (fromAddress + 8)
        else (s.set 16#5 toAddress).skip) with pc := toAddress } :=
  .next (step_absCode hs) (skip_pc_ne_stop hs) (.branch (step_absCode_br hs))

/-! ## Jumps and calls -/

theorem jumpsTo_relWord (hfits : i64FitsI26Words4 (relDisp fromAddress toAddress) = true)
    (status : Status) (result : EmitResult) :
    JumpsTo fromAddress toAddress
      ⟨status, result, store32le (relWord false (relDisp fromAddress toAddress))⟩ := by
  apply Machine.Runs.of_branch
  intro s hs
  exact ⟨_, step_relWord hfits hs, rfl, fun _ _ => rfl⟩

theorem jumpsTo_absCode (status : Status) :
    JumpsTo fromAddress toAddress ⟨status, absResult, absCode false toAddress⟩ := by
  intro s hs
  refine ⟨_, leaves_absCode hs, rfl, ?_⟩
  intro r hr
  have hne : r ≠ 16#5 := by
    rintro rfl
    have hbit : absResult.clobberMaskLo.getLsbD 16 = false := hr
    exact absurd hbit (by decide)
  exact Isa.A64.set_x_of_ne s 16#5 r toAddress hne

theorem callsTo_relWord (hfits : i64FitsI26Words4 (relDisp fromAddress toAddress) = true)
    (status : Status) (result : EmitResult) :
    CallsTo fromAddress toAddress
      ⟨status, result, store32le (relWord true (relDisp fromAddress toAddress))⟩ := by
  apply Machine.Runs.of_branch
  intro s hs
  exact ⟨_, step_relWord hfits hs, rfl, rfl⟩

theorem not_callsTo_absCode (status : Status) (result : EmitResult) :
    ¬ CallsTo fromAddress toAddress ⟨status, result, absCode true toAddress⟩ := by
  intro h
  let s : Cpu :=
    { x := fun _ => 0, nzcv := ⟨false, false, false, false⟩, pc := fromAddress
      mem := store (fun _ => 0) fromAddress (absCode true toAddress) }
  have hs : At fromAddress (absCode true toAddress) s := ⟨rfl, loaded_store _ _ _ (by simp)⟩
  have hlr := (h.post_of_leaves hs (leaves_absCode hs)).2
  have heq : fromAddress + 8 = stop fromAddress (absCode true toAddress) := hlr
  rw [stop, absCode_length, BitVec.add_right_inj] at heq
  exact absurd heq (by decide)

end AsmKit.A64
