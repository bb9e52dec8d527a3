import AsmKit.Encode.Spec
import AsmKit.X86.Emit

/-!
# What the emitted x86 branches do
-/

namespace AsmKit.X86

open LittleEndian SignedField
open Isa.X86 (Cpu Insn decode rel nearSize machine)

/-- The engine's mode has an instruction pointer of `w` bits. -/
inductive HasWidth (engine : Engine) : Nat → Prop where
  | w16 : engine.config.mode = .x86_16 → HasWidth engine 16
  | w32 : engine.config.mode = .x86_32 → HasWidth engine 32
  | w64 : engine.config.mode = .x86_64 → HasWidth engine 64

variable {engine : Engine} {w : Nat} {isCall : Bool} {fromAddress toAddress : BitVec 64}

theorem HasWidth.le (hw : HasWidth engine w) : w ≤ 64 := by
  cases hw <;> omega

theorem HasWidth.directSize_eq (hw : HasWidth engine w) : directSize engine = 1 + nearSize w := by
  cases hw <;> simp [directSize, nearSize, *]

/-! ## The relative form -/

theorem relCode_eq (hw : HasWidth engine w) (isCall : Bool) (disp : BitVec 64) :
    relCode engine isCall disp = (if isCall then 0xe8 else 0xe9) ::
      bytesOf (nearSize w) (disp.setWidth (8 * nearSize w)) := by
  cases hw with
  | w16 hmode => simp [relCode, hmode, store16le_eq, nearSize]
  | w32 hmode => simp [relCode, hmode, store32le_eq, nearSize]
  | w64 hmode => simp [relCode, hmode, store32le_eq, nearSize]

theorem near_field (hw : HasWidth engine w) {disp : BitVec 64} (hfits : fitsDirect engine disp = true) :
    (disp.setWidth (8 * nearSize w)).signExtend w = disp.setWidth w := by
  cases hw with
  | w16 hmode => exact BitVec.signExtend_eq _
  | w32 hmode => exact BitVec.signExtend_eq _
  | w64 hmode =>
    have hfit : Fits 32 disp.toInt := by simpa [fitsDirect, hmode, i64FitsI32_iff] using hfits
    rw [BitVec.setWidth_eq]
    exact signExtend_setWidth_of_fits (n := 32) disp (by omega) (by omega) hfit

theorem decode_relCode (hw : HasWidth engine w) {disp : BitVec 64}
    (hfits : fitsDirect engine disp = true) (rest : List Byte) :
    decode w (relCode engine isCall disp ++ rest) =
      some ⟨if isCall then .call else .jmp, .rel (disp.setWidth w), directSize engine⟩ := by
  rw [relCode_eq hw, List.cons_append, hw.directSize_eq, ← near_field hw hfits]
  cases isCall <;> simp [decode, Isa.X86.rel_of_bytes]

/-! ## The absolute form -/

theorem decode_absCode (isCall : Bool) (toAddress : BitVec 64) (rest : List Byte) :
    decode 64 (absCode isCall toAddress ++ rest) =
      some ⟨if isCall then .call else .jmp, .mem 0, 6⟩ := by
  have hrel : ∀ rest, rel 64 4 (store32le 0#32 ++ rest) = 0#64 := by
    intro rest
    rw [store32le_eq]
    exact Isa.X86.rel_of_bytes (n := 4) rest
  cases isCall <;> simp [absCode, decode, hrel, List.append_assoc]

theorem literal_of_loaded {mem : BitVec 64 → Byte} {ip : BitVec 64}
    (hload : Loaded mem ip (absCode isCall toAddress)) :
    readWord 64 mem (ip + 6#64) 8 = toAddress := by
  have hsplit : absCode isCall toAddress =
      [0xff, if isCall then 0x15 else 0x25] ++ store32le 0 ++ store64le toAddress := by
    simp [absCode]
  rw [hsplit, store64le_eq] at hload
  exact hload.right.readWord_eq (by omega)

/-! ## Jumps and calls -/

theorem rel_target (hw : HasWidth engine w) (fromAddress toAddress : BitVec 64) :
    fromAddress.setWidth w + BitVec.ofNat w (directSize engine) +
      (relDisp engine fromAddress toAddress).setWidth w = toAddress.setWidth w := by
  rw [relDisp, ← setWidth_add_ofNat hw.le, setWidth_add_sub hw.le]

theorem step_relCode (hw : HasWidth engine w)
    (hfits : fitsDirect engine (relDisp engine fromAddress toAddress) = true) {s : Cpu w}
    (hs : At fromAddress (relCode engine isCall (relDisp engine fromAddress toAddress)) s) :
    Isa.X86.step s = some (.branch, { (if isCall then
      s.push (stop w fromAddress (relCode engine isCall (relDisp engine fromAddress toAddress)))
      else s) with ip := toAddress.setWidth w }) := by
  obtain ⟨hip, hload⟩ := hs
  have hlen : directSize engine ≤ 15 := by
    unfold directSize
    split <;> omega
  have htarget := rel_target hw fromAddress toAddress
  rw [Isa.X86.step_of_loaded hload (by simpa using hlen) (decode_relCode hw hfits)]
  cases isCall <;> simp [Isa.X86.exec, Insn.next, Insn.target, stop, hip, htarget]

theorem step_absCode {s : Cpu 64} (hs : At fromAddress (absCode isCall toAddress) s) :
    Isa.X86.step s = some (.branch, { (if isCall then s.push (fromAddress + 6) else s) with
      ip := toAddress }) := by
  obtain ⟨hip, hload⟩ := hs
  have hliteral := literal_of_loaded hload
  rw [BitVec.setWidth_eq] at hip
  rw [Isa.X86.step_of_loaded hload (by simp) (decode_absCode isCall toAddress)]
  rw [hip] at hliteral
  cases isCall <;> simp [Isa.X86.exec, Insn.next, Insn.target, hip, hliteral]

theorem jumpsTo_relCode (hw : HasWidth engine w)
    (hfits : fitsDirect engine (relDisp engine fromAddress toAddress) = true)
    (status : Status) (result : EmitResult) :
    JumpsTo w fromAddress toAddress
      ⟨status, result, relCode engine false (relDisp engine fromAddress toAddress)⟩ := by
  apply Machine.Runs.of_branch
  intro s hs
  exact ⟨_, step_relCode hw hfits hs, rfl, fun _ _ => rfl⟩

theorem jumpsTo_absCode (status : Status) (result : EmitResult) :
    JumpsTo 64 fromAddress toAddress ⟨status, result, absCode false toAddress⟩ := by
  apply Machine.Runs.of_branch
  intro s hs
  exact ⟨_, step_absCode hs, (BitVec.setWidth_eq _).symm, fun _ _ => rfl⟩

theorem callsTo_relCode (hw : HasWidth engine w)
    (hfits : fitsDirect engine (relDisp engine fromAddress toAddress) = true)
    (status : Status) (result : EmitResult) :
    CallsTo w fromAddress toAddress
      ⟨status, result, relCode engine true (relDisp engine fromAddress toAddress)⟩ := by
  apply Machine.Runs.of_branch
  intro s hs
  refine ⟨_, step_relCode hw hfits hs, rfl, ?_⟩
  cases hw <;> exact Isa.X86.top_push s _ (by decide) (by decide)

theorem not_callsTo_absCode (status : Status) (result : EmitResult) :
    ¬ CallsTo 64 fromAddress toAddress ⟨status, result, absCode true toAddress⟩ := by
  intro h
  let s : Cpu 64 :=
    { reg := fun _ => 0, flags := ⟨false, false, false, false, false⟩, ip := fromAddress
      mem := store (fun _ => 0) fromAddress (absCode true toAddress) }
  have hs : At fromAddress (absCode true toAddress) s :=
    ⟨(BitVec.setWidth_eq _).symm, loaded_store _ _ _ (by simp)⟩
  have hpost := h.post_of_leaves hs (.branch (step_absCode hs))
  have htop : (s.push (fromAddress + 6)).top = fromAddress + 6 :=
    Isa.X86.top_push s _ (by decide) (by decide)
  have heq : fromAddress + 6 = stop 64 fromAddress (absCode true toAddress) := htop.symm.trans hpost.2
  rw [stop, BitVec.setWidth_eq, absCode_length, BitVec.add_right_inj] at heq
  exact absurd heq (by decide)

end AsmKit.X86
