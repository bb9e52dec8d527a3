import AsmKit.Core.Target
import AsmKit.Isa.A32
import AsmKit.Isa.A64
import AsmKit.Isa.X86

/-!
# What an emitted branch is for

The contracts of `asmkit_emit_jump` and `asmkit_emit_call`: what the processor does when it runs
into the emitted bytes at the address they were emitted for.
-/

namespace AsmKit

open LittleEndian

/-! ## x86 -/

namespace X86

open Isa.X86 (Cpu machine)

/-- The processor is about to execute `code` at `address`. -/
def At {w : Nat} (address : BitVec 64) (code : List Byte) (s : Cpu w) : Prop :=
  s.ip = address.setWidth w ∧ Loaded s.mem s.ip code

/-- The first address behind the code. -/
def stop (w : Nat) (address : BitVec 64) (code : List Byte) : BitVec w :=
  address.setWidth w + BitVec.ofNat w code.length

def JumpsTo (w : Nat) (fromAddress toAddress : BitVec 64) (out : EmitOut) : Prop :=
  (machine w).Runs (stop w fromAddress out.code) (At fromAddress out.code) fun s s' =>
    s'.ip = toAddress.setWidth w ∧
      ∀ r : Fin 16, out.result.clobberMaskLo.getLsbD r = false → s'.reg r = s.reg r

def CallsTo (w : Nat) (fromAddress toAddress : BitVec 64) (out : EmitOut) : Prop :=
  (machine w).Runs (stop w fromAddress out.code) (At fromAddress out.code) fun _ s' =>
    s'.ip = toAddress.setWidth w ∧ s'.top = stop w fromAddress out.code

end X86

/-! ## A64 -/

namespace A64

open Isa.A64 (Cpu machine)

def At (address : BitVec 64) (code : List Byte) (s : Cpu) : Prop :=
  s.pc = address ∧ Loaded s.mem s.pc code

def stop (address : BitVec 64) (code : List Byte) : BitVec 64 :=
  address + BitVec.ofNat 64 code.length

def JumpsTo (fromAddress toAddress : BitVec 64) (out : EmitOut) : Prop :=
  machine.Runs (stop fromAddress out.code) (At fromAddress out.code) fun s s' =>
    s'.pc = toAddress ∧
      ∀ r : BitVec 5, out.result.clobberMaskLo.getLsbD r.toNat = false → s'.x r = s.x r

def CallsTo (fromAddress toAddress : BitVec 64) (out : EmitOut) : Prop :=
  machine.Runs (stop fromAddress out.code) (At fromAddress out.code) fun _ s' =>
    s'.pc = toAddress ∧ s'.x 30 = stop fromAddress out.code

end A64

/-! ## A32 and Thumb -/

namespace Arm

open Isa.A32 (Cpu machine)

def At (thumb : Bool) (address : BitVec 64) (code : List Byte) (s : Cpu) : Prop :=
  s.pc = address.setWidth 32 ∧ s.thumb = thumb ∧ Loaded s.mem s.pc code

def stop (address : BitVec 64) (code : List Byte) : BitVec 32 :=
  address.setWidth 32 + BitVec.ofNat 32 code.length

/-- The branch stays in its instruction set. -/
def JumpsTo (thumb : Bool) (fromAddress toAddress : BitVec 64) (out : EmitOut) : Prop :=
  machine.Runs (stop fromAddress out.code) (At thumb fromAddress out.code) fun s s' =>
    s'.pc = toAddress.setWidth 32 ∧ s'.thumb = thumb ∧
      ∀ r : BitVec 4, out.result.clobberMaskLo.getLsbD r.toNat = false → s'.r r = s.r r

def CallsTo (thumb : Bool) (fromAddress toAddress : BitVec 64) (out : EmitOut) : Prop :=
  machine.Runs (stop fromAddress out.code) (At thumb fromAddress out.code) fun _ s' =>
    s'.pc = toAddress.setWidth 32 ∧ s'.thumb = thumb ∧ s'.r 14 = stop fromAddress out.code

end Arm

/-! ## Every mode -/

/-- The emitted bytes at `fromAddress` transfer control to `toAddress` and keep every register
outside the reported mask. -/
def JumpsTo : Mode → BitVec 64 → BitVec 64 → EmitOut → Prop
  | .x86_16 => X86.JumpsTo 16
  | .x86_32 => X86.JumpsTo 32
  | .x86_64 => X86.JumpsTo 64
  | .armA32 => Arm.JumpsTo false
  | .armThumb => Arm.JumpsTo true
  | .aarch64 => A64.JumpsTo
  | _ => fun _ _ _ => False

/-- The emitted bytes at `fromAddress` transfer control to `toAddress`, and the return address
they leave is the first one behind them. -/
def CallsTo : Mode → BitVec 64 → BitVec 64 → EmitOut → Prop
  | .x86_16 => X86.CallsTo 16
  | .x86_32 => X86.CallsTo 32
  | .x86_64 => X86.CallsTo 64
  | .armA32 => Arm.CallsTo false
  | .armThumb => Arm.CallsTo true
  | .aarch64 => A64.CallsTo
  | _ => fun _ _ _ => False

end AsmKit
