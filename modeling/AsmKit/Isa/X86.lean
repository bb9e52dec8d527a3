import AsmKit.Lib.Bytes
import AsmKit.Lib.Machine

/-!
# The branches of x86

What the processor does with jumps, calls and conditional jumps in a mode whose instruction pointer
has `w` bits. The memory is flat, and the operand size is the one of the mode.
-/

namespace AsmKit.Isa.X86

open LittleEndian

/-! ## Flags -/

structure Flags where
  cf : Bool
  pf : Bool
  zf : Bool
  sf : Bool
  of : Bool
deriving DecidableEq, Repr

namespace Flags

def base (f : Flags) : Nat → Bool
  | 0 => f.of
  | 1 => f.cf
  | 2 => f.zf
  | 3 => f.cf || f.zf
  | 4 => f.sf
  | 5 => f.pf
  | 6 => f.sf != f.of
  | _ => f.zf || f.sf != f.of

/-- The low bit of a condition code inverts the condition. -/
def holds (f : Flags) (cc : BitVec 4) : Bool := f.base (cc >>> 1).toNat ^^ cc.getLsbD 0

theorem holds_flip (f : Flags) (cc : BitVec 4) : f.holds (cc ^^^ 1) = !f.holds cc := by
  have hupper : (cc.toNat ^^^ 1) >>> 1 = cc.toNat >>> 1 := by simp [Nat.shiftRight_xor_distrib]
  simp [holds, hupper]

end Flags

/-! ## Instructions -/

inductive Kind where
  | jmp
  | call
  | jcc (cc : BitVec 4)
deriving DecidableEq, Repr

/-- Where the target comes from: the distance, or memory relative to the next instruction. -/
inductive Source (w : Nat) where
  | rel (disp : BitVec w)
  | mem (disp : BitVec w)
deriving DecidableEq, Repr

structure Insn (w : Nat) where
  kind : Kind
  source : Source w
  size : Nat
deriving DecidableEq, Repr

/-- The size of a near displacement. -/
def nearSize (w : Nat) : Nat := if w = 16 then 2 else 4

def rel (w n : Nat) (bs : List Byte) : BitVec w := (wordOf (8 * n) (bs.take n)).signExtend w

def decode (w : Nat) : List Byte → Option (Insn w)
  | [] => none
  | op :: bs =>
    if op = 0xe8 then some ⟨.call, .rel (rel w (nearSize w) bs), 1 + nearSize w⟩
    else if op = 0xe9 then some ⟨.jmp, .rel (rel w (nearSize w) bs), 1 + nearSize w⟩
    else if op = 0xeb then some ⟨.jmp, .rel (rel w 1 bs), 2⟩
    else if op &&& 0xf0 = 0x70 then some ⟨.jcc (op.setWidth 4), .rel (rel w 1 bs), 2⟩
    else match bs with
      | [] => none
      | op2 :: bs =>
        if op = 0x0f ∧ op2 &&& 0xf0 = 0x80 then
          some ⟨.jcc (op2.setWidth 4), .rel (rel w (nearSize w) bs), 2 + nearSize w⟩
        else if op = 0xff ∧ w = 64 ∧ op2 = 0x25 then some ⟨.jmp, .mem (rel w 4 bs), 6⟩
        else if op = 0xff ∧ w = 64 ∧ op2 = 0x15 then some ⟨.call, .mem (rel w 4 bs), 6⟩
        else none

/-! ## Execution -/

/-- Register 4 is the stack pointer. -/
structure Cpu (w : Nat) where
  reg : Fin 16 → BitVec w
  flags : Flags
  ip : BitVec w
  mem : BitVec w → Byte

variable {w : Nat}

def Cpu.push (s : Cpu w) (v : BitVec w) : Cpu w :=
  let sp := s.reg 4 - BitVec.ofNat w (w / 8)
  { s with
    reg := fun r => if r = 4 then sp else s.reg r
    mem := store s.mem sp (bytesOf (w / 8) v) }

/-- The word on top of the stack. -/
def Cpu.top (s : Cpu w) : BitVec w := readWord w s.mem (s.reg 4) (w / 8)

def Insn.next (s : Cpu w) (i : Insn w) : BitVec w := s.ip + BitVec.ofNat w i.size

def Insn.target (s : Cpu w) (i : Insn w) : BitVec w :=
  match i.source with
  | .rel disp => i.next s + disp
  | .mem disp => readWord w s.mem (i.next s + disp) (w / 8)

def exec (s : Cpu w) (i : Insn w) : StepEnd × Cpu w :=
  match i.kind with
  | .jmp => (.branch, { s with ip := i.target s })
  | .call => (.branch, { s.push (i.next s) with ip := i.target s })
  | .jcc cc =>
    if s.flags.holds cc then (.branch, { s with ip := i.target s })
    else (.next, { s with ip := i.next s })

def step (s : Cpu w) : Option (StepEnd × Cpu w) := (decode w (fetch s.mem s.ip 15)).map (exec s)

def machine (w : Nat) : Machine where
  State := Cpu w
  Addr := BitVec w
  pc := Cpu.ip
  step := step

/-! ## Steps -/

theorem step_of_loaded {s : Cpu w} {code : List Byte} {i : Insn w}
    (hload : Loaded s.mem s.ip code) (hlen : code.length ≤ 15)
    (hdec : ∀ rest, decode w (code ++ rest) = some i) : step s = some (exec s i) := by
  obtain ⟨rest, hfetch⟩ := hload.fetch_of_le hlen
  rw [step, hfetch, hdec]
  rfl

theorem top_push (s : Cpu w) (v : BitVec w) (hw : w ≤ 8 * (w / 8)) (hn : w / 8 ≤ 2 ^ w) :
    (s.push v).top = v := by
  simpa [Cpu.top, Cpu.push] using readWord_store s.mem _ (w / 8) v hw hn

theorem rel_of_bytes {n : Nat} {v : BitVec (8 * n)} (rest : List Byte) :
    rel w n (bytesOf n v ++ rest) = v.signExtend w := by
  rw [rel, List.take_left' (bytesOf_length n v), wordOf_bytesOf n v (Nat.le_refl _)]

end AsmKit.Isa.X86
