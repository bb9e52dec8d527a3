import AsmKit.Isa.Nzcv
import AsmKit.Isa.X86
import AsmKit.Lib.Subtract

/-!
# The flags of comparing instructions

`cmp` and `sub` set the flags of a difference, `test` those of a conjunction.
-/

namespace AsmKit.Isa

open Subtract

variable {w : Nat}

/-- Arm keeps the carry of `x + ~y + 1`, which is set when nothing is borrowed. -/
def Nzcv.ofSub (x y : BitVec w) : Nzcv :=
  ⟨(x - y).msb, x - y == 0, !x.ult y, signedOverflow x y⟩

namespace X86.Flags

/-- The low byte has an even number of ones. -/
def parity (v : BitVec w) : Bool := ((List.range 8).filter fun i => v.getLsbD i).length % 2 == 0

def ofSub (x y : BitVec w) : Flags :=
  { cf := x.ult y, pf := parity (x - y), zf := x - y == 0, sf := (x - y).msb
    of := signedOverflow x y }

def ofAnd (x y : BitVec w) : Flags :=
  { cf := false, pf := parity (x &&& y), zf := x &&& y == 0, sf := (x &&& y).msb, of := false }

end X86.Flags

end AsmKit.Isa
