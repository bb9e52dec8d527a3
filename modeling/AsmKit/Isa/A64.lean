import AsmKit.Isa.Nzcv
import AsmKit.Lib.Bytes
import AsmKit.Lib.Machine
import AsmKit.Lib.Pattern
import AsmKit.Lib.SignedField

/-!
# The branches of A64

What the processor does with the branch and literal-load words: the part of the architecture that
the emitters and the relocation rely on. Other words are not executed here.
-/

namespace AsmKit.Isa.A64

open LittleEndian SignedField

/-! ## Words -/

inductive Insn where
  | b (link : Bool) (off : BitVec 26)
  | bCond (cond : BitVec 4) (off : BitVec 19)
  | cb (sf nonzero : Bool) (off : BitVec 19) (rt : BitVec 5)
  | tb (nonzero : Bool) (bit : BitVec 6) (off : BitVec 14) (rt : BitVec 5)
  | ldrLit (off : BitVec 19) (rt : BitVec 5)
  | br (link : Bool) (rn : BitVec 5)
deriving DecidableEq, Repr

def off26 (w : BitVec 32) : BitVec 26 := field 26 0 w
def off19 (w : BitVec 32) : BitVec 19 := field 19 5 w
def off14 (w : BitVec 32) : BitVec 14 := field 14 5 w
def rt (w : BitVec 32) : BitVec 5 := field 5 0 w
def rn (w : BitVec 32) : BitVec 5 := field 5 5 w
def cond (w : BitVec 32) : BitVec 4 := field 4 0 w

/-- The bit number of a test-bit branch, `b5:b40`. -/
def testBit (w : BitVec 32) : BitVec 6 :=
  field 1 31 w ++ field 5 19 w

def isB (w : BitVec 32) : Bool := w &&& 0x7c000000 == 0x14000000
def isBCond (w : BitVec 32) : Bool := w &&& 0xff000010 == 0x54000000
def isCb (w : BitVec 32) : Bool := w &&& 0x7e000000 == 0x34000000
def isTb (w : BitVec 32) : Bool := w &&& 0x7e000000 == 0x36000000
def isLdrLit (w : BitVec 32) : Bool := w &&& 0xff000000 == 0x58000000
def isBr (w : BitVec 32) : Bool := w &&& 0xffdffc1f == 0xd61f0000

def decode (w : BitVec 32) : Option Insn :=
  if isB w then some (.b (w.getLsbD 31) (off26 w))
  else if isBCond w then some (.bCond (cond w) (off19 w))
  else if isCb w then some (.cb (w.getLsbD 31) (w.getLsbD 24) (off19 w) (rt w))
  else if isTb w then some (.tb (w.getLsbD 24) (testBit w) (off14 w) (rt w))
  else if isLdrLit w then some (.ldrLit (off19 w) (rt w))
  else if isBr w then some (.br (w.getLsbD 21) (rn w))
  else none

theorem decode_of_isCb {w : BitVec 32} (h : isCb w = true) :
    decode w = some (.cb (w.getLsbD 31) (w.getLsbD 24) (off19 w) (rt w)) := by
  have hb : isB w = false :=
    beq_eq_false_iff_ne.2 (BitPattern.and_ne_of_disjoint (beq_iff_eq.1 h) (by decide))
  have hcond : isBCond w = false :=
    beq_eq_false_iff_ne.2 (BitPattern.and_ne_of_disjoint (beq_iff_eq.1 h) (by decide))
  rw [decode, hb, hcond, h]
  rfl

theorem decode_of_isTb {w : BitVec 32} (h : isTb w = true) :
    decode w = some (.tb (w.getLsbD 24) (testBit w) (off14 w) (rt w)) := by
  have hb : isB w = false :=
    beq_eq_false_iff_ne.2 (BitPattern.and_ne_of_disjoint (beq_iff_eq.1 h) (by decide))
  have hcond : isBCond w = false :=
    beq_eq_false_iff_ne.2 (BitPattern.and_ne_of_disjoint (beq_iff_eq.1 h) (by decide))
  have hcb : isCb w = false :=
    beq_eq_false_iff_ne.2 (BitPattern.and_ne_of_disjoint (beq_iff_eq.1 h) (by decide))
  rw [decode, hb, hcond, hcb, h]
  rfl

/-! ## Execution -/

structure Cpu where
  x : BitVec 5 → BitVec 64
  nzcv : Nzcv
  pc : BitVec 64
  mem : BitVec 64 → Byte

namespace Cpu

/-- Register 31 is the zero register. -/
def get (s : Cpu) (r : BitVec 5) : BitVec 64 := if r = 31#5 then 0 else s.x r

def set (s : Cpu) (r : BitVec 5) (v : BitVec 64) : Cpu :=
  if r = 31#5 then s else { s with x := fun q => if q = r then v else s.x q }

def skip (s : Cpu) : Cpu := { s with pc := s.pc + 4 }

end Cpu

/-- A branch offset counts words. -/
def scaled {n : Nat} (off : BitVec n) : BitVec 64 := off.signExtend 64 <<< 2

/-- The branch is taken. -/
def Insn.taken (s : Cpu) : Insn → Bool
  | .b _ _ | .br _ _ => true
  | .bCond cond _ => s.nzcv.holds cond
  | .cb true nonzero _ rt => (s.get rt == 0) ^^ nonzero
  | .cb false nonzero _ rt => ((s.get rt).setWidth 32 == 0) ^^ nonzero
  | .tb nonzero bit _ rt => (s.get rt).getLsbD bit.toNat == nonzero
  | .ldrLit _ _ => false

def Insn.target (s : Cpu) : Insn → BitVec 64
  | .b _ off => s.pc + scaled off
  | .bCond _ off | .cb _ _ off _ | .ldrLit off _ => s.pc + scaled off
  | .tb _ _ off _ => s.pc + scaled off
  | .br _ rn => s.get rn

def Insn.links : Insn → Bool
  | .b link _ | .br link _ => link
  | _ => false

def exec (s : Cpu) (i : Insn) : StepEnd × Cpu :=
  match i with
  | .ldrLit _ rt => (.next, (s.set rt (readWord 64 s.mem (i.target s) 8)).skip)
  | _ =>
    if i.taken s then
      let linked := if i.links then s.set 30#5 (s.pc + 4) else s
      (.branch, { linked with pc := i.target s })
    else (.next, s.skip)

def step (s : Cpu) : Option (StepEnd × Cpu) :=
  (decode (readWord 32 s.mem s.pc 4)).map (exec s)

def machine : Machine where
  State := Cpu
  Addr := BitVec 64
  pc := Cpu.pc
  step := step

/-! ## Steps -/

theorem step_of_loaded {s : Cpu} {w : BitVec 32} {i : Insn}
    (hload : Loaded s.mem s.pc (bytesOf 4 w)) (hdec : decode w = some i) :
    step s = some (exec s i) := by
  rw [step, hload.readWord_eq (by omega), hdec]
  rfl

@[simp] theorem skip_pc (s : Cpu) : s.skip.pc = s.pc + 4 := rfl
@[simp] theorem skip_x (s : Cpu) : s.skip.x = s.x := rfl
@[simp] theorem skip_nzcv (s : Cpu) : s.skip.nzcv = s.nzcv := rfl
@[simp] theorem skip_mem (s : Cpu) : s.skip.mem = s.mem := rfl

@[simp] theorem set_pc (s : Cpu) (r : BitVec 5) (v : BitVec 64) : (s.set r v).pc = s.pc := by
  unfold Cpu.set
  split <;> rfl

@[simp] theorem set_mem (s : Cpu) (r : BitVec 5) (v : BitVec 64) : (s.set r v).mem = s.mem := by
  unfold Cpu.set
  split <;> rfl

theorem set_x_of_ne (s : Cpu) (r q : BitVec 5) (v : BitVec 64) (h : q ≠ r) :
    (s.set r v).x q = s.x q := by
  unfold Cpu.set
  split
  · rfl
  · simp [h]

theorem get_set_same (s : Cpu) (r : BitVec 5) (v : BitVec 64) (h : r ≠ 31#5) :
    (s.set r v).get r = v := by
  simp [Cpu.set, Cpu.get, h]

end AsmKit.Isa.A64
