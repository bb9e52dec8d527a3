import AsmKit.Isa.Nzcv
import AsmKit.Lib.Bytes
import AsmKit.Lib.Machine
import AsmKit.Lib.SignedField

/-!
# The branches of A32 and Thumb

What the processor does with the branch words, the pc-relative literal load and `blx`. A write of
the pc from memory or from a register picks the instruction set by its low bit.
-/

namespace AsmKit.Isa.A32

open LittleEndian SignedField

/-! ## Words -/

inductive Insn where
  | b (cond : BitVec 4) (link : Bool) (off : BitVec 24)
  | ldrLit (cond : BitVec 4) (up : Bool) (rt : BitVec 4) (imm : BitVec 12)
  | blx (cond : BitVec 4) (rm : BitVec 4)
  | thumbB (off : BitVec 11)
deriving DecidableEq, Repr

def cond (w : BitVec 32) : BitVec 4 := field 4 28 w

def isB (w : BitVec 32) : Bool := w &&& 0x0e000000 == 0x0a000000 && cond w != 15

def isLdrLit (w : BitVec 32) : Bool := w &&& 0x0f7f0000 == 0x051f0000 && cond w != 15

def isBlx (w : BitVec 32) : Bool := w &&& 0x0ffffff0 == 0x012fff30 && cond w != 15

def decode (w : BitVec 32) : Option Insn :=
  if isB w then some (.b (cond w) (w.getLsbD 24) (field 24 0 w))
  else if isLdrLit w then
    some (.ldrLit (cond w) (w.getLsbD 23) (field 4 12 w) (field 12 0 w))
  else if isBlx w then some (.blx (cond w) (field 4 0 w))
  else none

def decodeThumb (h : BitVec 16) : Option Insn :=
  if h &&& 0xf800 == 0xe000 then some (.thumbB (field 11 0 h)) else none

/-! ## Execution -/

/-- `r` holds `r0` to `r14`; the pc is kept apart. -/
structure Cpu where
  r : BitVec 4 → BitVec 32
  nzcv : Nzcv
  pc : BitVec 32
  thumb : Bool
  mem : BitVec 32 → Byte

namespace Cpu

/-- An instruction reads the pc two instructions ahead. -/
def readPc (s : Cpu) : BitVec 32 := if s.thumb then s.pc + 4 else s.pc + 8

/-- The base of a literal load. -/
def literalBase (s : Cpu) : BitVec 32 := s.readPc &&& ~~~3#32

def get (s : Cpu) (r : BitVec 4) : BitVec 32 := if r = 15#4 then s.readPc else s.r r

def set (s : Cpu) (r : BitVec 4) (v : BitVec 32) : Cpu :=
  { s with r := fun q => if q = r then v else s.r q }

def skip (s : Cpu) : Cpu := { s with pc := s.pc + if s.thumb then 2 else 4 }

/-- A pc write that changes the instruction set by the low bit. An A32 address that is not a
multiple of 4 is unpredictable. -/
def writePc (s : Cpu) (v : BitVec 32) : Option Cpu :=
  if v.getLsbD 0 then some { s with pc := v &&& ~~~1#32, thumb := true }
  else if v.getLsbD 1 then none
  else some { s with pc := v, thumb := false }

end Cpu

def Insn.condition : Insn → BitVec 4
  | .b cond _ _ | .ldrLit cond _ _ _ | .blx cond _ => cond
  | .thumbB _ => 14

/-- An instruction whose condition holds. -/
def perform (s : Cpu) : Insn → Option (StepEnd × Cpu)
  | .b _ link off =>
    let linked := if link then s.set 14#4 (s.pc + 4) else s
    some (.branch, { linked with pc := s.readPc + off.signExtend 32 <<< 2 })
  | .ldrLit _ up rt imm =>
    let address := if up then s.literalBase + imm.setWidth 32 else s.literalBase - imm.setWidth 32
    let value := readWord 32 s.mem address 4
    if rt = 15#4 then (s.writePc value).map (.branch, ·)
    else some (.next, (s.set rt value).skip)
  | .blx _ rm => ((s.set 14#4 (s.pc + 4)).writePc (s.get rm)).map (.branch, ·)
  | .thumbB off => some (.branch, { s with pc := s.readPc + off.signExtend 32 <<< 1 })

def exec (s : Cpu) (i : Insn) : Option (StepEnd × Cpu) :=
  if s.nzcv.holds i.condition then perform s i else some (.next, s.skip)

def step (s : Cpu) : Option (StepEnd × Cpu) :=
  let insn := if s.thumb then decodeThumb (readWord 16 s.mem s.pc 2)
    else decode (readWord 32 s.mem s.pc 4)
  insn.bind (exec s)

def machine : Machine where
  State := Cpu
  Addr := BitVec 32
  pc := Cpu.pc
  step := step

/-! ## Steps -/

theorem step_of_loaded {s : Cpu} {w : BitVec 32} {i : Insn} (ha32 : s.thumb = false)
    (hload : Loaded s.mem s.pc (bytesOf 4 w)) (hdec : decode w = some i) :
    step s = exec s i := by
  simp [step, ha32, hload.readWord_eq, hdec]

theorem step_of_loaded_thumb {s : Cpu} {h : BitVec 16} {i : Insn} (hthumb : s.thumb = true)
    (hload : Loaded s.mem s.pc (bytesOf 2 h)) (hdec : decodeThumb h = some i) :
    step s = exec s i := by
  simp [step, hthumb, hload.readWord_eq, hdec]

theorem writePc_of_aligned (s : Cpu) (v : BitVec 32) (h : v &&& 3#32 = 0#32) :
    s.writePc v = some { s with pc := v, thumb := false } := by
  have hbit : ∀ i, (v.getLsbD i && (3#32).getLsbD i) = false := by
    intro i
    rw [← BitVec.getLsbD_and, h, BitVec.getLsbD_zero]
  have h0 : v.getLsbD 0 = false := (Bool.and_true _).symm.trans (hbit 0)
  have h1 : v.getLsbD 1 = false := (Bool.and_true _).symm.trans (hbit 1)
  rw [Cpu.writePc, h0, h1]
  rfl

@[simp] theorem skip_r (s : Cpu) : s.skip.r = s.r := rfl
@[simp] theorem skip_nzcv (s : Cpu) : s.skip.nzcv = s.nzcv := rfl
@[simp] theorem skip_thumb (s : Cpu) : s.skip.thumb = s.thumb := rfl
@[simp] theorem skip_mem (s : Cpu) : s.skip.mem = s.mem := rfl
@[simp] theorem set_nzcv (s : Cpu) (r : BitVec 4) (v : BitVec 32) : (s.set r v).nzcv = s.nzcv := rfl
@[simp] theorem set_pc (s : Cpu) (r : BitVec 4) (v : BitVec 32) : (s.set r v).pc = s.pc := rfl
@[simp] theorem set_thumb (s : Cpu) (r : BitVec 4) (v : BitVec 32) :
    (s.set r v).thumb = s.thumb := rfl
@[simp] theorem set_mem (s : Cpu) (r : BitVec 4) (v : BitVec 32) : (s.set r v).mem = s.mem := rfl

@[simp] theorem set_r_same (s : Cpu) (r : BitVec 4) (v : BitVec 32) : (s.set r v).r r = v := by
  simp [Cpu.set]

theorem skip_pc {s : Cpu} (ha32 : s.thumb = false) : s.skip.pc = s.pc + 4#32 := by
  simp [Cpu.skip, ha32]

theorem writePc_r {s t : Cpu} {v : BitVec 32} (h : s.writePc v = some t) : t.r = s.r := by
  unfold Cpu.writePc at h
  split at h
  · cases h; rfl
  · split at h
    · cases h
    · cases h; rfl

theorem exec_blx_links {s t : Cpu} {f : StepEnd} {rm : BitVec 4}
    (h : exec s (.blx 14#4 rm) = some (f, t)) : f = .branch ∧ t.r 14#4 = s.pc + 4 := by
  have halways : s.nzcv.holds 14#4 = true := s.nzcv.holds_always 14#4 (by decide)
  simp only [exec, Insn.condition, halways, if_true, perform, Option.map_eq_some_iff] at h
  obtain ⟨t', hwrite, heq⟩ := h
  cases heq
  exact ⟨rfl, by rw [writePc_r hwrite, set_r_same]⟩

end AsmKit.Isa.A32
