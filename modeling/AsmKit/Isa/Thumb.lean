import AsmKit.Isa.A32

/-!
# The branches that only Thumb has

`tbb` and `tbh` branch forward by twice an entry of a table of bytes or halfwords, `cbz` and `cbnz`
branch when a low register is zero or not.
-/

namespace AsmKit.Isa.A32

open LittleEndian SignedField

/-! ## Table branches -/

structure TableBranch where
  half : Bool
  rn : BitVec 4
  rm : BitVec 4
deriving DecidableEq, Repr

/-- The word of the two halfwords, the first on top. -/
def decodeTableBranch (w : BitVec 32) : Option TableBranch :=
  if w &&& 0xfff0ffe0 = 0xe8d0f000 then some ⟨w.getLsbD 4, field 4 16 w, field 4 0 w⟩ else none

namespace TableBranch

variable (t : TableBranch) (s : Cpu)

/-- An index into halfwords counts twice. -/
def entryAddress : BitVec 32 :=
  s.get t.rn + if t.half then s.get t.rm <<< 1 else s.get t.rm

def entry : BitVec 32 :=
  if t.half then (readWord 16 s.mem (t.entryAddress s) 2).setWidth 32
  else (s.mem (t.entryAddress s)).setWidth 32

/-- Where the branch goes. It stays in Thumb, as the low bit says. -/
def target : BitVec 32 := (s.readPc + 2 * t.entry s) ||| 1

end TableBranch

/-! ## Compare and branch -/

structure CompareBranch where
  nonzero : Bool
  rn : BitVec 3
deriving DecidableEq, Repr

def decodeCompareBranch (h : BitVec 16) : Option CompareBranch :=
  if h &&& 0xf500 = 0xb100 then some ⟨h.getLsbD 11, field 3 0 h⟩ else none

def CompareBranch.taken (t : CompareBranch) (s : Cpu) : Bool :=
  (s.get (t.rn.setWidth 4) == 0) ^^ t.nonzero

end AsmKit.Isa.A32
