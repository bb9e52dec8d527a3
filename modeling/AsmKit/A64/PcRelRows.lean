import AsmKit.A64.Decode
import AsmKit.Isa.A64PcRel
import AsmKit.Lib.Pattern

/-!
# The rows of the pc-relative words

The rows of the generated tables for the words that name an address relative to the pc, and what
the decoder makes of them.
-/

namespace AsmKit.A64

open SignedField BitPattern
open Isa.A64 (OffsetKind offsetKind)

/-! ## The rows -/

/-- `n` bits of an operand from bit `src` on, kept in the word from bit `dst` on. -/
def pieceRun (operandIndex src dst n : Nat) : List Piece :=
  (List.range n).map fun i => ⟨operandIndex, src + i, dst + i⟩

def pcRelDesc (operandIndex : Nat) : OffsetKind → OperandDesc
  | .imm26 =>
    { operandIndex, kind := .pcRel, width := 26, transform := .pcRelWords4, sourceMask := 0x03ffffff }
  | .imm19 =>
    { operandIndex, kind := .pcRel, width := 19, transform := .pcRelWords4, sourceMask := 0x0007ffff }
  | .imm14 =>
    { operandIndex, kind := .pcRel, width := 14, transform := .pcRelWords4, sourceMask := 0x00003fff }
  | .adr =>
    { operandIndex, kind := .pcRel, width := 21, transform := .pcRelAdr, sourceMask := 0x001fffff }
  | .adrp =>
    { operandIndex, kind := .pcRel, width := 21, transform := .pcRelAdrp, sourceMask := 0x001fffff }

def pcRelPieces (operandIndex : Nat) : OffsetKind → List Piece
  | .imm26 => pieceRun operandIndex 0 0 26
  | .imm19 => pieceRun operandIndex 0 5 19
  | .imm14 => pieceRun operandIndex 0 5 14
  | .adr | .adrp => pieceRun operandIndex 2 5 19 ++ pieceRun operandIndex 0 29 2

/-- A row whose last operand is the offset. `before` and `after` are the pieces of the others. -/
structure PcRelRow where
  kind : OffsetKind
  id : Nat
  mnemonicId : Nat
  mask : BitVec 32
  value : BitVec 32
  fixedBits : Nat
  lead : List OperandDesc
  before : List Piece
  after : List Piece := []
  featureBits : Vector (BitVec 64) 8 := .replicate 8 0
  instClass : InstClass
  flags : BitVec 32
deriving DecidableEq, Repr

def PcRelRow.record (row : PcRelRow) : Record :=
  { id := row.id, mnemonicId := row.mnemonicId, mask := row.mask, value := row.value
    fixedBits := row.fixedBits, instClass := row.instClass, flags := row.flags
    featureBits := row.featureBits
    descs := row.lead ++ [pcRelDesc row.lead.length row.kind]
    pieces := row.before ++ pcRelPieces row.lead.length row.kind ++ row.after }

def branchRow (id mnemonicId : Nat) (value : BitVec 32) (instClass : InstClass) (flags : BitVec 32) :
    PcRelRow :=
  { kind := .imm26, id, mnemonicId, mask := 0xfc000000, value, fixedBits := 6, lead := []
    before := [], instClass, flags := flags ||| InstFlag.direct ||| InstFlag.pcRelative }

def condFlags : BitVec 32 :=
  InstFlag.direct ||| InstFlag.terminator ||| InstFlag.conditional ||| InstFlag.pcRelative

def bCondRow : PcRelRow :=
  { kind := .imm19, id := 65999, mnemonicId := Mnemonic.b, mask := 0xff000010, value := 0x54000000
    fixedBits := 9, lead := [{ operandIndex := 0, kind := .imm, width := 32, sourceMask := 0xf }]
    before := pieceRun 0 0 0 4, instClass := .condBranch, flags := condFlags }

def regDesc (regClass : RegClass) (width : Nat) : OperandDesc :=
  { operandIndex := 0, kind := .reg, width, regClass, sourceMask := 0x1f }

def compareRow (id mnemonicId : Nat) (value : BitVec 32) (width : Nat) : PcRelRow :=
  { kind := .imm19, id, mnemonicId, mask := 0xff000000, value, fixedBits := 8
    lead := [regDesc .gpr width], before := pieceRun 0 0 0 5, instClass := .condBranch
    flags := condFlags }

/-- The bit number of the 64-bit form is 32 and more. -/
def testRow (id mnemonicId : Nat) (value : BitVec 32) (width : Nat) : PcRelRow :=
  let bit : OperandDesc :=
    if width = 64 then
      { operandIndex := 1, kind := .imm, width := 32, transform := .rawUnsignedOffset
        sourceMask := 0x1f, literalValue := 0x20 }
    else { operandIndex := 1, kind := .imm, width := 5, sourceMask := 0x1f }
  { kind := .imm14, id, mnemonicId, mask := 0xff000000, value, fixedBits := 8
    lead := [regDesc .gpr width, bit], before := pieceRun 0 0 0 5, after := pieceRun 1 0 19 5
    instClass := .condBranch, flags := condFlags }

def literalRow (id mnemonicId : Nat) (value : BitVec 32) (lead : OperandDesc) (instClass : InstClass)
    (features : BitVec 64) : PcRelRow :=
  { kind := .imm19, id, mnemonicId, mask := 0xff000000, value, fixedBits := 8, lead := [lead]
    before := pieceRun 0 0 0 5, instClass, flags := InstFlag.pcRelative
    featureBits := (Vector.replicate 8 0).set 0 features }

def adrRow (kind : OffsetKind) (id mnemonicId : Nat) (value : BitVec 32) : PcRelRow :=
  { kind, id, mnemonicId, mask := 0x9f000000, value, fixedBits := 6, lead := [regDesc .gpr 64]
    before := pieceRun 0 0 0 5, instClass := .other, flags := InstFlag.pcRelative }

/-- The feature the literal loads of SIMD registers ask for. -/
def featureFp : BitVec 64 := 0x0000200000000000

def prfmDesc : OperandDesc := { operandIndex := 0, kind := .opaque_, width := 5, sourceMask := 0x1f }

def pcRelRows : List PcRelRow :=
  [bCondRow,
    compareRow 66072 Mnemonic.cbnz 0x35000000 32,
    compareRow 66073 Mnemonic.cbnz 0xb5000000 64,
    compareRow 66074 Mnemonic.cbz 0x34000000 32,
    compareRow 66075 Mnemonic.cbz 0xb4000000 64,
    literalRow 68934 Mnemonic.ldr 0x5c000000 (regDesc .simd 64) .load featureFp,
    literalRow 68950 Mnemonic.ldr 0x9c000000 (regDesc .simd 128) .load featureFp,
    literalRow 68976 Mnemonic.ldrsw 0x98000000 (regDesc .gpr 64) .load 0,
    literalRow 68982 Mnemonic.ldr 0x1c000000 (regDesc .simd 32) .load featureFp,
    literalRow 68988 Mnemonic.ldr 0x18000000 (regDesc .gpr 32) .load 0,
    literalRow 68994 Mnemonic.ldr 0x58000000 (regDesc .gpr 64) .load 0,
    literalRow 69579 Mnemonic.prfm 0xd8000000 prfmDesc .other 0,
    testRow 71773 Mnemonic.tbnz 0x37000000 32,
    testRow 71774 Mnemonic.tbnz 0xb7000000 64,
    testRow 71791 Mnemonic.tbz 0x36000000 32,
    testRow 71792 Mnemonic.tbz 0xb6000000 64,
    adrRow .adr 65669 Mnemonic.adr 0x10000000,
    adrRow .adrp 65670 Mnemonic.adrp 0x90000000,
    branchRow 65779 Mnemonic.b 0x14000000 .directBranch InstFlag.terminator,
    branchRow 65966 Mnemonic.bl 0x94000000 .directCall InstFlag.call]

/-- The tables hold these rows, and no other row matches their words. -/
def PcRelRows (tables : Tables) : Prop :=
  ∀ row ∈ pcRelRows, ∀ w, w &&& row.mask = row.value →
    ∃ i, (tables.candidates w).filter (fun c => w &&& c.2.mask == c.2.value) = [(i, row.record)]

/-! ## Every pc-relative word has a row -/

theorem row_of_value {w mask value : BitVec 32} (h : w &&& mask = value) (kind : OffsetKind)
    (hrow : pcRelRows.any fun row => row.mask == mask && row.value == value && row.kind == kind) :
    ∃ row ∈ pcRelRows, row.kind = kind ∧ w &&& row.mask = row.value := by
  obtain ⟨row, hmem, hrow⟩ := List.any_eq_true.1 hrow
  simp only [Bool.and_eq_true, beq_iff_eq] at hrow
  obtain ⟨⟨hmask, hvalue⟩, hkind⟩ := hrow
  exact ⟨row, hmem, hkind, by rw [hmask, hvalue, h]⟩

theorem exists_row {w : BitVec 32} {kind : OffsetKind} (h : offsetKind w = some kind) :
    ∃ row ∈ pcRelRows, row.kind = kind ∧ w &&& row.mask = row.value := by
  unfold offsetKind at h
  split at h
  · next hb =>
    cases h
    rcases and_or_twoPow (beq_iff_eq.1 hb) 31 with h | h <;> exact row_of_value h _ (by decide)
  split at h
  · next h19 =>
    cases h
    rw [Bool.or_eq_true, Bool.or_eq_true] at h19
    rcases h19 with (hcond | hcb) | hlit
    · exact row_of_value (beq_iff_eq.1 hcond) _ (by decide)
    · rcases and_or_twoPow (beq_iff_eq.1 hcb) 24 with h | h <;>
        rcases and_or_twoPow h 31 with h | h <;> exact row_of_value h _ (by decide)
    · rw [Isa.A64.isLiteral, Bool.and_eq_true, beq_iff_eq, bne_iff_ne] at hlit
      rcases and_or_twoPow hlit.1 26 with h | h <;> rcases and_or_twoPow h 30 with h | h <;>
        rcases and_or_twoPow h 31 with h | h <;>
        first
          | exact row_of_value h _ (by decide)
          -- The fourth SIMD form has no row.
          | exact absurd h hlit.2
  split at h
  · next htb =>
    cases h
    rcases and_or_twoPow (beq_iff_eq.1 htb) 24 with h | h <;>
      rcases and_or_twoPow h 31 with h | h <;> exact row_of_value h _ (by decide)
  split at h
  · next hadr =>
    cases h
    exact row_of_value (beq_iff_eq.1 hadr) _ (by decide)
  split at h
  · next hadrp =>
    cases h
    exact row_of_value (beq_iff_eq.1 hadrp) _ (by decide)
  · cases h

/-! ## Tables with nothing but the rows -/

def pcRelTables : Tables where
  candidates _ := pcRelRows.map fun row => (row.id, row.record)
  pstateLiterals := []
  hasWritebackBaseFirst _ := false

theorem row_unique {a b : PcRelRow} (ha : a ∈ pcRelRows) (hb : b ∈ pcRelRows) {w : BitVec 32}
    (hwa : w &&& a.mask = a.value) (hwb : w &&& b.mask = b.value) : a = b := by
  have hrows : ∀ a ∈ pcRelRows, ∀ b ∈ pcRelRows,
      a = b ∨ a.mask &&& b.mask &&& (a.value ^^^ b.value) ≠ 0#32 := by decide
  rcases hrows a ha b hb with heq | hdiff
  · exact heq
  · exact absurd hwb (and_ne_of_disjoint hwa hdiff)

theorem pcRelTables_rows : PcRelRows pcRelTables := by
  intro row hmem w hw
  have hnodup : pcRelRows.Nodup := by decide
  have hmatch : ∀ other ∈ pcRelRows, (w &&& other.mask == other.value) = (other == row) := by
    intro other hother
    rw [Bool.eq_iff_iff, beq_iff_eq, beq_iff_eq]
    constructor
    · intro hwo
      exact row_unique hother hmem hwo hw
    · rintro rfl
      exact hw
  have hfilter : pcRelRows.filter (fun other => w &&& other.mask == other.value) = [row] := by
    rw [List.filter_congr hmatch, List.filter_beq, hnodup.count, if_pos hmem]
    rfl
  refine ⟨row.id, ?_⟩
  rw [pcRelTables, List.filter_map]
  exact congrArg (List.map fun row => (row.id, row.record)) hfilter

end AsmKit.A64
