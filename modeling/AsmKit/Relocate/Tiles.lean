import AsmKit.Decode.Errors
import AsmKit.Decode.Layout
import AsmKit.Lib.Tiling
import AsmKit.Relocate.Forms
import AsmKit.Relocate.Loop
import Mathlib.Data.BitVec

/-!
# The records of a relocated prologue tile both sides

The records of a relocation lie one behind the other in the original code and in the trampoline. The
trampoline side always holds. The original side needs the block decoder to have written every record
it hands on.
-/

namespace AsmKit

open Labelled Tiling

/-! ## The trampoline under construction -/

/-- What every step of the loop keeps. -/
structure Trampoline.Laid (relocatedAddress : BitVec 64) (capacity : Nat) (t : Trampoline) : Prop where
  stored : t.code.length = t.offset
  room : t.offset ≤ capacity
  offsets : Tiled (·.relocatedOffset) (·.relocatedSize) 0 t.result.relocatedInsts
  total : (t.result.relocatedInsts.map (·.relocatedSize)).sum = t.offset
  addresses : ∀ r ∈ t.result.relocatedInsts,
    r.relocatedAddress = relocatedAddress + BitVec.ofNat 64 r.relocatedOffset

variable {engine : Engine} {options : RelocateOptions} {relocatedAddress : BitVec 64} {capacity : Nat}
  {inst : Inst} {insts : List Inst} {t t' : Trampoline} {out : RelocateOut}

theorem laid_nil : Trampoline.Laid relocatedAddress capacity {} :=
  ⟨rfl, Nat.zero_le capacity, trivial, rfl, by simp⟩

theorem Trampoline.Laid.emit (engine : Engine) (h : t.Laid relocatedAddress capacity)
    (hinst : inst.bytes.length = inst.size) :
    t.code.length + (t.emit engine relocatedAddress capacity inst).code.length ≤ capacity ∧
      ((t.emit engine relocatedAddress capacity inst).status = .ok →
        (t.emit engine relocatedAddress capacity inst).code.length =
          (t.emit engine relocatedAddress capacity inst).result.size) := by
  have hsteady : Steady (relocateInst engine inst (relocatedAddress + BitVec.ofNat 64 t.offset)) :=
    relocateInst_steady hinst
  obtain ⟨hcode, hsize⟩ := hsteady.stored (capacity - t.offset)
  have hstored := h.stored
  have hroom := h.room
  exact ⟨by rw [Trampoline.emit]; omega, hsize⟩

theorem Trampoline.Laid.step (h : t.Laid relocatedAddress capacity)
    (hinst : inst.bytes.length = inst.size)
    (hstep : t.Step engine options relocatedAddress capacity inst t') :
    t'.Laid relocatedAddress capacity := by
  obtain ⟨hok, -, sem, -, rfl⟩ := hstep
  obtain ⟨hroom, hsize⟩ := h.emit engine hinst
  have hsize := hsize hok
  constructor
  · simp only [Trampoline.push, List.length_append, h.stored, hsize]
  · have hstored := h.stored
    simp only [Trampoline.push]
    omega
  · refine tiled_append_singleton.2 ⟨h.offsets, ?_⟩
    simp only [RelocateResult.addHazards, h.total, Nat.zero_add]
  · simp only [Trampoline.push, RelocateResult.addClobbers, RelocateResult.addHazards, List.map_append,
      List.map_cons, List.map_nil, List.sum_append, List.sum_singleton, h.total]
  · intro r hr
    rcases List.mem_append.1 hr with hr | hr
    · exact h.addresses r hr
    · rw [List.mem_singleton.1 hr]

theorem Trampoline.Laid.run (hinsts : ∀ inst ∈ insts, inst.bytes.length = inst.size)
    (hrun : Run (Trampoline.Step engine options relocatedAddress capacity) t insts t')
    (h : t.Laid relocatedAddress capacity) : t'.Laid relocatedAddress capacity := by
  induction hrun with
  | nil => exact h
  | cons hstep _ ih =>
    rw [List.forall_mem_cons] at hinsts
    exact ih hinsts.2 (h.step hinsts.1 hstep)

theorem Trampoline.Laid.stops (h : t.Laid relocatedAddress capacity)
    (hinst : inst.bytes.length = inst.size)
    (hstop : t.Stops engine options relocatedAddress capacity inst out) : out.code.length ≤ capacity := by
  have hroom := (h.emit engine hinst).1
  cases hstop with
  | analysis => exact h.stored ▸ h.room
  | emit => rwa [List.length_append]
  | clobber => rwa [List.length_append]

theorem run_originals
    (hrun : Run (Trampoline.Step engine options relocatedAddress capacity) t insts t') :
    t'.result.relocatedInsts.map (fun r => (r.originalAddress, r.originalSize)) =
      t.result.relocatedInsts.map (fun r => (r.originalAddress, r.originalSize)) ++
        insts.map fun inst => (inst.address, inst.size) := by
  induction hrun with
  | nil => simp
  | cons hstep _ ih =>
    obtain ⟨-, -, sem, -, rfl⟩ := hstep
    rw [ih]
    simp [Trampoline.push, RelocateResult.addClobbers, RelocateResult.addHazards]

/-! ## The original side -/

theorem sum_ofNat (l : List Inst) :
    (l.map fun inst => BitVec.ofNat 64 inst.size).sum = BitVec.ofNat 64 (l.map (·.size)).sum := by
  induction l with
  | nil => rfl
  | cons inst l ih => simp [ih, BitVec.ofNat_add]

section

variable (tables : Tables) (engine : Engine) (code : List Byte) (originalAddress : BitVec 64)
  (priors : Nat → Inst)

/-- Where the block decoder leaves a record as it was, the record happens to have the address. -/
def KeepsAddresses (block : Block) : Prop :=
  ∀ k < block.insts.length, leavesRecord tables engine (code.drop (offsetOf block.insts k)) = true →
    (priors k).address = originalAddress + BitVec.ofNat 64 (offsetOf block.insts k)

end

variable {tables : Tables} {code : List Byte} {originalAddress : BitVec 64} {priors : Nat → Inst}
  {block : Block}

theorem tiled_insts_iff (hbpf : engine.target.arch ≠ .bpf) (hwasm : engine.target.arch ≠ .wasm)
    (hdecoded : Decoded tables engine code originalAddress priors block) :
    Tiled (·.address) (fun inst => BitVec.ofNat 64 inst.size) originalAddress block.insts ↔
      KeepsAddresses tables engine code originalAddress priors block := by
  rw [tiled_iff_getElem?]
  constructor
  · intro h k hk hleft
    have hat := hdecoded.each k _ (List.getElem?_eq_getElem hk)
    have haddress := hat.address_eq hbpf hwasm
    rw [if_pos hleft, h k _ (List.getElem?_eq_getElem hk), sum_ofNat] at haddress
    exact haddress.symm
  · intro h k inst hinst
    have hat := hdecoded.each k inst hinst
    have hk := (List.getElem?_eq_some_iff.1 hinst).1
    rw [hat.address_eq hbpf hwasm, sum_ofNat]
    split
    · next hleft => exact h k hk hleft
    · rfl

/-! ## The whole relocation -/

section

variable (tables : Tables) (engine : Engine) (code : List Byte)
  (originalAddress relocatedAddress : BitVec 64) (options : RelocateOptions) (capacity : Nat)
  (priors : Nat → Inst)

/-- What a successful relocation reports. `out.code` are the bytes it stored, from the start of the
output on. -/
structure Tiles (out : RelocateOut) : Prop where
  originals : Tiled (·.originalAddress) (fun r => BitVec.ofNat 64 r.originalSize) originalAddress
    out.result.relocatedInsts
  overwritten : (out.result.relocatedInsts.map (·.originalSize)).sum = out.result.overwrittenSize
  offsets : Tiled (·.relocatedOffset) (·.relocatedSize) 0 out.result.relocatedInsts
  jumpBack : (out.result.relocatedInsts.map (·.relocatedSize)).sum = out.result.jumpBackOffset
  addresses : ∀ r ∈ out.result.relocatedInsts,
    r.relocatedAddress = relocatedAddress + BitVec.ofNat 64 r.relocatedOffset
  size : out.result.relocatedSize = out.result.jumpBackOffset + out.result.jumpBackSize
  room : out.result.relocatedSize ≤ capacity
  minimum : max 1 options.minOverwriteSize ≤ out.result.overwrittenSize
  count : out.result.relocatedInsts.length ≤ maxBlockInstructions
  stored : out.code.length = out.result.relocatedSize

/-- What every run keeps to: nothing is stored behind the capacity, and the offset that is taken
from the capacity is never over it. -/
structure Contained : Prop where
  stored : (relocatePrologue tables engine code originalAddress relocatedAddress options capacity
    priors).code.length ≤ capacity
  remaining : ∀ block, decodeBlockUntil tables engine code originalAddress
      (max options.minOverwriteSize 1) maxBlockInstructions priors = .ok block →
    ∀ n t, relocateInsts engine options relocatedAddress capacity (block.insts.take n) {} = .ok t →
      t.offset ≤ capacity

/-- The block decoder writes every record it hands on, or the record has the address already. -/
def KeepsRecords : Prop :=
  ∀ block, decodeBlockUntil tables engine code originalAddress (max options.minOverwriteSize 1)
      maxBlockInstructions priors = .ok block →
    KeepsAddresses tables engine code originalAddress priors block

end

theorem isNative_arch (h : isNative engine = true) :
    engine.target.arch ≠ .bpf ∧ engine.target.arch ≠ .wasm := by
  rw [engine.target_arch]
  simpa [isNative] using h

theorem appendJumpBack_stored (engine : Engine) (options : RelocateOptions)
    (h : t.Laid relocatedAddress capacity) (continuation : BitVec 64) :
    t.code.length + (emitJump engine (relocatedAddress + BitVec.ofNat 64 t.offset) continuation
        (some options.jumpOptions) (capacity - t.offset)).code.length ≤ capacity ∧
      ((emitJump engine (relocatedAddress + BitVec.ofNat 64 t.offset) continuation
          (some options.jumpOptions) (capacity - t.offset)).status = .ok →
        (emitJump engine (relocatedAddress + BitVec.ofNat 64 t.offset) continuation
            (some options.jumpOptions) (capacity - t.offset)).code.length =
          (emitJump engine (relocatedAddress + BitVec.ofNat 64 t.offset) continuation
            (some options.jumpOptions) (capacity - t.offset)).result.size) := by
  have hsteady : Steady (emitJump engine (relocatedAddress + BitVec.ofNat 64 t.offset) continuation
      (some options.jumpOptions)) := emitJump_steady
  obtain ⟨hcode, hsize⟩ := hsteady.stored (capacity - t.offset)
  have hstored := h.stored
  have hroom := h.room
  exact ⟨by omega, hsize⟩

theorem appendJumpBack_code (h : t.Laid relocatedAddress capacity) :
    (appendJumpBack engine options originalAddress relocatedAddress capacity block t).code.length ≤
      capacity := by
  have hroom := (appendJumpBack_stored engine options h options.continuationAddress).1
  unfold appendJumpBack
  simp only
  split <;> rwa [List.length_append]

theorem appendJumpBack_of_ok
    (hok : (appendJumpBack engine options originalAddress relocatedAddress capacity block t).status =
      .ok) :
    let emit := emitJump engine (relocatedAddress + BitVec.ofNat 64 t.offset)
      options.continuationAddress (some options.jumpOptions) (capacity - t.offset)
    emit.status = .ok ∧
      appendJumpBack engine options originalAddress relocatedAddress capacity block t =
        { status := .ok, code := t.code ++ emit.code
          result := { { t.result with jumpBackOffset := t.offset }.addClobbers emit.result with
            overwrittenSize := block.totalSize, originalAddress
            continuationAddress := options.continuationAddress, relocatedAddress
            jumpBackSize := emit.result.size, relocatedSize := t.offset + emit.result.size } } := by
  unfold appendJumpBack at hok ⊢
  simp only at hok ⊢
  split at hok
  · next hstatus => exact absurd hok hstatus
  · next hstatus =>
    rw [if_neg hstatus]
    exact ⟨not_not.1 hstatus, rfl⟩

theorem tiled_originals {records : List RelocatedInst} {base : BitVec 64}
    (h : records.map (fun r => (r.originalAddress, r.originalSize)) =
      insts.map fun inst => (inst.address, inst.size)) :
    Tiled (·.originalAddress) (fun r => BitVec.ofNat 64 r.originalSize) base records ↔
      Tiled (·.address) (fun inst => BitVec.ofNat 64 inst.size) base insts := by
  have hrecords : Tiled Prod.fst (fun p : BitVec 64 × Nat => BitVec.ofNat 64 p.2) base
      (records.map fun r => (r.originalAddress, r.originalSize)) ↔
      Tiled (·.originalAddress) (fun r => BitVec.ofNat 64 r.originalSize) base records :=
    tiled_map (fun _ _ => rfl) (fun _ _ => rfl)
  rw [← hrecords, h]
  exact tiled_map (fun _ _ => rfl) (fun _ _ => rfl)

theorem appendJumpBack_tiles_iff (hbpf : engine.target.arch ≠ .bpf) (hwasm : engine.target.arch ≠ .wasm)
    (hdecoded : Decoded tables engine code originalAddress priors block)
    (hcount : block.insts.length ≤ maxBlockInstructions)
    (hminimum : max options.minOverwriteSize 1 ≤ block.totalSize)
    (hinsts : ∀ inst ∈ block.insts, inst.bytes.length = inst.size)
    (hrun : Run (Trampoline.Step engine options relocatedAddress capacity) {} block.insts t)
    (hok : (appendJumpBack engine options originalAddress relocatedAddress capacity block t).status =
      .ok) :
    Tiles originalAddress relocatedAddress options capacity
        (appendJumpBack engine options originalAddress relocatedAddress capacity block t) ↔
      KeepsAddresses tables engine code originalAddress priors block := by
  have hlaid : t.Laid relocatedAddress capacity := laid_nil.run hinsts hrun
  have horiginals : t.result.relocatedInsts.map (fun r => (r.originalAddress, r.originalSize)) =
      block.insts.map fun inst => (inst.address, inst.size) := run_originals hrun
  obtain ⟨hemit, heq⟩ := appendJumpBack_of_ok hok
  obtain ⟨hroom, hsize⟩ := appendJumpBack_stored engine options hlaid options.continuationAddress
  have hsize := hsize hemit
  rw [← tiled_insts_iff hbpf hwasm hdecoded, ← tiled_originals horiginals, heq]
  have hsizes := congrArg (List.map Prod.snd) horiginals
  rw [List.map_map, List.map_map] at hsizes
  have hlength := congrArg List.length horiginals
  rw [List.length_map, List.length_map] at hlength
  constructor
  · exact fun h => h.originals
  · intro h
    refine ⟨h, ?_, hlaid.offsets, hlaid.total, hlaid.addresses, rfl, ?_, ?_, ?_, ?_⟩
    · exact (congrArg List.sum hsizes).trans hdecoded.total.symm
    · have hstored := hlaid.stored
      dsimp only
      omega
    · rw [max_comm]
      exact hminimum
    · exact hlength ▸ hcount
    · dsimp only
      rw [List.length_append, hlaid.stored, hsize]

theorem Decoded.bytes_length (hbpf : engine.target.arch ≠ .bpf) (hwasm : engine.target.arch ≠ .wasm)
    (h : Decoded tables engine code originalAddress priors block)
    (hpriors : ∀ k, (priors k).bytes.length = (priors k).size) :
    ∀ inst ∈ block.insts, inst.bytes.length = inst.size := by
  intro inst hinst
  obtain ⟨k, hk⟩ := List.mem_iff_getElem?.1 hinst
  exact (h.each k inst hk).bytes_length hbpf hwasm (hpriors k)

theorem not_step_of_not_native (h : ¬ isNative engine = true) :
    ¬ t.Step engine options relocatedAddress capacity inst t' := by
  rintro ⟨hok, -, -⟩
  have harch : engine.target.arch = .bpf ∨ engine.target.arch = .wasm := by
    rw [engine.target_arch]
    simpa [isNative, or_iff_not_imp_left] using h
  rcases harch with harch | harch
  all_goals
    rw [Trampoline.emit, relocateInst, harch] at hok
    cases hok

theorem relocatePrologue_contained (hpriors : ∀ k, (priors k).bytes.length = (priors k).size) :
    Contained tables engine code originalAddress relocatedAddress options capacity priors := by
  constructor
  · unfold relocatePrologue
    by_cases hnative : isNative engine = true
    swap
    · rw [if_pos hnative]
      exact Nat.zero_le capacity
    rw [if_neg (not_not_intro hnative)]
    obtain ⟨hbpf, hwasm⟩ := isNative_arch hnative
    split
    · exact Nat.zero_le capacity
    next block hblock =>
    have hinsts := (decodeBlockUntil_decoded hblock).1.bytes_length hbpf hwasm hpriors
    split
    · next out hloop =>
      obtain ⟨done, inst, rest, u, hsplit, hrun, hstop⟩ := relocateInsts_error_iff.1 hloop
      rw [hsplit] at hinsts
      have hlaid : u.Laid relocatedAddress capacity :=
        laid_nil.run (fun inst h => hinsts inst (by simp [h])) hrun
      exact hlaid.stops (hinsts inst (by simp)) hstop
    · next t hloop =>
      exact appendJumpBack_code (laid_nil.run hinsts (relocateInsts_ok_iff.1 hloop))
  · intro block hblock n t hloop
    have hrun := relocateInsts_ok_iff.1 hloop
    by_cases hnative : isNative engine = true
    · obtain ⟨hbpf, hwasm⟩ := isNative_arch hnative
      have hinsts := (decodeBlockUntil_decoded hblock).1.bytes_length hbpf hwasm hpriors
      exact (laid_nil.run (fun inst h => hinsts inst (List.mem_of_mem_take h)) hrun).room
    · generalize block.insts.take n = insts at hrun
      cases hrun with
      | nil => exact Nat.zero_le capacity
      | cons hstep _ => exact absurd hstep (not_step_of_not_native hnative)

theorem analyzeInst_ne_error {status : Status} : analyzeInst engine inst ≠ .error status := by
  unfold analyzeInst
  split <;> nofun

theorem Trampoline.Stops.status_ne_ok
    (h : t.Stops engine options relocatedAddress capacity inst out) : out.status ≠ .ok := by
  cases h with
  | analysis hsem => exact absurd hsem analyzeInst_ne_error
  | emit hsem hstatus => exact hstatus
  | clobber => nofun

/-- A relocation that succeeds comes from a block, a run of the loop over it, and a jump back. -/
theorem relocatePrologue_of_ok
    (hok : (relocatePrologue tables engine code originalAddress relocatedAddress options capacity
      priors).status = .ok) :
    isNative engine = true ∧ ∃ block t,
      decodeBlockUntil tables engine code originalAddress (max options.minOverwriteSize 1)
        maxBlockInstructions priors = .ok block ∧
      Run (Trampoline.Step engine options relocatedAddress capacity) {} block.insts t ∧
      relocatePrologue tables engine code originalAddress relocatedAddress options capacity priors =
        appendJumpBack engine options originalAddress relocatedAddress capacity block t := by
  unfold relocatePrologue at hok ⊢
  by_cases hnative : isNative engine = true
  swap
  · rw [if_pos hnative] at hok
    cases hok
  rw [if_neg (not_not_intro hnative)] at hok ⊢
  refine ⟨hnative, ?_⟩
  cases hblock : decodeBlockUntil tables engine code originalAddress (max options.minOverwriteSize 1)
      maxBlockInstructions priors with
  | error status =>
    rw [hblock] at hok
    obtain ⟨hbpf, hwasm⟩ := isNative_arch hnative
    have hloud : FailsLoudly (.error status) :=
      hblock ▸ decodeBlockUntil_failsLoudly hbpf hwasm _ _ priors
    exact absurd hok hloud.status_ne_ok
  | ok block =>
    rw [hblock] at hok
    simp only at hok ⊢
    cases hloop : relocateInsts engine options relocatedAddress capacity block.insts {} with
    | error out =>
      rw [hloop] at hok
      obtain ⟨done, inst, rest, u, -, -, hstop⟩ := relocateInsts_error_iff.1 hloop
      exact absurd hok hstop.status_ne_ok
    | ok t => exact ⟨block, t, rfl, relocateInsts_ok_iff.1 hloop, rfl⟩

/-- Nothing is ever stored outside the output, and the trampoline of a success is tiled. The
original code is tiled too, just when every record handed on has the address it was decoded at. -/
theorem relocatePrologue_tiles_iff (hpriors : ∀ k, (priors k).bytes.length = (priors k).size) :
    Contained tables engine code originalAddress relocatedAddress options capacity priors ∧
    ((relocatePrologue tables engine code originalAddress relocatedAddress options capacity
        priors).status = .ok →
      (Tiles originalAddress relocatedAddress options capacity
          (relocatePrologue tables engine code originalAddress relocatedAddress options capacity
            priors) ↔
        KeepsRecords tables engine code originalAddress options priors)) := by
  refine ⟨relocatePrologue_contained hpriors, fun hok => ?_⟩
  obtain ⟨hnative, block, t, hblock, hrun, heq⟩ := relocatePrologue_of_ok hok
  obtain ⟨hbpf, hwasm⟩ := isNative_arch hnative
  obtain ⟨hdecoded, hcount, hminimum⟩ := decodeBlockUntil_decoded hblock
  rw [heq] at hok ⊢
  rw [appendJumpBack_tiles_iff hbpf hwasm hdecoded (hcount.trans (min_le_right _ _)) hminimum
    (hdecoded.bytes_length hbpf hwasm hpriors) hrun hok]
  constructor
  · intro hkeeps other hother
    cases hblock.symm.trans hother
    exact hkeeps
  · exact fun hkeeps => hkeeps block hblock

/-- What a relocation of a `nop` at `0x1000` leaves in the array. -/
def nopRecord : Inst :=
  { arch := .x86, mode := .x86_64, id := X86.Id.nop, mnemonicId := X86.Mnemonic.nop, instClass := .nop
    address := 0x1000, size := 1, bytes := [0x90] }

/-- `nop`, a short `je`, `call` and `nop`. -/
def straightCode : List Byte := [0x90, 0x74, 0x10, 0xe8, 0x00, 0x01, 0x00, 0x00, 0x90]

def straightBlock : Block :=
  (decodeBlockUntil noTables x86Engine64 straightCode 0x2000 9 maxBlockInstructions
    fun _ => nopRecord).toOption.getD {}

theorem relocatePrologue_tiles_straight :
    straightBlock.insts.map (·.size) = [1, 2, 5, 1] ∧
    Contained noTables x86Engine64 straightCode 0x2000 0x3000
      { minOverwriteSize := 9, continuationAddress := 0x2009 } 64 (fun _ => nopRecord) ∧
    Tiles 0x2000 0x3000 { minOverwriteSize := 9, continuationAddress := 0x2009 } 64
      (relocatePrologue noTables x86Engine64 straightCode 0x2000 0x3000
        { minOverwriteSize := 9, continuationAddress := 0x2009 } 64 fun _ => nopRecord) := by
  have hpriors : ∀ k, ((fun _ : Nat => nopRecord) k).bytes.length = ((fun _ => nopRecord) k).size :=
    fun _ => rfl
  have hdec : decodeBlockUntil noTables x86Engine64 straightCode 0x2000 (max 9 1) maxBlockInstructions
      (fun _ => nopRecord) = .ok straightBlock := by decide
  have hkeeps : KeepsAddresses noTables x86Engine64 straightCode 0x2000 (fun _ => nopRecord)
      straightBlock := by
    unfold KeepsAddresses
    decide
  refine ⟨by decide, (relocatePrologue_tiles_iff hpriors).1,
    ((relocatePrologue_tiles_iff hpriors).2 (by decide)).2 fun block hblock => ?_⟩
  cases hdec.symm.trans hblock
  exact hkeeps

/-- Eleven prefixes before `call`: the call is accepted, and what is relocated is the instruction
the array held. -/
theorem relocatePrologue_not_tiles :
    ∃ (tables : Tables) (engine : Engine) (code : List Byte)
      (originalAddress relocatedAddress : BitVec 64) (options : RelocateOptions) (capacity : Nat)
      (priors : Nat → Inst),
      (∀ k, (priors k).bytes.length = (priors k).size) ∧
      (relocatePrologue tables engine code originalAddress relocatedAddress options capacity
        priors).status = .ok ∧
      ¬ Tiles originalAddress relocatedAddress options capacity
        (relocatePrologue tables engine code originalAddress relocatedAddress options capacity
          priors) := by
  refine ⟨noTables, x86Engine64, List.replicate 11 0x66 ++ [0xe8, 0, 0, 0, 0], 0x2000, 0x3000,
    { minOverwriteSize := 1, continuationAddress := 0x2010 }, 64, fun _ => nopRecord, fun _ => rfl,
    by decide, fun h => ?_⟩
  have horiginal := tiled_iff_getElem?.1 h.originals 0 _ rfl
  exact absurd horiginal (by decide)

end AsmKit
