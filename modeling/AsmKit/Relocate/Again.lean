import AsmKit.A64.Elsewhere
import AsmKit.Decode.Prior
import AsmKit.Relocate.Trampoline

/-!
# Trampolines that are moved on

A trampoline for A64 that is built without the scratch register can be relocated in the place of the
prologue it came from: what comes out is the same, byte for byte.
-/

namespace AsmKit

open Labelled SignedField
open Isa.A64 (offsetKind SameOutside)

/-! ## Instructions that move alike -/

/-- Wherever the two instructions are relocated to, the same bytes come out. -/
structure MovesAlike (engine : Engine) (inst inst' : Inst) : Prop where
  flags : inst'.flags = inst.flags
  size : inst'.size = inst.size
  emit : ∀ relocatedAddress capacity,
    relocateInst engine inst' relocatedAddress capacity = relocateInst engine inst relocatedAddress capacity
  hazards : ∃ sem sem', analyzeInst engine inst = .ok sem ∧ analyzeInst engine inst' = .ok sem' ∧
    sem'.hazardFlags = sem.hazardFlags

variable {tables : Tables} {engine : Engine} {code rest : List Byte} {address relocatedAddress : BitVec 64}
  {prior inst : Inst} {capacity : Nat}

theorem movesAlike_aarch64 (harch : engine.target.arch = .aarch64) {inst0 inst1 : Inst}
    (hclass : inst1.instClass = inst0.instClass) (hflags : inst1.flags = inst0.flags)
    (hsize : inst1.size = inst0.size)
    (hfind : inst0.has InstFlag.pcRelative = true →
      (A64.findPcRelOperand inst1).isSome = (A64.findPcRelOperand inst0).isSome)
    (hemit : ∀ relocatedAddress capacity,
      A64.relocate inst1 relocatedAddress capacity = A64.relocate inst0 relocatedAddress capacity) :
    MovesAlike engine (applyOperandMetadata tables inst0) (applyOperandMetadata tables inst1) := by
  refine ⟨hflags, hsize, fun relocatedAddress capacity => ?_, A64.analyze (applyOperandMetadata tables inst0),
    A64.analyze (applyOperandMetadata tables inst1), ?_, ?_, ?_⟩
  · simp only [relocateInst, harch, A64.relocate_metadata]
    exact hemit _ _
  · simp only [analyzeInst, harch]
  · simp only [analyzeInst, harch]
  · refine A64.analyze_hazardFlags_congr hclass hflags fun hflag => ?_
    rw [A64.findPcRelOperand_metadata, A64.findPcRelOperand_metadata, Option.isSome_map, Option.isSome_map]
    exact hfind hflag

/-- The word decodes at the address to an instruction that moves as the given one does. -/
def MovesOn (tables : Tables) (engine : Engine) (w : BitVec 32) (relocatedAddress : BitVec 64) (inst : Inst) :
    Prop :=
  ∀ rest prior, ∃ inst', decodeOne tables engine (store32le w ++ rest) relocatedAddress prior = .ok inst' ∧
    MovesAlike engine inst inst'

theorem movesOn_of_offset (hrows : A64.PcRelRows tables.a64) (harch : engine.target.arch = .aarch64)
    {kind : Isa.A64.OffsetKind} (hkind : offsetKind (load32le code) = some kind)
    (hdec : decodeOne tables engine code address prior = .ok inst) {w' : BitVec 32}
    (hsame : SameOutside kind (load32le code) w')
    (htarget : kind.target w' relocatedAddress = kind.target (load32le code) address) :
    MovesOn tables engine w' relocatedAddress inst := by
  intro rest prior'
  obtain ⟨row, hmem, rfl, hw, hfeatures, inst0, hdecoded, rfl⟩ := decodeOne_pcRel hrows harch hkind hdec
  have hdisjoint : ∀ row ∈ A64.pcRelRows, row.mask &&& ~~~row.kind.fieldMask = row.mask := by decide
  have hw' : w' &&& row.mask = row.value := (hsame.and (hdisjoint row hmem)).trans hw
  have hload := load32le_store32le w' rest
  have hdecoded' := @A64.decodeOne_row tables.a64 engine hrows row hmem (store32le w' ++ rest)
    (by rwa [hload]) (engine.mode_of_aarch64 harch) (by simp) relocatedAddress
  rw [if_pos hfeatures, hload] at hdecoded'
  obtain ⟨inst1, hdec1, hdecoded1⟩ := hdecoded'
  refine ⟨applyOperandMetadata tables inst1, ?_, ?_⟩
  · simp only [decodeOne, targetDecodeOne, harch, hdec1]
    rfl
  · refine movesAlike_aarch64 harch (hdecoded1.instClass.trans hdecoded.instClass.symm)
      (hdecoded1.flags.trans hdecoded.flags.symm) (hdecoded1.size.trans hdecoded.size.symm) (fun _ => ?_)
      fun _ _ => A64.relocate_congr hmem hw hw' hsame htarget hdecoded hdecoded1
    rw [hdecoded.findPcRelOperand hmem, hdecoded1.findPcRelOperand hmem, Option.isSome_some, Option.isSome_some]

theorem movesOn_of_plain (harch : engine.target.arch = .aarch64) {inst0 : Inst}
    (hdec : A64.decodeOne tables.a64 engine code address = .ok inst0)
    (hflag : inst0.has InstFlag.pcRelative = false) (relocatedAddress : BitVec 64) :
    MovesOn tables engine (load32le code) relocatedAddress (applyOperandMetadata tables inst0) := by
  intro rest prior'
  have hcode : (store32le (load32le code) ++ rest).take 4 = code.take 4 := by
    rw [List.take_left' (store32le_length _), A64.take_eq_store32le (A64.length_of_decodeOne hdec)]
  obtain ⟨inst1, hdec1, hform⟩ := A64.decodeOne_elsewhere relocatedAddress hcode hdec
  have hflag1 : inst1.has InstFlag.pcRelative = false := by rw [Inst.has, hform.flags, ← Inst.has, hflag]
  refine ⟨applyOperandMetadata tables inst1, ?_, ?_⟩
  · simp only [decodeOne, targetDecodeOne, harch, hdec1]
    rfl
  · refine movesAlike_aarch64 harch hform.instClass hform.flags hform.size
      (fun h => absurd (h.symm.trans hflag) (by decide)) fun _ _ => ?_
    rw [A64.relocate_of_not_pcRelative hflag, A64.relocate_of_not_pcRelative hflag1, copyInst, copyInst,
      hform.size, hform.bytes]

/-- A word that is relocated without a scratch register can be moved on. -/
theorem relocateInst_movesOn (hrows : A64.OffsetRows tables.a64) (harch : engine.target.arch = .aarch64)
    (haddress : 4 ∣ address.toNat) (hrelocated : 4 ∣ relocatedAddress.toNat)
    (hdec : decodeOne tables engine code address prior = .ok inst)
    (hallocated : load32le code &&& 0xff000000 ≠ 0xdc000000)
    (hok : (relocateInst engine inst relocatedAddress capacity).status = .ok)
    (hclobber : (relocateInst engine inst relocatedAddress capacity).result.clobberMaskLo &&&
      A64.x16Mask = 0) :
    ∃ w', (relocateInst engine inst relocatedAddress capacity).code = store32le w' ∧
      (relocateInst engine inst relocatedAddress capacity).result.size = 4 ∧
      MovesOn tables engine w' relocatedAddress inst := by
  cases hkind : offsetKind (load32le code) with
  | some kind =>
    obtain ⟨w', hcode, hsize, hsame, htarget⟩ :=
      relocateInst_offset hrows.known harch hkind haddress hrelocated hdec hok hclobber
    exact ⟨w', hcode, hsize, movesOn_of_offset hrows.known harch hkind hdec hsame htarget⟩
  | none =>
    obtain ⟨inst0, hdec0, rfl⟩ := decodeOne_aarch64 harch hdec
    have hfrom := A64.decodeOne_fromCode hdec0
    have hout : relocateInst engine (applyOperandMetadata tables inst0) relocatedAddress capacity =
        A64.relocate inst0 relocatedAddress capacity := by
      simp only [relocateInst, harch, A64.relocate_metadata]
    rw [hout] at hok ⊢
    cases hflag : inst0.has InstFlag.pcRelative with
    | true => exact absurd (A64.unallocated_of_relocate hrows hdec0 hflag hkind hok).1 hallocated
    | false =>
      rw [A64.relocate_of_not_pcRelative hflag, copyInst, hfrom.size, hfrom.bytes,
        A64.take_eq_store32le (A64.length_of_decodeOne hdec0)] at hok ⊢
      rw [emitBytes_eq_of_ok hok]
      exact ⟨load32le code, rfl, rfl, movesOn_of_plain harch hdec0 hflag relocatedAddress⟩

theorem relocateInst_self (hrows : A64.OffsetRows tables.a64) (harch : engine.target.arch = .aarch64)
    (hdec : decodeOne tables engine code address prior = .ok inst)
    (hallocated : load32le code &&& 0xff000000 ≠ 0xdc000000)
    (hok : (relocateInst engine inst relocatedAddress capacity).status = .ok) (capacity' : Nat) :
    relocateInst engine inst address capacity' =
      emitBytes { size := 4 } (store32le (load32le code)) capacity' := by
  have hout (inst0 : Inst) (address : BitVec 64) (capacity : Nat) :
      relocateInst engine (applyOperandMetadata tables inst0) address capacity =
        A64.relocate inst0 address capacity := by
    simp only [relocateInst, harch, A64.relocate_metadata]
  cases hkind : offsetKind (load32le code) with
  | some kind =>
    obtain ⟨row, hmem, -, hw, -, inst0, hdecoded, rfl⟩ := decodeOne_pcRel hrows.known harch hkind hdec
    rw [hout, A64.relocate_self hmem hw hdecoded, copyInst, hdecoded.size, hdecoded.bytes]
  | none =>
    obtain ⟨inst0, hdec0, rfl⟩ := decodeOne_aarch64 harch hdec
    have hfrom := A64.decodeOne_fromCode hdec0
    rw [hout] at hok ⊢
    cases hflag : inst0.has InstFlag.pcRelative with
    | true => exact absurd (A64.unallocated_of_relocate hrows hdec0 hflag hkind hok).1 hallocated
    | false =>
      rw [A64.relocate_of_not_pcRelative hflag, copyInst, hfrom.size, hfrom.bytes,
        A64.take_eq_store32le (A64.length_of_decodeOne hdec0)]

/-! ## Blocks that move alike -/

/-- The first `n` words of both pieces of code decode to instructions that move alike. -/
structure WordsMoveAlike (tables : Tables) (engine : Engine) (code code' : List Byte)
    (address address' : BitVec 64) (n : Nat) : Prop where
  room : 4 * n ≤ code.length
  room' : 4 * n ≤ code'.length
  each : ∀ k < n, ∀ prior prior', ∃ inst inst',
    decodeOne tables engine (code.drop (4 * k)) (address + BitVec.ofNat 64 (4 * k)) prior = .ok inst ∧
    decodeOne tables engine (code'.drop (4 * k)) (address' + BitVec.ofNat 64 (4 * k)) prior' = .ok inst' ∧
    inst.size = 4 ∧ MovesAlike engine inst inst'

structure BlocksMoveAlike (engine : Engine) (block block' : Block) : Prop where
  total : block'.totalSize = block.totalSize
  insts : List.Forall₂ (MovesAlike engine) block.insts block'.insts

variable {code' : List Byte} {address' : BitVec 64} {n : Nat} {block block' : Block} {minSize : Nat}
  (priors priors' : Nat → Inst)

theorem BlocksMoveAlike.push {inst' : Inst} (h : BlocksMoveAlike engine block block')
    (hinst : MovesAlike engine inst inst') : BlocksMoveAlike engine (block.push inst) (block'.push inst') := by
  constructor
  · rw [Block.push, Block.push, h.total, hinst.size]
  · exact List.rel_append h.insts (.cons hinst .nil)

theorem decodeBlockLoop_alike (h : WordsMoveAlike tables engine code code' address address' n)
    (hmin : minSize ≤ 4 * n) (fuel : Nat) {k : Nat} (htotal : block.totalSize = 4 * k)
    (hblocks : BlocksMoveAlike engine block block') :
    ∃ b b', decodeBlockLoop tables engine code address minSize priors fuel block = .ok b ∧
      decodeBlockLoop tables engine code' address' minSize priors' fuel block' = .ok b' ∧
      BlocksMoveAlike engine b b' := by
  induction fuel generalizing k block block' with
  | zero => exact ⟨block, block', rfl, rfl, hblocks⟩
  | succ fuel ih =>
    unfold decodeBlockLoop
    simp only [hblocks.total, htotal]
    split
    · exact ⟨block, block', rfl, rfl, hblocks⟩
    next hmore =>
    have hroom := h.room
    have hroom' := h.room'
    obtain ⟨inst, inst', hdec, hdec', hsize, halike⟩ :=
      h.each k (by omega) (priors block.insts.length) (priors' block'.insts.length)
    have hsize' : inst'.size = 4 := halike.size.trans hsize
    have hterminator : inst'.has InstFlag.terminator = inst.has InstFlag.terminator := by
      rw [Inst.has, halike.flags, Inst.has]
    have hnext : (block.push inst).totalSize = 4 * (k + 1) := by
      rw [Block.push, htotal, hsize, Nat.mul_add]
    have hfits : ¬ (4 = 0 ∨ code.length - 4 * k < 4) := by omega
    have hfits' : ¬ (4 = 0 ∨ code'.length - 4 * k < 4) := by omega
    simp only [hdec, hdec', hsize, hsize', hterminator, List.length_drop, if_neg hfits, if_neg hfits']
    split
    · exact ⟨_, _, rfl, rfl, hblocks.push halike⟩
    · exact ih hnext (hblocks.push halike)

theorem decodeBlockUntil_alike (capacity : Nat) (h : WordsMoveAlike tables engine code code' address address' n)
    (hmin : minSize ≤ 4 * n) :
    (∃ status, decodeBlockUntil tables engine code address minSize capacity priors = .error status ∧
      decodeBlockUntil tables engine code' address' minSize capacity priors' = .error status) ∨
    ∃ b b', decodeBlockUntil tables engine code address minSize capacity priors = .ok b ∧
      decodeBlockUntil tables engine code' address' minSize capacity priors' = .ok b' ∧
      BlocksMoveAlike engine b b' := by
  unfold decodeBlockUntil
  split
  · exact .inl ⟨_, rfl, rfl⟩
  obtain ⟨b, b', hloop, hloop', halike⟩ := decodeBlockLoop_alike priors priors' h hmin
    (min capacity maxBlockInstructions) (Nat.mul_zero 4).symm (⟨rfl, .nil⟩ : BlocksMoveAlike engine {} {})
  simp only [hloop, hloop', halike.total]
  split
  · exact .inl ⟨_, rfl, rfl⟩
  · exact .inr ⟨b, b', rfl, rfl, halike⟩

/-! ## The loop of the relocation -/

def RelocatedInst.withoutOrigin (record : RelocatedInst) : RelocatedInst := { record with originalAddress := 0 }

/-- The result but for the addresses the code came from. -/
def RelocateResult.withoutOrigin (result : RelocateResult) : RelocateResult :=
  { result with
    originalAddress := 0
    relocatedInsts := result.relocatedInsts.map RelocatedInst.withoutOrigin }

def RelocateOut.withoutOrigin (out : RelocateOut) : RelocateOut :=
  { out with result := out.result.withoutOrigin }

/-- The two hold the same bytes, and tell of them the same but for where they came from. -/
structure Trampoline.Alike (t t' : Trampoline) : Prop where
  code : t'.code = t.code
  offset : t'.offset = t.offset
  result : t'.result.withoutOrigin = t.result.withoutOrigin

/-- Both loops end alike. -/
inductive LoopsAlike : Except RelocateOut Trampoline → Except RelocateOut Trampoline → Prop
  | ok {t t' : Trampoline} : t.Alike t' → LoopsAlike (.ok t) (.ok t')
  | error {out out' : RelocateOut} :
      out'.withoutOrigin = out.withoutOrigin → LoopsAlike (.error out) (.error out')

variable {priors priors'} {options : RelocateOptions} {movedAddress : BitVec 64} {insts insts' : List Inst} {t t' : Trampoline}

theorem withoutOrigin_addClobbers (result : RelocateResult) (emit : EmitResult) :
    (result.addClobbers emit).withoutOrigin = result.withoutOrigin.addClobbers emit := rfl

theorem withoutOrigin_addHazards (result : RelocateResult) (sem : InstSemantics) :
    (result.addHazards sem).withoutOrigin = result.withoutOrigin.addHazards sem := rfl

theorem Trampoline.Alike.push {inst' : Inst} {emit : EmitOut} (h : t.Alike t') (hsize : inst'.size = inst.size) :
    (t.push movedAddress inst emit).Alike (t'.push movedAddress inst' emit) := by
  have hpush (u : Trampoline) (i : Inst) : (u.push movedAddress i emit).result.withoutOrigin =
      { u.result.withoutOrigin.addClobbers emit.result with
        relocatedInsts := u.result.withoutOrigin.relocatedInsts ++
          [{ originalAddress := 0, originalSize := i.size
             relocatedAddress := movedAddress + BitVec.ofNat 64 u.offset
             relocatedOffset := u.offset, relocatedSize := emit.result.size }] } := by
    simp only [Trampoline.push, RelocateResult.withoutOrigin, List.map_append]
    rfl
  constructor
  · rw [Trampoline.push, Trampoline.push, h.code]
  · rw [Trampoline.push, Trampoline.push, h.offset]
  · rw [hpush, hpush, h.result, h.offset, hsize]

theorem relocateInsts_alike (h : List.Forall₂ (MovesAlike engine) insts insts') (ht : t.Alike t') :
    LoopsAlike (relocateInsts engine options movedAddress capacity insts t)
      (relocateInsts engine options movedAddress capacity insts' t') := by
  induction h generalizing t t' with
  | nil => exact .ok ht
  | @cons inst inst' insts insts' hinst _ ih =>
    obtain ⟨sem, sem', hsem, hsem', hhazards⟩ := hinst.hazards
    have hresult : (t'.result.addHazards sem').withoutOrigin = (t.result.addHazards sem).withoutOrigin := by
      rw [withoutOrigin_addHazards, withoutOrigin_addHazards, ht.result, RelocateResult.addHazards,
        RelocateResult.addHazards, hhazards]
    simp only [relocateInsts, hsem, hsem', ht.offset, hinst.emit]
    split
    · refine .error ?_
      simp only [RelocateOut.withoutOrigin, ht.code, hresult]
    split
    · refine .error ?_
      simp only [RelocateOut.withoutOrigin, ht.code, withoutOrigin_addClobbers, hresult]
    · exact ih (Trampoline.Alike.push ⟨ht.code, rfl, hresult⟩ hinst.size)

theorem appendJumpBack_alike (h : t.Alike t') (htotal : block'.totalSize = block.totalSize) :
    (appendJumpBack engine options address' movedAddress capacity block' t').withoutOrigin =
      (appendJumpBack engine options address movedAddress capacity block t).withoutOrigin := by
  have hresult := h.result
  simp only [RelocateResult.withoutOrigin, RelocateResult.mk.injEq] at hresult
  obtain ⟨hoverwritten, -, hcontinuation, hrelocated, hsize, hrecords, -, hjump, hlo, hhi, hhazards⟩ :=
    hresult
  unfold appendJumpBack
  simp only [h.offset, h.code, htotal]
  split
  · simp only [RelocateOut.withoutOrigin]
    split
    all_goals
      simp only [RelocateResult.withoutOrigin, RelocateResult.addClobbers, hoverwritten, hcontinuation,
        hrelocated, hsize, hrecords, hjump, hlo, hhi, hhazards]
  · simp only [RelocateOut.withoutOrigin, RelocateResult.withoutOrigin, RelocateResult.addClobbers, hrecords,
      hlo, hhi, hhazards]

/-- Code whose words move alike is relocated alike. -/
theorem relocatePrologue_alike (priors priors' : Nat → Inst) (movedAddress : BitVec 64) (capacity : Nat)
    (h : WordsMoveAlike tables engine code code' address address' n)
    (hmin : max options.minOverwriteSize 1 ≤ 4 * n) :
    (relocatePrologue tables engine code' address' movedAddress options capacity priors').withoutOrigin =
      (relocatePrologue tables engine code address movedAddress options capacity priors).withoutOrigin := by
  unfold relocatePrologue
  split
  · rfl
  rcases decodeBlockUntil_alike priors priors' maxBlockInstructions h hmin with
    ⟨status, hblock, hblock'⟩ | ⟨b, b', hblock, hblock', halike⟩
  · rw [hblock, hblock']
  · rw [hblock, hblock']
    have hloops : LoopsAlike (relocateInsts engine options movedAddress capacity b.insts {})
        (relocateInsts engine options movedAddress capacity b'.insts {}) :=
      relocateInsts_alike halike.insts ⟨rfl, rfl, rfl⟩
    dsimp only
    revert hloops
    generalize relocateInsts engine options movedAddress capacity b.insts {} = r
    generalize relocateInsts engine options movedAddress capacity b'.insts {} = r'
    rintro (halikes | hout)
    · exact appendJumpBack_alike halikes halike.total
    · exact hout

/-! ## Moving a trampoline on -/

/-- The instruction is copied where it stands, wherever it was decoded from. -/
def Stays (engine : Engine) (code : List Byte) (address : BitVec 64) (inst : Inst) : Prop :=
  ∀ capacity, relocateInst engine inst address capacity =
    emitBytes { size := 4 } (store32le (load32le code)) capacity

/-- The words of a trampoline under construction can be moved on, and back. -/
structure Trampoline.MovableWords (tables : Tables) (engine : Engine) (code : List Byte)
    (address relocatedAddress : BitVec 64) (done : List Inst) (t : Trampoline) : Prop where
  offset : t.offset = 4 * done.length
  length : t.code.length = 4 * done.length
  words : ∀ k inst, done[k]? = some inst →
    MovesOn tables engine (load32le (t.code.drop (4 * k))) (relocatedAddress + BitVec.ofNat 64 (4 * k)) inst ∧
      Stays engine (code.drop (4 * k)) (address + BitVec.ofNat 64 (4 * k)) inst

theorem movableWords_nil : Trampoline.MovableWords tables engine code address relocatedAddress [] {} :=
  ⟨rfl, rfl, fun k inst h => by cases h⟩

/-- A word that the relocation knows how to move. -/
structure MovableAt (tables : Tables) (engine : Engine) (code : List Byte) (address : BitVec 64) (inst : Inst) :
    Prop where
  decoded : ∃ prior, decodeOne tables engine code address prior = .ok inst
  allocated : load32le code &&& 0xff000000 ≠ 0xdc000000

theorem Trampoline.MovableWords.step (hrows : A64.OffsetRows tables.a64)
    (harch : engine.target.arch = .aarch64) (horiginal : 4 ∣ address.toNat)
    (hrelocated : 4 ∣ relocatedAddress.toNat)
    (hscratch : options.allowedClobberMaskLo &&& A64.x16Mask = 0) {done : List Inst}
    (hinst : MovableAt tables engine (code.drop (4 * done.length))
      (address + BitVec.ofNat 64 (4 * done.length)) inst)
    (h : t.MovableWords tables engine code address relocatedAddress done)
    (hstep : t.Step engine options relocatedAddress capacity inst t') :
    t'.MovableWords tables engine code address relocatedAddress (done ++ [inst]) := by
  obtain ⟨⟨prior, hdec⟩, hallocated⟩ := hinst
  obtain ⟨hok, hallowed, sem, -, rfl⟩ := hstep
  have hclobber : (t.emit engine relocatedAddress capacity inst).result.clobberMaskLo &&& A64.x16Mask = 0 := by
    rw [clobbersForbidden, Bool.or_eq_false_iff, bne_eq_false_iff_eq] at hallowed
    exact and_eq_zero_of_allowed hallowed.1 hscratch
  rw [Trampoline.emit, h.offset] at hok hclobber
  obtain ⟨w', hcode, hsize, hmoves⟩ := relocateInst_movesOn hrows harch (dvd_word_address horiginal _)
    (dvd_word_address hrelocated _) hdec hallocated hok hclobber
  have hstays := relocateInst_self hrows harch hdec hallocated hok
  have hlength := h.length
  constructor
  · simp only [Trampoline.push, Trampoline.emit, h.offset, hsize, List.length_append, List.length_singleton]
    omega
  · simp only [Trampoline.push, Trampoline.emit, h.offset, hcode, List.length_append, List.length_singleton,
      hlength, store32le_length]
    omega
  · intro k other hother
    simp only [Trampoline.push, Trampoline.emit, h.offset, hcode]
    rcases Nat.lt_trichotomy k done.length with hk | rfl | hk
    · rw [load32le_append _ (by omega)]
      rw [List.getElem?_append_left hk] at hother
      exact h.words k other hother
    · rw [List.getElem?_concat_length, Option.some_inj] at hother
      rw [List.drop_append_of_le_length (by omega), List.drop_of_length_le (by omega), List.nil_append,
        ← List.append_nil (store32le w'), load32le_store32le, ← hother]
      exact ⟨hmoves, hstays⟩
    · rw [List.getElem?_eq_none (by rw [List.length_append, List.length_singleton]; omega)] at hother
      cases hother

theorem Trampoline.MovableWords.run (hrows : A64.OffsetRows tables.a64)
    (harch : engine.target.arch = .aarch64) (horiginal : 4 ∣ address.toNat)
    (hrelocated : 4 ∣ relocatedAddress.toNat)
    (hscratch : options.allowedClobberMaskLo &&& A64.x16Mask = 0) {done : List Inst}
    (hinsts : ∀ k inst, (done ++ insts)[k]? = some inst →
      MovableAt tables engine (code.drop (4 * k)) (address + BitVec.ofNat 64 (4 * k)) inst)
    (h : t.MovableWords tables engine code address relocatedAddress done)
    (hrun : Run (Trampoline.Step engine options relocatedAddress capacity) t insts t') :
    t'.MovableWords tables engine code address relocatedAddress (done ++ insts) := by
  induction hrun generalizing done with
  | nil => rwa [List.append_nil]
  | @cons t u t' inst insts hstep _ ih =>
    have hfirst := hinsts done.length inst (by simp)
    have hnext := h.step hrows harch horiginal hrelocated hscratch hfirst hstep
    rw [List.append_cons] at hinsts ⊢
    exact ih hinsts hnext

/-- What a relocation without the scratch register leaves: a block whose words can be moved on, and back. -/
structure MovableOut (tables : Tables) (engine : Engine) (code : List Byte) (address relocatedAddress : BitVec 64)
    (out : RelocateOut) (block : Block) : Prop where
  total : block.totalSize = 4 * block.insts.length
  pos : 0 < block.insts.length
  overwritten : out.result.overwrittenSize = 4 * block.insts.length
  room : 4 * block.insts.length ≤ code.length
  length : 4 * block.insts.length ≤ out.code.length
  decoded : ∀ k inst, block.insts[k]? = some inst → ∃ prior,
    decodeOne tables engine (code.drop (4 * k)) (address + BitVec.ofNat 64 (4 * k)) prior = .ok inst
  words : ∀ k inst, block.insts[k]? = some inst →
    MovesOn tables engine (load32le (out.code.drop (4 * k))) (relocatedAddress + BitVec.ofNat 64 (4 * k)) inst ∧
      Stays engine (code.drop (4 * k)) (address + BitVec.ofNat 64 (4 * k)) inst

theorem relocatePrologue_movable (hrows : A64.OffsetRows tables.a64)
    (harch : engine.target.arch = .aarch64) (horiginal : 4 ∣ address.toNat)
    (hrelocated : 4 ∣ relocatedAddress.toNat)
    (hscratch : options.allowedClobberMaskLo &&& A64.x16Mask = 0)
    (hallocated : ∀ k, 4 * k < (relocatePrologue tables engine code address relocatedAddress options capacity
      priors).result.overwrittenSize → load32le (code.drop (4 * k)) &&& 0xff000000 ≠ 0xdc000000)
    (hok : (relocatePrologue tables engine code address relocatedAddress options capacity priors).status = .ok) :
    ∃ block, decodeBlockUntil tables engine code address (max options.minOverwriteSize 1)
        maxBlockInstructions priors = .ok block ∧
      MovableOut tables engine code address relocatedAddress
        (relocatePrologue tables engine code address relocatedAddress options capacity priors) block := by
  obtain ⟨-, block, t, hblock, hrun, heq⟩ := relocatePrologue_of_ok hok
  obtain ⟨hdecoded, -, hmin⟩ := decodeBlockUntil_decoded hblock
  obtain ⟨htotal, hroom, hdec⟩ := hdecoded.inWords harch
  rw [heq] at hok hallocated ⊢
  obtain ⟨-, hout⟩ := appendJumpBack_of_ok hok
  rw [hout] at hallocated ⊢
  have hwords : t.MovableWords tables engine code address relocatedAddress ([] ++ block.insts) := by
    refine movableWords_nil.run hrows harch horiginal hrelocated hscratch (fun k inst hk => ?_) hrun
    rw [List.nil_append] at hk
    have hlt := (List.getElem?_eq_some_iff.1 hk).1
    refine ⟨⟨_, hdec k inst hk⟩, hallocated k ?_⟩
    simp only [htotal]
    omega
  rw [List.nil_append] at hwords
  refine ⟨block, hblock, htotal, by omega, htotal, hroom, ?_, fun k inst hk => ⟨_, hdec k inst hk⟩, ?_⟩
  · rw [List.length_append, hwords.length]
    omega
  · intro k inst hk
    have hlt := (List.getElem?_eq_some_iff.1 hk).1
    have hlength := hwords.length
    rw [load32le_append _ (by omega)]
    exact hwords.words k inst hk

theorem decodeOne_aarch64_prior (harch : engine.target.arch = .aarch64) (prior prior' : Inst) :
    decodeOne tables engine code address prior = decodeOne tables engine code address prior' := by
  simp only [decodeOne, targetDecodeOne, harch]

theorem MovableOut.wordsMoveAlike {out : RelocateOut} (harch : engine.target.arch = .aarch64)
    (h : MovableOut tables engine code address relocatedAddress out block) (rest : List Byte) :
    WordsMoveAlike tables engine code (out.code ++ rest) address relocatedAddress block.insts.length := by
  have hlength := h.length
  refine ⟨h.room, by rw [List.length_append]; omega, fun k hk prior prior' => ?_⟩
  have hinst := List.getElem?_eq_getElem hk
  obtain ⟨prior₀, hdec⟩ := h.decoded k _ hinst
  have hcode : (out.code ++ rest).drop (4 * k) =
      store32le (load32le (out.code.drop (4 * k))) ++ (out.code ++ rest).drop (4 * k + 4) := by
    rw [← load32le_append rest (by omega), ← A64.take_eq_store32le (by simp; omega), ← List.drop_drop,
      List.take_append_drop]
  obtain ⟨inst', hdec', halike⟩ := (h.words k _ hinst).1 ((out.code ++ rest).drop (4 * k + 4)) prior'
  refine ⟨_, inst', ?_, ?_, ?_, halike⟩
  · rw [decodeOne_aarch64_prior harch prior prior₀]
    exact hdec
  · rw [hcode]
    exact hdec'
  · obtain ⟨inst0, hdec0, heq⟩ := decodeOne_aarch64 harch hdec
    rw [heq]
    exact (A64.decodeOne_fromCode hdec0).size

/-- A trampoline that is moved on becomes what the prologue would have become. -/
theorem relocatePrologue_again {moveOptions : RelocateOptions} {moveCapacity : Nat}
    {movePriors directPriors : Nat → Inst} (hrows : A64.OffsetRows tables.a64)
    (harch : engine.target.arch = .aarch64) (horiginal : 4 ∣ address.toNat)
    (hrelocated : 4 ∣ relocatedAddress.toNat)
    (hscratch : options.allowedClobberMaskLo &&& A64.x16Mask = 0)
    (hallocated : ∀ k, 4 * k < (relocatePrologue tables engine code address relocatedAddress options capacity
      priors).result.overwrittenSize → load32le (code.drop (4 * k)) &&& 0xff000000 ≠ 0xdc000000)
    (hok : (relocatePrologue tables engine code address relocatedAddress options capacity priors).status = .ok)
    (hmin : moveOptions.minOverwriteSize ≤ (relocatePrologue tables engine code address relocatedAddress options
      capacity priors).result.overwrittenSize) :
    (relocatePrologue tables engine
      ((relocatePrologue tables engine code address relocatedAddress options capacity priors).code ++ rest)
      relocatedAddress movedAddress moveOptions moveCapacity movePriors).withoutOrigin =
      (relocatePrologue tables engine code address movedAddress moveOptions moveCapacity
        directPriors).withoutOrigin := by
  obtain ⟨block, -, hmovable⟩ :=
    relocatePrologue_movable hrows harch horiginal hrelocated hscratch hallocated hok
  refine relocatePrologue_alike directPriors movePriors movedAddress moveCapacity
    (hmovable.wordsMoveAlike harch rest) ?_
  have hpos := hmovable.pos
  rw [hmovable.overwritten] at hmin
  omega

/-- `bl`, `nop`, `bl` and `b.eq`. -/
def branchCode : List Byte :=
  store32le 0x94000040 ++ store32le 0xd503201f ++ store32le 0x94000080 ++ store32le 0x54000080

/-- All four of them at `0x1000`, with their trampoline at `0x2000`, which is moved so far that `b.eq` is
out of reach. -/
theorem relocatePrologue_again_branchCode :
    let out := relocatePrologue pcRelTables aarch64Engine branchCode 0x1000 0x2000
      { minOverwriteSize := 16, continuationAddress := 0x1010 } 20 fun _ => aarch64Engine.emptyInst
    let options : RelocateOptions :=
      { minOverwriteSize := 16, continuationAddress := 0x1010, allowedClobberMaskLo := A64.x16Mask }
    let moved := relocatePrologue pcRelTables aarch64Engine (out.code ++ []) 0x2000 0x400000 options 40
      fun _ => aarch64Engine.emptyInst
    moved.status = .ok ∧ moved.result.relocatedSize = 36 ∧ moved.withoutOrigin =
      (relocatePrologue pcRelTables aarch64Engine branchCode 0x1000 0x400000 options 40
        fun _ => aarch64Engine.emptyInst).withoutOrigin := by
  refine ⟨by decide, by decide, ?_⟩
  refine relocatePrologue_again A64.pcRelTables_offset rfl (by decide) (by decide) (by decide) ?_ (by decide)
    (by decide)
  intro k hk
  have hsize := hk.trans_eq (by decide : _ = 16)
  have hfour : k < 4 := by omega
  interval_cases k <;> decide

/-! ## Moving a trampoline back -/

theorem relocateInsts_stays (options : RelocateOptions) (harch : engine.target.arch = .aarch64) {k : Nat}
    (hstays : ∀ j inst, insts[j]? = some inst →
      Stays engine (code.drop (4 * (k + j))) (address + BitVec.ofNat 64 (4 * (k + j))) inst)
    (hroom : 4 * (k + insts.length) ≤ code.length) (hcapacity : 4 * (k + insts.length) ≤ capacity)
    (hoffset : t.offset = 4 * k) (hcode : t.code = code.take (4 * k)) :
    ∃ t', relocateInsts engine options address capacity insts t = .ok t' ∧
      t'.code = code.take (4 * (k + insts.length)) := by
  induction insts generalizing k t with
  | nil => exact ⟨t, rfl, hcode⟩
  | cons inst insts ih =>
    rw [List.length_cons] at hroom hcapacity ⊢
    have hemit := hstays 0 inst rfl (capacity - t.offset)
    rw [Nat.add_zero, emitBytes_ok (by simp only; omega), ← hoffset] at hemit
    have hallowed : clobbersForbidden options { size := 4 } = false := by
      simp [clobbersForbidden]
    have htake : code.take (4 * k) ++ store32le (load32le (code.drop (4 * k))) = code.take (4 * (k + 1)) := by
      rw [← A64.take_eq_store32le (by rw [List.length_drop]; omega), Nat.mul_add, List.take_add]
    simp only [relocateInsts, analyzeInst, harch, hemit, hallowed]
    rw [if_neg (by simp), if_neg (by simp), Nat.add_comm insts.length 1, ← Nat.add_assoc]
    refine ih (fun j other hother => ?_) (by omega) (by omega) ?_ ?_
    · have hrest := hstays (j + 1) other hother
      rwa [Nat.add_comm j 1, ← Nat.add_assoc] at hrest
    · rw [Trampoline.push, hoffset, Nat.mul_add]
    · rw [← htake, ← hcode, ← hoffset]
      rfl

/-- A trampoline that is moved back becomes the prologue again. -/
theorem relocatePrologue_restores {backOptions : RelocateOptions} {backCapacity : Nat}
    {backPriors : Nat → Inst} (hrows : A64.OffsetRows tables.a64)
    (harch : engine.target.arch = .aarch64) (horiginal : 4 ∣ address.toNat)
    (hrelocated : 4 ∣ relocatedAddress.toNat)
    (hscratch : options.allowedClobberMaskLo &&& A64.x16Mask = 0)
    (hallocated : ∀ k, 4 * k < (relocatePrologue tables engine code address relocatedAddress options capacity
      priors).result.overwrittenSize → load32le (code.drop (4 * k)) &&& 0xff000000 ≠ 0xdc000000)
    (hok : (relocatePrologue tables engine code address relocatedAddress options capacity priors).status = .ok)
    (hmin : backOptions.minOverwriteSize = (relocatePrologue tables engine code address relocatedAddress options
      capacity priors).result.overwrittenSize)
    (hcapacity : (relocatePrologue tables engine code address relocatedAddress options
      capacity priors).result.overwrittenSize ≤ backCapacity) :
    let out := relocatePrologue tables engine code address relocatedAddress options capacity priors
    let back := relocatePrologue tables engine (out.code ++ rest) relocatedAddress address backOptions backCapacity
      backPriors
    back.code.take out.result.overwrittenSize = code.take out.result.overwrittenSize := by
  obtain ⟨block, hblock, hmovable⟩ :=
    relocatePrologue_movable hrows harch horiginal hrelocated hscratch hallocated hok
  have hpos := hmovable.pos
  have hbackMin : max backOptions.minOverwriteSize 1 = block.totalSize := by
    rw [hmin, hmovable.overwritten, hmovable.total]
    omega
  have halike := relocatePrologue_alike priors backPriors address backCapacity
    (hmovable.wordsMoveAlike harch rest) (by rw [hbackMin, hmovable.total])
  have hstays : ∀ j inst, block.insts[j]? = some inst →
      Stays engine (code.drop (4 * (0 + j))) (address + BitVec.ofNat 64 (4 * (0 + j))) inst := by
    intro j inst hj
    rw [Nat.zero_add]
    exact (hmovable.words j inst hj).2
  obtain ⟨t, hloop, hcode⟩ : ∃ t, relocateInsts engine backOptions address backCapacity block.insts {} = .ok t ∧
      t.code = code.take (4 * (0 + block.insts.length)) := by
    refine relocateInsts_stays backOptions harch hstays ?_ ?_ rfl rfl
    · rw [Nat.zero_add]
      exact hmovable.room
    · rw [Nat.zero_add, ← hmovable.overwritten]
      exact hcapacity
  have hdirect : ∃ jump, (relocatePrologue tables engine code address address backOptions backCapacity
      priors).code = t.code ++ jump := by
    have hnative : isNative engine = true := (relocatePrologue_of_ok hok).1
    have hagain := decodeBlockUntil_again (by rw [harch]; nofun) (by rw [harch]; nofun) hblock
      (fun _ _ _ => rfl : SameRecords tables engine code block priors priors)
    unfold relocatePrologue
    rw [if_neg (not_not_intro hnative), hbackMin, hagain]
    dsimp only
    rw [hloop]
    dsimp only
    unfold appendJumpBack
    dsimp only
    split
    · exact ⟨_, rfl⟩
    · exact ⟨_, rfl⟩
  intro out back
  obtain ⟨jump, hdirect⟩ := hdirect
  have hback : back.code = t.code ++ jump := (congrArg RelocateOut.code halike).trans hdirect
  rw [Nat.zero_add] at hcode
  rw [hback, hcode, show out.result.overwrittenSize = 4 * block.insts.length from hmovable.overwritten,
    List.take_append_of_le_length (by rw [List.length_take]; exact (Nat.min_eq_left hmovable.room).ge),
    List.take_take, Nat.min_self]

/-- A load, an address, a call and a branch at `0x1000`, moved to `0x2000` and back. -/
theorem relocatePrologue_restores_offsetCode :
    let out := relocatePrologue pcRelTables aarch64Engine offsetCode 0x1000 0x2000
      { minOverwriteSize := 16, continuationAddress := 0x1010 } 20 fun _ => aarch64Engine.emptyInst
    let back := relocatePrologue pcRelTables aarch64Engine (out.code ++ []) 0x2000 0x1000
      { minOverwriteSize := 16, continuationAddress := 0x1010 } 20 fun _ => aarch64Engine.emptyInst
    out.code.take 16 ≠ offsetCode ∧
      back.code.take out.result.overwrittenSize = offsetCode.take out.result.overwrittenSize := by
  refine ⟨by decide, ?_⟩
  refine relocatePrologue_restores A64.pcRelTables_offset rfl (by decide) (by decide) (by decide) ?_ (by decide)
    (by decide) (by decide)
  intro k hk
  have hsize := hk.trans_eq (by decide : _ = 16)
  have hfour : k < 4 := by omega
  interval_cases k <;> decide

end AsmKit
