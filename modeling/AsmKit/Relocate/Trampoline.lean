import AsmKit.Lib.Lockstep
import AsmKit.Relocate.Carried
import AsmKit.Relocate.Tiles

/-!
# What a trampoline does

A trampoline for A64 that is built without the scratch register does what the prologue did, from each
of its instructions on. Only the return address of a call is another one.
-/

namespace AsmKit

open Labelled
open Isa.A64 (Exit reference Words)

/-! ## Words in memory -/

/-- The memory holds the words of the code from an address on. -/
def HoldsCode (image : BitVec 64 → BitVec 32) (address : BitVec 64) (code : List Byte) : Prop :=
  ∀ k, 4 * k + 4 ≤ code.length → image (address + BitVec.ofNat 64 (4 * k)) = load32le (code.drop (4 * k))

section

variable {σ : Type} (words : Words σ)

/-- The words of the code that the tables do not flag leave the pc alone. -/
def PlainUnflagged (tables : Tables) (engine : Engine) (code : List Byte) (address : BitVec 64) : Prop :=
  ∀ k prior inst,
    decodeOne tables engine (code.drop (4 * k)) (address + BitVec.ofNat 64 (4 * k)) prior = .ok inst →
    inst.has InstFlag.pcRelative = false → words.Plain (load32le (code.drop (4 * k)))

/-- The prologue and the trampoline are left alike: with the same registers for the same address,
but a call returns to the code it was made in, and what falls through goes on where the caller wants
it to. -/
inductive LeftAlike (result : RelocateResult) : σ × BitVec 64 → σ × BitVec 64 → Prop
  | jump (s : σ) (target : BitVec 64) : LeftAlike result (s, target) (s, target)
  | call {record : RelocatedInst} (hmem : record ∈ result.relocatedInsts) (s : σ) (target : BitVec 64) :
      LeftAlike result
        (words.link (record.originalAddress + BitVec.ofNat 64 record.originalSize) s, target)
        (words.link (record.relocatedAddress + BitVec.ofNat 64 record.relocatedSize) s, target)
  | through (s : σ) :
      LeftAlike result (s, result.originalAddress + BitVec.ofNat 64 result.overwrittenSize)
        (s, result.continuationAddress)

/-- From each of its instructions on, the trampoline is left just as the prologue is, and behind them
it goes on at the continuation. -/
structure RunsAlike (image image' : BitVec 64 → BitVec 32) (result : RelocateResult) : Prop where
  forward : ∀ record ∈ result.relocatedInsts, ∀ s t,
    Machine.Leaves (words.machine image)
      (result.originalAddress + BitVec.ofNat 64 result.overwrittenSize) (s, record.originalAddress) t →
    ∃ t', Machine.Leaves (words.machine image')
      (result.relocatedAddress + BitVec.ofNat 64 result.relocatedSize) (s, record.relocatedAddress) t' ∧
      LeftAlike words result t t'
  backward : ∀ record ∈ result.relocatedInsts, ∀ s t',
    Machine.Leaves (words.machine image')
      (result.relocatedAddress + BitVec.ofNat 64 result.relocatedSize) (s, record.relocatedAddress) t' →
    ∃ t, Machine.Leaves (words.machine image)
      (result.originalAddress + BitVec.ofNat 64 result.overwrittenSize) (s, record.originalAddress) t ∧
      LeftAlike words result t t'
  jumpBack : ∀ s, Machine.Leaves (words.machine image')
    (result.relocatedAddress + BitVec.ofNat 64 result.relocatedSize)
    (s, result.relocatedAddress + BitVec.ofNat 64 result.jumpBackOffset) (s, result.continuationAddress)

end

/-! ## The trampoline under construction -/

variable {σ : Type} {words : Words σ} {tables : Tables} {engine : Engine} {code : List Byte}
  {originalAddress relocatedAddress : BitVec 64} {options : RelocateOptions} {capacity : Nat}
  {priors : Nat → Inst} {inst : Inst} {insts : List Inst} {t t' : Trampoline}

/-- The record of the `k`-th word. -/
def wordRecord (originalAddress relocatedAddress : BitVec 64) (k : Nat) : RelocatedInst :=
  { originalAddress := originalAddress + BitVec.ofNat 64 (4 * k), originalSize := 4
    relocatedAddress := relocatedAddress + BitVec.ofNat 64 (4 * k), relocatedOffset := 4 * k
    relocatedSize := 4 }

/-- `k` words are carried over. -/
structure Trampoline.CarriedWords (words : Words σ) (code : List Byte)
    (originalAddress relocatedAddress : BitVec 64) (k : Nat) (t : Trampoline) : Prop where
  offset : t.offset = 4 * k
  length : t.code.length = 4 * k
  records : t.result.relocatedInsts = (List.range k).map (wordRecord originalAddress relocatedAddress)
  words : ∀ j < k, words.Carries (load32le (t.code.drop (4 * j)))
    (relocatedAddress + BitVec.ofNat 64 (4 * j)) (load32le (code.drop (4 * j)))
    (originalAddress + BitVec.ofNat 64 (4 * j))

theorem carriedWords_nil : Trampoline.CarriedWords words code originalAddress relocatedAddress 0 {} :=
  ⟨rfl, rfl, rfl, fun _ h => absurd h (Nat.not_lt_zero _)⟩

theorem and_eq_zero_of_allowed {clobbers allowed mask : BitVec 64} (h : clobbers &&& ~~~allowed = 0)
    (hmask : allowed &&& mask = 0) : clobbers &&& mask = 0 := by
  apply BitVec.eq_of_getLsbD_eq
  intro i hi
  have hbit := congrArg (BitVec.getLsbD · i) h
  have hmaskBit := congrArg (BitVec.getLsbD · i) hmask
  simp only [BitVec.getLsbD_and, BitVec.getLsbD_not, hi, decide_true, Bool.true_and] at hbit hmaskBit ⊢
  revert hbit hmaskBit
  cases clobbers.getLsbD i <;> cases allowed.getLsbD i <;> simp

theorem dvd_word_address {address : BitVec 64} (h : 4 ∣ address.toNat) (k : Nat) :
    4 ∣ (address + BitVec.ofNat 64 (4 * k)).toNat := by
  refine SignedField.dvd_add _ _ 2 (by decide) h ?_
  rw [BitVec.toNat_ofNat]
  omega

theorem Trampoline.CarriedWords.step (hrows : A64.OffsetRows tables.a64)
    (harch : engine.target.arch = .aarch64) (horiginal : 4 ∣ originalAddress.toNat)
    (hrelocated : 4 ∣ relocatedAddress.toNat)
    (hscratch : options.allowedClobberMaskLo &&& A64.x16Mask = 0)
    (hplain : PlainUnflagged words tables engine code originalAddress) {k : Nat} {prior : Inst}
    (hdec : decodeOne tables engine (code.drop (4 * k)) (originalAddress + BitVec.ofNat 64 (4 * k)) prior =
      .ok inst)
    (h : t.CarriedWords words code originalAddress relocatedAddress k)
    (hstep : t.Step engine options relocatedAddress capacity inst t') :
    t'.CarriedWords words code originalAddress relocatedAddress (k + 1) := by
  obtain ⟨hok, hallowed, sem, -, rfl⟩ := hstep
  have hclobber : (t.emit engine relocatedAddress capacity inst).result.clobberMaskLo &&& A64.x16Mask = 0 := by
    rw [clobbersForbidden, Bool.or_eq_false_iff, bne_eq_false_iff_eq] at hallowed
    exact and_eq_zero_of_allowed hallowed.1 hscratch
  rw [Trampoline.emit, h.offset] at hok hclobber
  obtain ⟨w', hcode, hsize, hcarries⟩ := relocateInst_carries hrows harch (dvd_word_address horiginal k)
    (dvd_word_address hrelocated k) hdec (hplain k prior inst hdec) hok hclobber
  obtain ⟨inst0, hdec0, rfl⟩ := decodeOne_aarch64 harch hdec
  have hfrom := A64.decodeOne_fromCode hdec0
  constructor
  · simp only [Trampoline.push, Trampoline.emit, h.offset, hsize]
    omega
  · simp only [Trampoline.push, Trampoline.emit, h.offset, List.length_append, h.length, hcode,
      store32le_length]
    omega
  · have hrecord : (applyOperandMetadata tables inst0).address =
        originalAddress + BitVec.ofNat 64 (4 * k) ∧ (applyOperandMetadata tables inst0).size = 4 :=
      ⟨hfrom.address, hfrom.size⟩
    simp only [Trampoline.push, Trampoline.emit, h.offset, hsize, RelocateResult.addHazards,
      RelocateResult.addClobbers, h.records, hrecord, List.range_succ, List.map_append, List.map_singleton]
    rfl
  · intro j hj
    have hlength := h.length
    simp only [Trampoline.push, Trampoline.emit, h.offset, hcode]
    rcases Nat.lt_succ_iff_lt_or_eq.1 hj with hj | rfl
    · rw [load32le_append _ (by omega)]
      exact h.words j hj
    · rw [List.drop_append_of_le_length (by omega), List.drop_of_length_le (by omega), List.nil_append,
        ← List.append_nil (store32le w'), load32le_store32le]
      exact hcarries

theorem Trampoline.CarriedWords.run (hrows : A64.OffsetRows tables.a64)
    (harch : engine.target.arch = .aarch64) (horiginal : 4 ∣ originalAddress.toNat)
    (hrelocated : 4 ∣ relocatedAddress.toNat)
    (hscratch : options.allowedClobberMaskLo &&& A64.x16Mask = 0)
    (hplain : PlainUnflagged words tables engine code originalAddress) {k : Nat}
    (hdec : ∀ j inst, insts[j]? = some inst → ∃ prior,
      decodeOne tables engine (code.drop (4 * (k + j)))
        (originalAddress + BitVec.ofNat 64 (4 * (k + j))) prior = .ok inst)
    (h : t.CarriedWords words code originalAddress relocatedAddress k)
    (hrun : Run (Trampoline.Step engine options relocatedAddress capacity) t insts t') :
    t'.CarriedWords words code originalAddress relocatedAddress (k + insts.length) := by
  induction hrun generalizing k with
  | nil => exact h
  | @cons t u t' inst insts hstep _ ih =>
    obtain ⟨prior, hfirst⟩ := hdec 0 inst rfl
    have hnext := h.step hrows harch horiginal hrelocated hscratch hplain hfirst hstep
    rw [List.length_cons, Nat.add_comm insts.length 1, ← Nat.add_assoc]
    refine ih (fun j other hother => ?_) hnext
    have hrest := hdec (j + 1) other hother
    rwa [Nat.add_comm j 1, ← Nat.add_assoc] at hrest

/-! ## The jump back -/

theorem emitJump_word {fromAddress toAddress : BitVec 64} (harch : engine.target.arch = .aarch64)
    (hscratch : options.allowedClobberMaskLo &&& A64.x16Mask = 0)
    (hok : (emitJump engine fromAddress toAddress (some options.jumpOptions) capacity).status = .ok) :
    ∃ w, (emitJump engine fromAddress toAddress (some options.jumpOptions) capacity).code = store32le w ∧
      (emitJump engine fromAddress toAddress (some options.jumpOptions) capacity).result.size = 4 ∧
      Isa.A64.isB w = true ∧ w.getLsbD 31 = false ∧ reference w fromAddress = toAddress := by
  simp only [emitJump, harch] at hok ⊢
  obtain ⟨hfinish, hany⟩ := emitFinish_of_ok hok
  rw [hfinish]
  rcases A64.emitAny_of_ok hany with ⟨-, hfits, hout⟩ | ⟨-, hout⟩
  · have hword : A64.relWord false (A64.relDisp fromAddress toAddress) =
        Isa.A64.OffsetKind.imm26.setOffset 0x14000000 (A64.relDisp fromAddress toAddress) :=
      A64.relWord_eq_setField false _
    have hsame : Isa.A64.SameOutside .imm26 0x14000000 (A64.relWord false (A64.relDisp fromAddress toAddress)) := by
      rw [hword]
      exact Isa.A64.setOffset_and_not_fieldMask _ _ _
    have hkind := hsame.offsetKind (by decide)
    have hholds : Isa.A64.OffsetKind.imm26.Holds (A64.relDisp fromAddress toAddress) := by
      obtain ⟨hdvd, hlo, hhi⟩ := (i64FitsI26Words4_iff _).1 hfits
      refine ⟨hdvd, ?_⟩
      simp only [Isa.A64.OffsetKind.InRange, Isa.A64.OffsetKind.bits, Isa.A64.OffsetKind.scale]
      omega
    rw [A64.emitJump, hout]
    refine ⟨_, rfl, rfl, Isa.A64.isB_of_offsetKind hkind, hsame.getLsbD (by decide), ?_⟩
    rw [reference, hkind]
    dsimp only
    rw [hword]
    exact target_setOffset .imm26 _ _ _ hholds
  · -- The stub goes through `x16`.
    have hforbidden : ¬ emitResultClobbersAllowed (some options.jumpOptions) A64.absResult = true := by
      have hx16 : A64.absResult.clobberMaskLo ≠ 0 := by decide
      intro h
      rw [emitResultClobbersAllowed, if_neg fun hnone => hx16 hnone.1] at h
      obtain ⟨-, hallowed, -⟩ := of_decide_eq_true h
      exact absurd (and_eq_zero_of_allowed hallowed hscratch) (by decide)
    rw [emitFinish, A64.emitJump, hout, if_pos ⟨rfl, hforbidden⟩] at hok
    cases hok

/-! ## Side by side -/

/-- The same state at the `k`-th word of either. -/
def AtWord (originalAddress relocatedAddress : BitVec 64) (k : Nat) (s s' : σ × BitVec 64) : Prop :=
  s.1 = s'.1 ∧ s.2 = originalAddress + BitVec.ofNat 64 (4 * k) ∧
    s'.2 = relocatedAddress + BitVec.ofNat 64 (4 * k)

theorem atWord_record (s : σ) (k : Nat) : AtWord originalAddress relocatedAddress k
    (s, (wordRecord originalAddress relocatedAddress k).originalAddress)
    (s, (wordRecord originalAddress relocatedAddress k).relocatedAddress) :=
  ⟨rfl, rfl, rfl⟩

theorem word_address_succ (address : BitVec 64) (k : Nat) :
    address + BitVec.ofNat 64 (4 * k) + 4 = address + BitVec.ofNat 64 (4 * (k + 1)) := by
  rw [Nat.mul_add, BitVec.ofNat_add, BitVec.add_assoc]
  rfl

theorem word_address_inj {address : BitVec 64} {j k : Nat} (hj : 4 * j < 2 ^ 64) (hk : 4 * k < 2 ^ 64) :
    address + BitVec.ofNat 64 (4 * j) = address + BitVec.ofNat 64 (4 * k) ↔ j = k := by
  constructor
  · intro h
    have hoffset := congrArg BitVec.toNat ((BitVec.add_right_inj _).1 h)
    rw [BitVec.toNat_ofNat, BitVec.toNat_ofNat, Nat.mod_eq_of_lt hj, Nat.mod_eq_of_lt hk] at hoffset
    omega
  · rintro rfl
    rfl

section

variable {image image' : BitVec 64 → BitVec 32} {continuation : BitVec 64} {n : Nat} {result : RelocateResult}

theorem lockstep_of_carries
    (hcarries : ∀ k < n, words.Carries (image' (relocatedAddress + BitVec.ofNat 64 (4 * k)))
      (relocatedAddress + BitVec.ofNat 64 (4 * k)) (image (originalAddress + BitVec.ofNat 64 (4 * k)))
      (originalAddress + BitVec.ofNat 64 (4 * k)))
    (hback : ∀ s, (words.machine image').step (s, relocatedAddress + BitVec.ofNat 64 (4 * n)) =
      some (.branch, (s, result.continuationAddress)))
    (hn : n < 2 ^ 32)
    (hrecords : result.relocatedInsts = (List.range n).map (wordRecord originalAddress relocatedAddress))
    (horiginal : result.originalAddress = originalAddress) (hoverwritten : result.overwrittenSize = 4 * n) :
    Machine.Lockstep (words.machine image) (words.machine image')
      (originalAddress + BitVec.ofNat 64 (4 * n)) (relocatedAddress + BitVec.ofNat 64 (4 * (n + 1))) n
      (AtWord originalAddress relocatedAddress) (LeftAlike words result) := by
  constructor
  · rintro k hk ⟨s, p⟩ ⟨s', p'⟩ ⟨rfl, rfl, rfl⟩ hstep
    have hexec := congrFun (hcarries k hk) s
    simp only [Words.machine, Option.map_eq_none_iff] at hstep ⊢
    rw [hexec, hstep]
  · rintro k hk ⟨s, p⟩ ⟨s', p'⟩ t ⟨rfl, rfl, rfl⟩ hstep
    have hexec := congrFun (hcarries k hk) s
    simp only [Words.machine, hexec] at hstep ⊢
    obtain ⟨⟨s', exit⟩, hsome, hout⟩ := Option.map_eq_some_iff.1 hstep
    rw [hsome]
    cases exit with
    | next => cases hout
    | jump target =>
      cases hout
      exact ⟨_, rfl, .jump s' target⟩
    | call target =>
      cases hout
      refine ⟨_, rfl, ?_⟩
      have hmem : wordRecord originalAddress relocatedAddress k ∈ result.relocatedInsts := by
        rw [hrecords]
        exact List.mem_map_of_mem (List.mem_range.2 hk)
      exact .call hmem s' target
  · rintro k hk ⟨s, p⟩ ⟨s', p'⟩ t ⟨rfl, rfl, rfl⟩ hstep
    have hexec := congrFun (hcarries k hk) s
    simp only [Words.machine, hexec] at hstep ⊢
    obtain ⟨⟨s', exit⟩, hsome, hout⟩ := Option.map_eq_some_iff.1 hstep
    rw [hsome]
    cases exit with
    | jump target | call target => cases hout
    | next =>
      cases hout
      refine ⟨_, rfl, ?_, ⟨rfl, word_address_succ _ k, word_address_succ _ k⟩, ?_⟩
      · rw [word_address_succ, ne_eq, word_address_inj (by omega) (by omega)]
        omega
      · rw [word_address_succ, word_address_inj (by omega) (by omega)]
  · rintro ⟨s, p⟩ ⟨s', p'⟩ ⟨rfl, rfl, rfl⟩
    refine ⟨_, .branch (hback s), ?_⟩
    have hleft : LeftAlike words result
        (s, result.originalAddress + BitVec.ofNat 64 result.overwrittenSize)
        (s, result.continuationAddress) := .through s
    rwa [horiginal, hoverwritten] at hleft

end

/-! ## The whole trampoline -/

theorem offsetOf_words (h : ∀ inst ∈ insts, inst.size = 4) {k : Nat} (hk : k ≤ insts.length) :
    offsetOf insts k = 4 * k := by
  have hsizes : (insts.take k).map (·.size) = List.replicate k 4 := by
    rw [List.map_congr_left fun inst hmem => h inst (List.mem_of_mem_take hmem), List.map_const',
      List.length_take, Nat.min_eq_left hk]
  rw [offsetOf, hsizes, List.sum_replicate_nat, Nat.mul_comm]

theorem Decoded.inWords {block : Block} (harch : engine.target.arch = .aarch64)
    (h : Decoded tables engine code originalAddress priors block) :
    block.totalSize = 4 * block.insts.length ∧ 4 * block.insts.length ≤ code.length ∧
      ∀ k inst, block.insts[k]? = some inst →
        decodeOne tables engine (code.drop (4 * k)) (originalAddress + BitVec.ofNat 64 (4 * k)) (priors k) =
          .ok inst := by
  have hsize : ∀ inst ∈ block.insts, inst.size = 4 := by
    intro inst hmem
    obtain ⟨k, hk⟩ := List.mem_iff_getElem?.1 hmem
    obtain ⟨inst0, hdec, rfl⟩ := decodeOne_aarch64 harch (h.each k inst hk).decoded
    exact (A64.decodeOne_fromCode hdec).size
  have htotal : block.totalSize = 4 * block.insts.length := by
    rw [h.total, ← offsetOf_words hsize (Nat.le_refl _), offsetOf, List.take_length]
  have heach : ∀ k inst, block.insts[k]? = some inst →
      DecodedAt tables engine code originalAddress (4 * k) (priors k) inst := by
    intro k inst hk
    have hlt := (List.getElem?_eq_some_iff.1 hk).1
    have hat := h.each k inst hk
    rwa [offsetOf_words hsize hlt.le] at hat
  refine ⟨htotal, ?_, fun k inst hk => (heach k inst hk).decoded⟩
  cases hlast : block.insts.getLast? with
  | none =>
    rw [List.getLast?_eq_none_iff.1 hlast]
    exact Nat.zero_le _
  | some inst =>
    rw [List.getLast?_eq_getElem?] at hlast
    have hroom := (heach _ inst hlast).room
    have hlt := (List.getElem?_eq_some_iff.1 hlast).1
    rw [hsize inst (List.mem_of_getElem? hlast)] at hroom
    omega

/-- What a relocation without the scratch register leaves: `n` words carried over, and a jump. -/
structure CarriesPrologue (words : Words σ) (code : List Byte) (originalAddress relocatedAddress : BitVec 64)
    (options : RelocateOptions) (out : RelocateOut) (n : Nat) : Prop where
  count : n ≤ maxBlockInstructions
  room : 4 * n ≤ code.length
  length : out.code.length = 4 * (n + 1)
  words : ∀ k < n, words.Carries (load32le (out.code.drop (4 * k)))
    (relocatedAddress + BitVec.ofNat 64 (4 * k)) (load32le (code.drop (4 * k)))
    (originalAddress + BitVec.ofNat 64 (4 * k))
  jump : Isa.A64.isB (load32le (out.code.drop (4 * n))) = true ∧
    (load32le (out.code.drop (4 * n))).getLsbD 31 = false ∧
    reference (load32le (out.code.drop (4 * n))) (relocatedAddress + BitVec.ofNat 64 (4 * n)) =
      options.continuationAddress
  records : out.result.relocatedInsts = (List.range n).map (wordRecord originalAddress relocatedAddress)
  addresses : out.result.originalAddress = originalAddress ∧ out.result.relocatedAddress = relocatedAddress ∧
    out.result.continuationAddress = options.continuationAddress
  sizes : out.result.overwrittenSize = 4 * n ∧ out.result.relocatedSize = 4 * (n + 1) ∧
    out.result.jumpBackOffset = 4 * n

theorem relocatePrologue_carries (hrows : A64.OffsetRows tables.a64)
    (harch : engine.target.arch = .aarch64) (horiginal : 4 ∣ originalAddress.toNat)
    (hrelocated : 4 ∣ relocatedAddress.toNat)
    (hscratch : options.allowedClobberMaskLo &&& A64.x16Mask = 0)
    (hplain : PlainUnflagged words tables engine code originalAddress)
    (hok : (relocatePrologue tables engine code originalAddress relocatedAddress options capacity
      priors).status = .ok) :
    ∃ n, CarriesPrologue words code originalAddress relocatedAddress options
      (relocatePrologue tables engine code originalAddress relocatedAddress options capacity priors) n := by
  obtain ⟨-, block, t, hblock, hrun, heq⟩ := relocatePrologue_of_ok hok
  obtain ⟨hdecoded, hcount, -⟩ := decodeBlockUntil_decoded hblock
  obtain ⟨htotal, hroom, hdec⟩ := hdecoded.inWords harch
  have hcarried : t.CarriedWords words code originalAddress relocatedAddress (0 + block.insts.length) := by
    refine carriedWords_nil.run hrows harch horiginal hrelocated hscratch hplain ?_ hrun
    intro j inst hj
    rw [Nat.zero_add]
    exact ⟨_, hdec j inst hj⟩
  rw [Nat.zero_add] at hcarried
  rw [heq] at hok ⊢
  obtain ⟨hemit, hout⟩ := appendJumpBack_of_ok hok
  rw [hout]
  obtain ⟨w, hcode, hsize, hb, hlink, htarget⟩ := emitJump_word harch hscratch hemit
  rw [hcarried.offset] at hcode hsize htarget
  have hlength := hcarried.length
  have hjump : load32le ((t.code ++ store32le w).drop (4 * block.insts.length)) = w := by
    rw [List.drop_append_of_le_length (by omega), List.drop_of_length_le (by omega), List.nil_append,
      ← List.append_nil (store32le w), load32le_store32le]
  refine ⟨block.insts.length, ?_⟩
  simp only [hcarried.offset, hcode, hsize]
  refine ⟨hcount.trans (min_le_right _ _), hroom, ?_, ?_, ?_, hcarried.records, ⟨rfl, rfl, rfl⟩,
    ⟨htotal, (Nat.mul_add 4 _ 1).symm, rfl⟩⟩
  · rw [List.length_append, hlength, store32le_length, Nat.mul_add]
  · intro k hk
    rw [load32le_append _ (by omega)]
    exact hcarried.words k hk
  · rw [hjump]
    exact ⟨hb, hlink, htarget⟩

theorem CarriesPrologue.runsAlike {image image' : BitVec 64 → BitVec 32} {out : RelocateOut} {n : Nat}
    (h : CarriesPrologue words code originalAddress relocatedAddress options out n)
    (himage : HoldsCode image originalAddress code) (himage' : HoldsCode image' relocatedAddress out.code) :
    RunsAlike words image image' out.result := by
  obtain ⟨horiginal, hrelocated, hcontinuation⟩ := h.addresses
  obtain ⟨hoverwritten, hsize, hoffset⟩ := h.sizes
  have hlength := h.length
  have hroom := h.room
  have hcount : n ≤ 32 := h.count
  have hback : ∀ s, (words.machine image').step (s, relocatedAddress + BitVec.ofNat 64 (4 * n)) =
      some (.branch, (s, out.result.continuationAddress)) := by
    intro s
    obtain ⟨hb, hlink, htarget⟩ := h.jump
    have hword := himage' n (by omega)
    simp only [Words.machine, hword]
    rw [htarget, words.exec_b _ _ _ hb hlink, hcontinuation]
    rfl
  have hcarries : ∀ k < n, words.Carries (image' (relocatedAddress + BitVec.ofNat 64 (4 * k)))
      (relocatedAddress + BitVec.ofNat 64 (4 * k)) (image (originalAddress + BitVec.ofNat 64 (4 * k)))
      (originalAddress + BitVec.ofNat 64 (4 * k)) := by
    intro k hk
    rw [himage k (by omega), himage' k (by omega)]
    exact h.words k hk
  have hlockstep := lockstep_of_carries hcarries hback (by omega) h.records horiginal hoverwritten
  have hrecord : ∀ record ∈ out.result.relocatedInsts, ∃ k < n,
      wordRecord originalAddress relocatedAddress k = record := by
    intro record hmem
    rw [h.records, List.mem_map] at hmem
    obtain ⟨k, hk, heq⟩ := hmem
    exact ⟨k, List.mem_range.1 hk, heq⟩
  constructor
  · intro record hmem s t hl
    obtain ⟨k, hk, rfl⟩ := hrecord record hmem
    rw [horiginal, hoverwritten] at hl
    rw [hrelocated, hsize]
    exact hlockstep.leaves hk (atWord_record s k) hl
  · intro record hmem s t' hl
    obtain ⟨k, hk, rfl⟩ := hrecord record hmem
    rw [hrelocated, hsize] at hl
    rw [horiginal, hoverwritten]
    exact hlockstep.left_of_leaves hk (atWord_record s k) hl
  · intro s
    rw [hrelocated, hoffset]
    exact .branch (hback s)

/-- A trampoline that is built without the scratch register does what the prologue did. -/
theorem relocatePrologue_runsAlike {image image' : BitVec 64 → BitVec 32}
    (hrows : A64.OffsetRows tables.a64) (harch : engine.target.arch = .aarch64)
    (horiginal : 4 ∣ originalAddress.toNat) (hrelocated : 4 ∣ relocatedAddress.toNat)
    (hscratch : options.allowedClobberMaskLo &&& A64.x16Mask = 0)
    (hplain : PlainUnflagged words tables engine code originalAddress)
    (himage : HoldsCode image originalAddress code)
    (himage' : HoldsCode image' relocatedAddress
      (relocatePrologue tables engine code originalAddress relocatedAddress options capacity priors).code)
    (hok : (relocatePrologue tables engine code originalAddress relocatedAddress options capacity
      priors).status = .ok) :
    RunsAlike words image image'
      (relocatePrologue tables engine code originalAddress relocatedAddress options capacity priors).result := by
  obtain ⟨n, hcarries⟩ :=
    relocatePrologue_carries hrows harch horiginal hrelocated hscratch hplain hok
  exact hcarries.runsAlike himage himage'

/-! ## Branches and literal loads -/

theorem plainUnflagged_branchWords (hrows : A64.PcRelRows tables.a64) (harch : engine.target.arch = .aarch64) :
    PlainUnflagged Isa.A64.branchWords tables engine code originalAddress := by
  intro k prior inst hdec hflag
  cases hkind : Isa.A64.offsetKind (load32le (code.drop (4 * k))) with
  | none => exact Isa.A64.branchWords_plain hkind
  | some kind =>
    obtain ⟨row, hmem, -, -, -, inst0, hdecoded, rfl⟩ := decodeOne_pcRel hrows harch hkind hdec
    have hflagged : inst0.has InstFlag.pcRelative = true := hdecoded.has_pcRelative hmem
    exact absurd (hflagged.symm.trans hflag) (by decide)

/-- The memory of a piece of code. -/
def imageOf (address : BitVec 64) (code : List Byte) (p : BitVec 64) : BitVec 32 :=
  load32le (code.drop (p - address).toNat)

theorem holdsCode_imageOf (address : BitVec 64) (h : code.length < 2 ^ 64) :
    HoldsCode (imageOf address code) address code := by
  intro k hk
  rw [imageOf, BitVec.add_comm, BitVec.add_sub_cancel, BitVec.toNat_ofNat, Nat.mod_eq_of_lt (by omega)]

/-- `ldr x0`, `adr x1`, `bl` and `b.eq`, each with a place nearby. -/
def offsetCode : List Byte :=
  store32le 0x58000080 ++ store32le 0x10000081 ++ store32le 0x94000040 ++ store32le 0x54000080

/-- All four of them at `0x1000`, with their trampoline at `0x2000`. -/
theorem relocatePrologue_runsAlike_offsetCode :
    let out := relocatePrologue pcRelTables aarch64Engine offsetCode 0x1000 0x2000
      { minOverwriteSize := 16, continuationAddress := 0x1010 } 20 fun _ => aarch64Engine.emptyInst
    out.result.relocatedInsts.length = 4 ∧
      RunsAlike Isa.A64.branchWords (imageOf 0x1000 offsetCode) (imageOf 0x2000 out.code) out.result := by
  refine ⟨by decide, ?_⟩
  exact relocatePrologue_runsAlike A64.pcRelTables_offset rfl (by decide) (by decide) (by decide)
    (plainUnflagged_branchWords A64.pcRelTables_rows rfl) (holdsCode_imageOf _ (by decide))
    (holdsCode_imageOf _ (by decide)) (by decide)

end AsmKit
