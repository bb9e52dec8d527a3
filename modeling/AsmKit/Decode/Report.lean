import AsmKit.Decode.Errors
import AsmKit.Decode.Layout
import AsmKit.Lib.Grown
import Mathlib.Algebra.Order.BigOperators.Group.List

/-!
# What `asmkit_decode_block_until` reports

The loop as it runs, with its 32-bit total, and the report it leaves behind where it fails: the
longest run of instructions that its limits allow.
-/

namespace AsmKit

/-! ## The loop -/

/-- The report: the first `inst_count` records of the array, and their total. -/
structure BlockReport where
  insts : List Inst := []
  totalSize : BitVec 32 := 0
deriving DecidableEq, Repr

/-- A result that is not written is `none`. -/
structure BlockOut where
  status : Status
  report : Option BlockReport := none
deriving DecidableEq, Repr

/-- What comes after the loop. -/
def finishBlock (minSize : BitVec 32) (insts : List Inst) (total : BitVec 32) : BlockOut :=
  { status := if total < minSize then .outputTooSmall else .ok, report := some ⟨insts, total⟩ }

section

variable (tables : Tables) (engine : Engine) (code : List Byte) (address : BitVec 64)
  (minSize : BitVec 32) (capacity : Nat) (priors : Nat → Inst)

/-- The loop. The count is the length of the list, and `priors` is what the array held before. -/
def decodeBlockSteps (insts : List Inst) (total : BitVec 32) : BlockOut :=
  if total < minSize ∧ insts.length < capacity ∧ insts.length < maxBlockInstructions then
    let rest := code.drop total.toNat
    match decodeOne tables engine rest (address + BitVec.ofNat 64 total.toNat)
        (priors insts.length) with
    | .error status => { status, report := some ⟨insts, total⟩ }
    | .ok inst =>
      if inst.size = 0 ∨ rest.length < inst.size then
        { status := .decodeFailed, report := some ⟨insts, total⟩ }
      else
        let total' := total + BitVec.ofNat 32 inst.size
        if inst.has InstFlag.terminator ∧ total' < minSize then
          finishBlock minSize (insts ++ [inst]) total'
        else decodeBlockSteps (insts ++ [inst]) total'
  else finishBlock minSize insts total
termination_by maxBlockInstructions - insts.length
decreasing_by
  rw [List.length_append, List.length_singleton]
  omega

def decodeBlockReport : BlockOut :=
  if capacity = 0 then { status := .invalidArgument }
  else decodeBlockSteps tables engine code address minSize capacity priors [] 0

/-! ## Prefixes -/

/-- The bytes that the instructions take. -/
def totalOf (insts : List Inst) : Nat := (insts.map (·.size)).sum

/-- A run of instructions that the decoder may report: each is decoded where the one before it ends,
and none is decoded behind a terminator or when there are enough. -/
structure BlockPrefix (insts : List Inst) : Prop where
  pieces : ∀ k inst, insts[k]? = some inst →
    DecodedAt tables engine code address (offsetOf insts k) (priors k) inst
  count : insts.length ≤ min capacity maxBlockInstructions
  short : ∀ k < insts.length, offsetOf insts k < minSize.toNat
  straight : ∀ k inst, insts[k]? = some inst → inst.has InstFlag.terminator = true →
    k + 1 = insts.length

/-- What is decoded behind the instructions. -/
def nextPiece (insts : List Inst) : Option Inst :=
  match decodeOne tables engine (code.drop (totalOf insts))
      (address + BitVec.ofNat 64 (totalOf insts)) (priors insts.length) with
  | .error _ => none
  | .ok inst => if 0 < inst.size ∧ totalOf insts + inst.size ≤ code.length then some inst else none

end

open Growth

variable {tables : Tables} {engine : Engine} {code : List Byte} {address : BitVec 64}
  {minSize : BitVec 32} {capacity : Nat} {priors : Nat → Inst} {insts insts' : List Inst} {inst : Inst}

@[simp] theorem totalOf_nil : totalOf [] = 0 := rfl

@[simp] theorem totalOf_concat : totalOf (insts ++ [inst]) = totalOf insts + inst.size := by
  simp [totalOf]

theorem offsetOf_eq (k : Nat) : offsetOf insts k = totalOf (insts.take k) := rfl

theorem nextPiece_eq_some_iff : nextPiece tables engine code address priors insts = some inst ↔
    DecodedAt tables engine code address (totalOf insts) (priors insts.length) inst := by
  unfold nextPiece
  split
  · next h =>
    refine iff_of_false nofun fun h' => ?_
    have hdecoded := h'.decoded
    rw [h] at hdecoded
    cases hdecoded
  · next other h =>
    split
    · next hsize =>
      constructor
      · intro heq
        cases heq
        exact ⟨h, hsize.1, hsize.2⟩
      · intro h'
        have hdecoded := h'.decoded
        rw [h] at hdecoded
        cases hdecoded
        rfl
    · next hsize =>
      refine iff_of_false nofun fun h' => ?_
      have hdecoded := h'.decoded
      rw [h] at hdecoded
      cases hdecoded
      exact hsize ⟨h'.pos, h'.room⟩

theorem grown_nextPiece_iff : Grown (nextPiece tables engine code address priors) insts ↔
    ∀ k inst, insts[k]? = some inst →
      DecodedAt tables engine code address (offsetOf insts k) (priors k) inst := by
  refine forall_congr' fun k => forall_congr' fun inst => imp_congr_right fun hk => ?_
  have hlength : (insts.take k).length = k := by
    rw [List.length_take]
    have := (List.getElem?_eq_some_iff.1 hk).1
    omega
  rw [nextPiece_eq_some_iff, hlength]
  rfl

theorem blockPrefix_nil : BlockPrefix tables engine code address minSize capacity priors [] :=
  ⟨by simp, by simp, by simp, by simp⟩

theorem offsetOf_concat {k : Nat} (hk : k ≤ insts.length) :
    offsetOf (insts ++ [inst]) k = offsetOf insts k := by
  rw [offsetOf, List.take_append_of_le_length hk]
  rfl

theorem offsetOf_length : offsetOf insts insts.length = totalOf insts := by
  rw [offsetOf_eq, List.take_length]

theorem pieces_concat_iff :
    (∀ k other, (insts ++ [inst])[k]? = some other →
      DecodedAt tables engine code address (offsetOf (insts ++ [inst]) k) (priors k) other) ↔
    (∀ k other, insts[k]? = some other →
      DecodedAt tables engine code address (offsetOf insts k) (priors k) other) ∧
      DecodedAt tables engine code address (totalOf insts) (priors insts.length) inst := by
  rw [← grown_nextPiece_iff, grown_concat_iff, grown_nextPiece_iff, nextPiece_eq_some_iff]

theorem short_concat_iff {n : Nat} :
    (∀ k < (insts ++ [inst]).length, offsetOf (insts ++ [inst]) k < n) ↔
      (∀ k < insts.length, offsetOf insts k < n) ∧ totalOf insts < n := by
  rw [← offsetOf_length, List.length_append, List.length_singleton]
  constructor
  · intro h
    refine ⟨fun k hk => ?_, ?_⟩
    · have := h k (by omega)
      rwa [offsetOf_concat hk.le] at this
    · have := h insts.length (by omega)
      rwa [offsetOf_concat (Nat.le_refl _)] at this
  · rintro ⟨h, hlast⟩ k hk
    rw [offsetOf_concat (by omega)]
    rcases Nat.lt_succ_iff_lt_or_eq.1 hk with hlt | rfl
    · exact h k hlt
    · exact hlast

theorem straight_concat_iff :
    (∀ k other, (insts ++ [inst])[k]? = some other → other.has InstFlag.terminator = true →
      k + 1 = (insts ++ [inst]).length) ↔
    ∀ other ∈ insts, other.has InstFlag.terminator = false := by
  rw [List.length_append, List.length_singleton]
  constructor
  · intro h other hmem
    obtain ⟨k, hk, hother⟩ := List.getElem_of_mem hmem
    by_contra hterm
    have := h k other (by rw [List.getElem?_append_left hk, List.getElem?_eq_getElem hk, hother])
      (Bool.eq_true_of_not_eq_false hterm)
    omega
  · intro h k other hk hterm
    rcases Nat.lt_or_ge k insts.length with hlt | hge
    · rw [List.getElem?_append_left hlt] at hk
      rw [h other (List.mem_of_getElem? hk)] at hterm
      cases hterm
    · have := (List.getElem?_eq_some_iff.1 hk).1
      simp at this
      omega

theorem blockPrefix_concat_iff :
    BlockPrefix tables engine code address minSize capacity priors (insts ++ [inst]) ↔
      BlockPrefix tables engine code address minSize capacity priors insts ∧
      DecodedAt tables engine code address (totalOf insts) (priors insts.length) inst ∧
      insts.length < min capacity maxBlockInstructions ∧ totalOf insts < minSize.toNat ∧
      ∀ other ∈ insts, other.has InstFlag.terminator = false := by
  constructor
  · rintro ⟨hpieces, hcount, hshort, hstraight⟩
    obtain ⟨hpieces, hinst⟩ := pieces_concat_iff.1 hpieces
    obtain ⟨hshort, hlast⟩ := short_concat_iff.1 hshort
    have hopen := straight_concat_iff.1 hstraight
    rw [List.length_append, List.length_singleton] at hcount
    refine ⟨⟨hpieces, by omega, hshort, fun k other hk hterm => ?_⟩, hinst, hcount, hlast, hopen⟩
    rw [hopen other (List.mem_of_getElem? hk)] at hterm
    cases hterm
  · rintro ⟨⟨hpieces, -, hshort, -⟩, hinst, hcount, hlast, hopen⟩
    refine ⟨pieces_concat_iff.2 ⟨hpieces, hinst⟩, ?_, short_concat_iff.2 ⟨hshort, hlast⟩,
      straight_concat_iff.2 hopen⟩
    rw [List.length_append, List.length_singleton]
    exact hcount

theorem BlockPrefix.of_isPrefix (h : BlockPrefix tables engine code address minSize capacity priors insts')
    (hbegins : insts <+: insts') :
    BlockPrefix tables engine code address minSize capacity priors insts := by
  obtain ⟨rest, rfl⟩ := hbegins
  induction rest using List.reverseRecOn with
  | nil => simpa using h
  | append_singleton rest inst ih =>
    rw [← List.append_assoc, blockPrefix_concat_iff] at h
    exact ih h.1

/-- A prefix that does not go on is the longest. -/
theorem BlockPrefix.longest
    (h : BlockPrefix tables engine code address minSize capacity priors insts)
    (hstuck : ∀ inst,
      ¬ BlockPrefix tables engine code address minSize capacity priors (insts ++ [inst]))
    (h' : BlockPrefix tables engine code address minSize capacity priors insts') : insts' <+: insts :=
  (grown_nextPiece_iff.2 h.pieces).isPrefix_of_stuck (grown_nextPiece_iff.2 h'.pieces)
    fun inst hbegins => hstuck inst (h'.of_isPrefix hbegins)

/-! ## The loop and the longest prefix -/

/-- What is assumed of `asmkit_decode_one` on this code: it reports the address it was given and a
size that fits a record, and does not fail with the status of a success. -/
structure DecodesWell (tables : Tables) (engine : Engine) (code : List Byte) (address : BitVec 64) :
    Prop where
  reports : ∀ offset prior inst, decodeOne tables engine (code.drop offset)
    (address + BitVec.ofNat 64 offset) prior = .ok inst →
      inst.address = address + BitVec.ofNat 64 offset ∧ inst.size ≤ maxInstBytes
  loud : ∀ offset prior, FailsLoudly (decodeOne tables engine (code.drop offset)
    (address + BitVec.ofNat 64 offset) prior)

theorem totalOf_le {n : Nat} (h : ∀ inst ∈ insts, inst.size ≤ n) : totalOf insts ≤ insts.length * n := by
  have hsum := List.sum_le_card_nsmul (insts.map (·.size)) n (by simpa using h)
  simpa [totalOf] using hsum

theorem BlockPrefix.totalOf_le (hwell : DecodesWell tables engine code address)
    (h : BlockPrefix tables engine code address minSize capacity priors insts) :
    totalOf insts ≤ maxBlockInstructions * maxInstBytes := by
  have hcount : insts.length ≤ maxBlockInstructions := h.count.trans (min_le_right _ _)
  have heach : ∀ inst ∈ insts, inst.size ≤ maxInstBytes := by
    intro inst hmem
    obtain ⟨k, hk, rfl⟩ := List.getElem_of_mem hmem
    exact (hwell.reports _ _ _ (h.pieces k _ (List.getElem?_eq_getElem hk)).decoded).2
  exact (AsmKit.totalOf_le heach).trans (Nat.mul_le_mul_right _ hcount)

/-- A report of the longest prefix, with its total. The status tells whether it is enough. -/
structure Longest (tables : Tables) (engine : Engine) (code : List Byte) (address : BitVec 64)
    (minSize : BitVec 32) (capacity : Nat) (priors : Nat → Inst) (out : BlockOut)
    (report : BlockReport) : Prop where
  written : out.report = some report
  total : report.totalSize.toNat = totalOf report.insts
  allowed : BlockPrefix tables engine code address minSize capacity priors report.insts
  longest : ∀ insts, BlockPrefix tables engine code address minSize capacity priors insts →
    insts <+: report.insts
  status : out.status = .ok ↔ minSize.toNat ≤ totalOf report.insts

theorem longest_finishBlock {total : BitVec 32}
    (h : BlockPrefix tables engine code address minSize capacity priors insts)
    (htotal : total.toNat = totalOf insts)
    (hstuck : ∀ inst,
      ¬ BlockPrefix tables engine code address minSize capacity priors (insts ++ [inst])) :
    Longest tables engine code address minSize capacity priors (finishBlock minSize insts total)
      ⟨insts, total⟩ := by
  refine ⟨rfl, htotal, h, fun _ h' => h.longest hstuck h', ?_⟩
  have hlt : total < minSize ↔ totalOf insts < minSize.toNat := by rw [BitVec.lt_def, htotal]
  unfold finishBlock
  by_cases hshort : total < minSize
  · simp [hshort, Nat.not_le_of_lt (hlt.1 hshort)]
  · simpa [hshort] using not_lt.1 (fun h => hshort (hlt.2 h))

theorem longest_of_failed {total : BitVec 32} {status : Status}
    (h : BlockPrefix tables engine code address minSize capacity priors insts)
    (htotal : total.toNat = totalOf insts) (hshort : totalOf insts < minSize.toNat)
    (hstatus : status ≠ .ok)
    (hfailed : ∀ inst,
      ¬ DecodedAt tables engine code address (totalOf insts) (priors insts.length) inst) :
    Longest tables engine code address minSize capacity priors
      { status, report := some ⟨insts, total⟩ } ⟨insts, total⟩ := by
  refine ⟨rfl, htotal, h, fun _ h' => h.longest (fun inst h' => ?_) h', ?_⟩
  · exact hfailed inst (blockPrefix_concat_iff.1 h').2.1
  · exact iff_of_false hstatus (Nat.not_le_of_lt hshort)

theorem total_concat (hwell : DecodesWell tables engine code address) {total : BitVec 32}
    (h : BlockPrefix tables engine code address minSize capacity priors (insts ++ [inst]))
    (htotal : total.toNat = totalOf insts) :
    (total + BitVec.ofNat 32 inst.size).toNat = totalOf (insts ++ [inst]) := by
  have hle := h.totalOf_le hwell
  rw [totalOf_concat] at hle ⊢
  have hlimit : maxBlockInstructions * maxInstBytes < 2 ^ 32 := by decide
  rw [BitVec.toNat_add, BitVec.toNat_ofNat, htotal]
  omega

theorem BlockPrefix.step {total : BitVec 32}
    (h : BlockPrefix tables engine code address minSize capacity priors insts)
    (htotal : total.toNat = totalOf insts)
    (hopen : totalOf insts < minSize.toNat →
      ∀ other ∈ insts, other.has InstFlag.terminator = false)
    (hguard : total < minSize ∧ insts.length < capacity ∧ insts.length < maxBlockInstructions)
    (hdec : decodeOne tables engine (code.drop total.toNat)
      (address + BitVec.ofNat 64 total.toNat) (priors insts.length) = .ok inst)
    (hsize : ¬ (inst.size = 0 ∨ (code.drop total.toNat).length < inst.size)) :
    BlockPrefix tables engine code address minSize capacity priors (insts ++ [inst]) := by
  have hshort : totalOf insts < minSize.toNat := by
    rw [← htotal]
    exact hguard.1
  rw [htotal] at hdec hsize
  rw [List.length_drop] at hsize
  exact blockPrefix_concat_iff.2 ⟨h, ⟨hdec, by omega, by omega⟩, by omega, hshort, hopen hshort⟩

theorem BlockPrefix.straight_of_short {total : BitVec 32}
    (h : BlockPrefix tables engine code address minSize capacity priors (insts ++ [inst]))
    (htotal : total.toNat = totalOf (insts ++ [inst]))
    (hterm : ¬ (inst.has InstFlag.terminator = true ∧ total < minSize))
    (hshort : totalOf (insts ++ [inst]) < minSize.toNat) :
    ∀ other ∈ insts ++ [inst], other.has InstFlag.terminator = false := by
  rw [← htotal] at hshort
  have hlast : inst.has InstFlag.terminator = false := by
    by_contra hflag
    exact hterm ⟨Bool.eq_true_of_not_eq_false hflag, hshort⟩
  intro other hmem
  rcases List.mem_append.1 hmem with hmem | hmem
  · exact (blockPrefix_concat_iff.1 h).2.2.2.2 other hmem
  · rw [List.mem_singleton.1 hmem]
    exact hlast

theorem decodeBlockSteps_longest (hwell : DecodesWell tables engine code address) {total : BitVec 32}
    (h : BlockPrefix tables engine code address minSize capacity priors insts)
    (htotal : total.toNat = totalOf insts)
    (hopen : totalOf insts < minSize.toNat →
      ∀ other ∈ insts, other.has InstFlag.terminator = false) :
    ∃ report, Longest tables engine code address minSize capacity priors
      (decodeBlockSteps tables engine code address minSize capacity priors insts total) report := by
  induction insts, total using decodeBlockSteps.induct tables engine code address minSize capacity
      priors with
  | case1 insts total hguard rest status herror =>
    have hshort : totalOf insts < minSize.toNat := by
      rw [← htotal]
      exact hguard.1
    rw [decodeBlockSteps, if_pos hguard]
    simp only [rest, htotal] at herror ⊢
    rw [herror]
    refine ⟨_, longest_of_failed h htotal hshort ?_ fun inst hinst => ?_⟩
    · exact (herror ▸ hwell.loud (totalOf insts) _).status_ne_ok
    · have hdecoded := hinst.decoded
      rw [herror] at hdecoded
      cases hdecoded
  | case2 insts total hguard rest inst hdec hbogus =>
    have hshort : totalOf insts < minSize.toNat := by
      rw [← htotal]
      exact hguard.1
    rw [decodeBlockSteps, if_pos hguard]
    simp only [rest, htotal] at hdec hbogus ⊢
    rw [hdec]
    simp only [if_pos hbogus]
    refine ⟨_, longest_of_failed h htotal hshort (by decide) fun other hother => ?_⟩
    have hdecoded := hother.decoded
    rw [hdec] at hdecoded
    cases hdecoded
    have hpos := hother.pos
    have hroom := hother.room
    rw [List.length_drop] at hbogus
    omega
  | case3 insts total hguard rest inst hdec hsize total' hterm =>
    have hnext := h.step htotal hopen hguard hdec hsize
    rw [decodeBlockSteps, if_pos hguard]
    simp only [rest] at hdec hsize
    simp only [hdec, if_neg hsize]
    rw [if_pos hterm]
    refine ⟨_, longest_finishBlock hnext (total_concat hwell hnext htotal) fun other h' => ?_⟩
    have hstraight := (blockPrefix_concat_iff.1 h').2.2.2.2 inst (by simp)
    rw [hterm.1] at hstraight
    cases hstraight
  | case4 insts total hguard rest inst hdec hsize total' hterm ih =>
    have hnext := h.step htotal hopen hguard hdec hsize
    have htotal' := total_concat hwell hnext htotal
    rw [decodeBlockSteps, if_pos hguard]
    simp only [rest] at hdec hsize
    simp only [hdec, if_neg hsize]
    rw [if_neg hterm]
    exact ih hnext htotal' (hnext.straight_of_short htotal' hterm)
  | case5 insts total hguard =>
    rw [decodeBlockSteps, if_neg hguard]
    refine ⟨_, longest_finishBlock h htotal fun inst h' => hguard ?_⟩
    obtain ⟨-, -, hcount, hshort, -⟩ := blockPrefix_concat_iff.1 h'
    rw [← htotal] at hshort
    exact ⟨hshort, by omega, by omega⟩

variable (minSize priors) in
theorem decodeBlockReport_longest (hwell : DecodesWell tables engine code address)
    (hcapacity : capacity ≠ 0) : ∃ report, Longest tables engine code address minSize capacity priors
      (decodeBlockReport tables engine code address minSize capacity priors) report := by
  rw [decodeBlockReport, if_neg hcapacity]
  exact decodeBlockSteps_longest hwell blockPrefix_nil rfl (fun _ => by simp)

/-! ## The report -/

theorem BlockPrefix.eq_of_enough
    (h : BlockPrefix tables engine code address minSize capacity priors insts')
    (hbegins : insts <+: insts') (henough : minSize.toNat ≤ totalOf insts) : insts' = insts := by
  obtain ⟨rest, rfl⟩ := hbegins
  cases rest with
  | nil => simp
  | cons inst rest =>
    have hshort := h.short insts.length (by simp)
    rw [offsetOf, List.take_left] at hshort
    exact absurd hshort (Nat.not_lt_of_le henough)

/-! ## The block -/

/-- A report that is accepted, as a block. -/
def BlockOut.block (out : BlockOut) : Except Status Block :=
  if out.status = .ok then
    let report := out.report.getD {}
    .ok ⟨report.insts, report.totalSize.toNat⟩
  else .error out.status

/-- What comes after the loop over blocks. -/
def enoughOf (minSize : Nat) : Except Status Block → Except Status Block
  | .error status => .error status
  | .ok block => if block.totalSize < minSize then .error .outputTooSmall else .ok block

theorem finishBlock_block {total : BitVec 32} (htotal : total.toNat = totalOf insts) :
    (finishBlock minSize insts total).block = enoughOf minSize.toNat (.ok ⟨insts, totalOf insts⟩) := by
  have hlt : total < minSize ↔ totalOf insts < minSize.toNat := by rw [BitVec.lt_def, htotal]
  unfold finishBlock BlockOut.block enoughOf
  simp only [hlt]
  split
  · rfl
  · simp [htotal]

theorem decodeBlockLoop_of_enough {n fuel : Nat} {block : Block} (h : n ≤ block.totalSize) :
    decodeBlockLoop tables engine code address n priors fuel block = .ok block := by
  cases fuel with
  | zero => rfl
  | succ fuel => rw [decodeBlockLoop, if_pos h]

theorem decodeBlockLoop_round {total : BitVec 32} (htotal : total.toNat = totalOf insts)
    (hguard : total < minSize ∧ insts.length < capacity ∧ insts.length < maxBlockInstructions) :
    decodeBlockLoop tables engine code address minSize.toNat priors
        (min capacity maxBlockInstructions - insts.length) ⟨insts, totalOf insts⟩ =
      match decodeOne tables engine (code.drop total.toNat) (address + BitVec.ofNat 64 total.toNat)
          (priors insts.length) with
      | .error status => .error status
      | .ok inst =>
        if inst.size = 0 ∨ (code.drop total.toNat).length < inst.size then .error .decodeFailed
        else if inst.has InstFlag.terminator then
          .ok ⟨insts ++ [inst], totalOf (insts ++ [inst])⟩
        else decodeBlockLoop tables engine code address minSize.toNat priors
          (min capacity maxBlockInstructions - (insts ++ [inst]).length)
          ⟨insts ++ [inst], totalOf (insts ++ [inst])⟩ := by
  obtain ⟨fuel, hfuel⟩ := Nat.exists_eq_add_one_of_ne_zero
    (show min capacity maxBlockInstructions - insts.length ≠ 0 by omega)
  have hnext (inst : Inst) :
      min capacity maxBlockInstructions - (insts ++ [inst]).length = fuel := by
    rw [List.length_append, List.length_singleton]
    omega
  have hshort : ¬ minSize.toNat ≤ totalOf insts := by
    rw [← htotal]
    exact Nat.not_le_of_lt hguard.1
  rw [hfuel, decodeBlockLoop, if_neg hshort]
  simp only [htotal]
  cases decodeOne tables engine (code.drop (totalOf insts))
      (address + BitVec.ofNat 64 (totalOf insts)) (priors insts.length) with
  | error status => rfl
  | ok inst => simp only [hnext, totalOf_concat, Block.push]

theorem decodeBlockSteps_block (hwell : DecodesWell tables engine code address) {total : BitVec 32}
    (h : BlockPrefix tables engine code address minSize capacity priors insts)
    (htotal : total.toNat = totalOf insts)
    (hopen : totalOf insts < minSize.toNat →
      ∀ other ∈ insts, other.has InstFlag.terminator = false) :
    (decodeBlockSteps tables engine code address minSize capacity priors insts total).block =
      enoughOf minSize.toNat (decodeBlockLoop tables engine code address minSize.toNat priors
        (min capacity maxBlockInstructions - insts.length) ⟨insts, totalOf insts⟩) := by
  induction insts, total using decodeBlockSteps.induct tables engine code address minSize capacity
      priors with
  | case1 insts total hguard rest status herror =>
    have hstatus : status ≠ .ok := (herror ▸ hwell.loud total.toNat _).status_ne_ok
    rw [decodeBlockSteps, if_pos hguard, decodeBlockLoop_round htotal hguard]
    simp only [rest] at herror ⊢
    rw [herror]
    simp [BlockOut.block, enoughOf, hstatus]
  | case2 insts total hguard rest inst hdec hsize =>
    rw [decodeBlockSteps, if_pos hguard, decodeBlockLoop_round htotal hguard]
    simp only [rest] at hdec hsize ⊢
    rw [hdec]
    simp only [if_pos hsize]
    rfl
  | case3 insts total hguard rest inst hdec hsize total' hterm =>
    have htotal' := total_concat hwell (h.step htotal hopen hguard hdec hsize) htotal
    rw [decodeBlockSteps, if_pos hguard, decodeBlockLoop_round htotal hguard]
    simp only [rest] at hdec hsize ⊢
    simp only [hdec, if_neg hsize]
    rw [if_pos hterm, if_pos hterm.1]
    exact finishBlock_block htotal'
  | case4 insts total hguard rest inst hdec hsize total' hterm ih =>
    have hnext := h.step htotal hopen hguard hdec hsize
    have htotal' := total_concat hwell hnext htotal
    have hrest := ih hnext htotal' (hnext.straight_of_short htotal' hterm)
    rw [decodeBlockSteps, if_pos hguard, decodeBlockLoop_round htotal hguard]
    simp only [rest] at hdec hsize ⊢
    simp only [hdec, if_neg hsize]
    rw [if_neg hterm, hrest]
    split
    · next hflag =>
      -- A terminator with enough behind it ends both loops.
      have henough : minSize.toNat ≤ totalOf (insts ++ [inst]) := by
        rw [← htotal']
        exact not_lt.1 fun hshort => hterm ⟨hflag, hshort⟩
      rw [decodeBlockLoop_of_enough henough]
    · rfl
  | case5 insts total hguard =>
    rw [decodeBlockSteps, if_neg hguard, finishBlock_block htotal]
    by_cases hshort : total < minSize
    · have hfuel : min capacity maxBlockInstructions - insts.length = 0 := by
        have hlimit : ¬ (insts.length < capacity ∧ insts.length < maxBlockInstructions) :=
          fun h => hguard ⟨hshort, h⟩
        omega
      rw [hfuel]
      rfl
    · rw [decodeBlockLoop_of_enough]
      rw [← htotal]
      exact not_lt.1 hshort

/-- The block that planning and relocation go by is the one of the report. -/
theorem decodeBlockUntil_eq_report (hwell : DecodesWell tables engine code address) :
    decodeBlockUntil tables engine code address minSize.toNat capacity priors =
      (decodeBlockReport tables engine code address minSize capacity priors).block := by
  rw [decodeBlockUntil, decodeBlockReport]
  split
  · rfl
  · exact (decodeBlockSteps_block hwell blockPrefix_nil rfl fun _ => by simp).symm

/-! ## What a report says -/

/-- What a report says: successive pieces of the code, as far as the limits allow, and a status that
tells whether they are enough. -/
structure Reports (tables : Tables) (engine : Engine) (code : List Byte) (address : BitVec 64)
    (minSize : BitVec 32) (capacity : Nat) (priors : Nat → Inst) (out : BlockOut)
    (report : BlockReport) : Prop where
  written : out.report = some report
  pieces : ∀ k inst, report.insts[k]? = some inst →
    DecodedAt tables engine code address (offsetOf report.insts k) (priors k) inst ∧
      inst.address = address + BitVec.ofNat 64 (offsetOf report.insts k)
  total : report.totalSize.toNat = totalOf report.insts
  inside : totalOf report.insts ≤ code.length
  accepted : out.status = .ok ↔ ∃ insts,
    BlockPrefix tables engine code address minSize capacity priors insts ∧
      minSize.toNat ≤ totalOf insts
  shortest : ∀ insts, BlockPrefix tables engine code address minSize capacity priors insts →
    minSize.toNat ≤ totalOf insts → report.insts = insts
  allowed : BlockPrefix tables engine code address minSize capacity priors report.insts
  longest : ∀ insts, BlockPrefix tables engine code address minSize capacity priors insts →
    insts <+: report.insts

/-- The block decoder reports the longest prefix, and accepts it when it is enough; the block that is
then gone by is that one. Without a place for an instruction it refuses, and reports nothing. -/
theorem decodeBlockReport_spec (hwell : DecodesWell tables engine code address) (minSize : BitVec 32)
    (capacity : Nat) (priors : Nat → Inst) :
    (capacity ≠ 0 → ∃ report, Reports tables engine code address minSize capacity priors
      (decodeBlockReport tables engine code address minSize capacity priors) report) ∧
    (capacity = 0 → decodeBlockReport tables engine code address minSize capacity priors =
      { status := .invalidArgument, report := none }) ∧
    decodeBlockUntil tables engine code address minSize.toNat capacity priors =
      (decodeBlockReport tables engine code address minSize capacity priors).block := by
  refine ⟨fun hcapacity => ?_, fun hcapacity => by rw [decodeBlockReport, if_pos hcapacity],
    decodeBlockUntil_eq_report hwell⟩
  obtain ⟨report, h⟩ := decodeBlockReport_longest minSize priors hwell hcapacity
  have hdecoded : Decoded tables engine code address priors ⟨report.insts, totalOf report.insts⟩ :=
    ⟨rfl, h.allowed.pieces⟩
  refine ⟨report, h.written, fun k inst hk => ?_, h.total, hdecoded.totalSize_le, ?_, ?_, h.allowed,
    h.longest⟩
  · have hpiece := h.allowed.pieces k inst hk
    exact ⟨hpiece, (hwell.reports _ _ _ hpiece.decoded).1⟩
  · rw [h.status]
    constructor
    · exact fun henough => ⟨_, h.allowed, henough⟩
    · rintro ⟨insts, hinsts, henough⟩
      rwa [h.allowed.eq_of_enough (h.longest insts hinsts) henough]
  · exact fun insts hinsts henough => h.allowed.eq_of_enough (h.longest insts hinsts) henough

theorem decodesWell_of_aarch64 (harch : engine.target.arch = .aarch64) :
    DecodesWell tables engine code address := by
  have hbpf : engine.target.arch ≠ .bpf := by rw [harch]; decide
  have hwasm : engine.target.arch ≠ .wasm := by rw [harch]; decide
  refine ⟨fun offset prior inst hdec => ⟨?_, ?_⟩, fun offset prior =>
    decodeOne_failsLoudly hbpf hwasm prior⟩
  · have hleft : leavesRecord tables engine (code.drop offset) = false := by
      rw [leavesRecord, harch]
      rfl
    exact ((decodeOne_writesUnless hbpf hwasm).writes hleft prior inst hdec).address
  · obtain ⟨inst0, hdec0, rfl⟩ := decodeOne_eq_ok hdec
    rw [targetDecodeOne, harch] at hdec0
    exact (A64.decodeOne_fromCode hdec0).size.le.trans (by decide)

/-- The second word is not there: the report has the first. -/
theorem decodeBlockReport_a64 : ∃ report, Reports noTables aarch64Engine [0x1f, 0x20, 0x03, 0xd5, 0]
    0x1000 8 4 (fun _ => aarch64Engine.emptyInst)
    (decodeBlockReport noTables aarch64Engine [0x1f, 0x20, 0x03, 0xd5, 0] 0x1000 8 4
      fun _ => aarch64Engine.emptyInst) report :=
  (decodeBlockReport_spec (decodesWell_of_aarch64 rfl) 8 4 fun _ => aarch64Engine.emptyInst).1 (by decide)

/-- Nothing at all is enough for a size of zero, and yet it is refused. -/
theorem decodeBlockReport_no_capacity :
    ∃ (tables : Tables) (engine : Engine) (code : List Byte) (address : BitVec 64)
      (minSize : BitVec 32) (capacity : Nat) (priors : Nat → Inst),
      DecodesWell tables engine code address ∧
      (∃ insts, BlockPrefix tables engine code address minSize capacity priors insts ∧
        minSize.toNat ≤ totalOf insts) ∧
      (decodeBlockReport tables engine code address minSize capacity priors).status ≠ .ok :=
  ⟨noTables, aarch64Engine, [], 0x1000, 0, 0, fun _ => aarch64Engine.emptyInst,
    decodesWell_of_aarch64 rfl, ⟨[], blockPrefix_nil, Nat.le_refl _⟩, by decide⟩

end AsmKit
