import AsmKit.Arm.Rows

/-!
# The row of a Thumb instruction

A Thumb instruction that the tables know was found for its halfword, for the word of its two
halfwords, or for a word that shares a space with A32.
-/

namespace AsmKit.Arm

/-- The two halfwords, the first on top. -/
def thumbWord (code : List Byte) : BitVec 32 :=
  ((load16le code).setWidth 32 <<< 16) ||| (load16le (code.drop 2)).setWidth 32

/-- The word of an instruction of 2 or 4 bytes. -/
def rowWord (code : List Byte) (size : Nat) : BitVec 32 :=
  if size = 2 then (load16le code).setWidth 32 else thumbWord code

/-- The word that a row of the tables is tried on. -/
inductive ThumbRow (tables : Tables) (code : List Byte) (record : Record) : BitVec 32 → Prop
  | thumb (size i : Nat) (hmem : (i, record) ∈ tables.thumbCandidates size (rowWord code size)) :
      ThumbRow tables code record (rowWord code size)
  | shared (word : BitVec 32) (i : Nat) (hmem : (i, record) ∈ tables.a32Candidates word) :
      ThumbRow tables code record word

/-- The ids that the decoder gives by hand have these mnemonics. -/
def handMnemonics : List Nat :=
  [0, Mnemonic.other, Mnemonic.b, Mnemonic.bl, Mnemonic.blx, Mnemonic.bx, Mnemonic.it, Mnemonic.ldr]

theorem mnemonicId_mem (id : Nat) : mnemonicId id ∈ handMnemonics := by
  unfold mnemonicId
  simp only [List.lookup_cons, List.lookup_nil]
  repeat' split
  all_goals decide

/-- Where a Thumb instruction comes from. -/
inductive FromThumb (tables : Tables) (engine : Engine) (code : List Byte) (address : BitVec 64)
    (inst : Inst) : Prop
  | byHand (hmem : inst.mnemonicId ∈ handMnemonics)
  | row (word : BitVec 32) (record : Record) (hrow : ThumbRow tables code record word)
      (hvalue : word &&& record.mask = record.value)
      (hfinish : finishTd tables engine code address word record = .ok inst)

section

variable {tables : Tables} {engine : Engine} {code : List Byte} {address : BitVec 64} {inst : Inst}
  {word : BitVec 32}

theorem decodeTd_eq_ok {find : Bool → Option Record}
    (h : decodeTd tables engine code address word find = some (.ok inst)) :
    ∃ record, find true = some record ∧ finishTd tables engine code address word record = .ok inst := by
  unfold decodeTd at h
  split at h
  · rename_i record hrecord
    exact ⟨record, hrecord, Option.some.inj h⟩
  · split at h
    · cases Option.some.inj h
    · cases h

theorem fromThumb_of_finish {size id : Nat} {instClass : InstClass} {flags : BitVec 32}
    {operands : List Operand}
    (h : Except.ok (finish engine code address size id instClass flags operands) =
      (.ok inst : Except Status Inst)) : FromThumb tables engine code address inst := by
  cases h
  exact .byHand (mnemonicId_mem id)

theorem getD_fromThumb {found : Option (Except Status Inst)} {size : Nat}
    (hfound : found = some (.ok inst) → FromThumb tables engine code address inst)
    (h : found.getD (.ok (finish engine code address size Id.other .other 0)) = .ok inst) :
    FromThumb tables engine code address inst := by
  cases found with
  | none => exact fromThumb_of_finish h
  | some result =>
    rw [Option.getD_some] at h
    exact hfound (congrArg some h)

theorem decodeTd_fromThumb {candidates : List (Nat × Record)} {space : SpaceRequest}
    (hrow : ∀ i record, (i, record) ∈ candidates → ThumbRow tables code record word)
    (h : decodeTd tables engine code address word
      (findTdRecord tables engine candidates word space) = some (.ok inst)) :
    FromThumb tables engine code address inst := by
  obtain ⟨record, hfind, hfinish⟩ := decodeTd_eq_ok h
  obtain ⟨⟨i, hmem⟩, hvalue⟩ := findTdRecord_eq_some hfind
  exact .row word record (hrow i record hmem) hvalue hfinish

theorem decodeThumb32Td_fromThumb
    (h : decodeThumb32Td tables engine code address (thumbWord code) = some (.ok inst)) :
    FromThumb tables engine code address inst := by
  simp only [decodeThumb32Td, Option.orElse_eq_orElse, Option.orElse_eq_or, Option.or_eq_some_iff] at h
  have hlong : ∀ i record, (i, record) ∈ tables.thumbCandidates 4 (thumbWord code) →
      ThumbRow tables code record (thumbWord code) := fun i record hmem => .thumb 4 i hmem
  rcases h with h | ⟨-, h | ⟨-, h | ⟨-, h⟩⟩⟩
  · exact decodeTd_fromThumb hlong h
  · obtain ⟨pair, -, hpair⟩ := List.exists_of_findSome?_eq_some h
    exact decodeTd_fromThumb (fun i record hmem => .shared _ i hmem) hpair
  · exact decodeTd_fromThumb hlong h
  · exact decodeTd_fromThumb hlong h

theorem decodeThumb_fromThumb (h : decodeThumb tables engine code address = .ok inst) :
    FromThumb tables engine code address inst := by
  simp only [decodeThumb] at h
  split at h
  · cases h
  split at h
  · exact fromThumb_of_finish h
  split at h
  · exact fromThumb_of_finish h
  split at h
  · exact fromThumb_of_finish h
  split at h
  · exact fromThumb_of_finish h
  split at h
  · exact fromThumb_of_finish h
  split at h
  · simp only [decodeThumb32] at h
    split at h
    · cases h
    split at h
    · exact fromThumb_of_finish h
    · exact getD_fromThumb decodeThumb32Td_fromThumb h
  · exact getD_fromThumb (decodeTd_fromThumb fun i record hmem => .thumb 2 i hmem) h

/-! ## The overlay -/

theorem mark_eq_of_ne (hbx : inst.mnemonicId ≠ Mnemonic.bx) (hblx : inst.mnemonicId ≠ Mnemonic.blx) :
    markBlxTarget (markStateSwitch inst) = inst := by
  have hswitch : markStateSwitch inst = inst := by
    unfold markStateSwitch
    rw [if_neg]
    rintro (h | h)
    · exact hbx h
    · exact hblx h
  rw [hswitch, markBlxTarget]
  cases hops : inst.operands with
  | nil => rfl
  | cons o rest => exact if_neg fun h => hblx h.1

theorem decodeOne_row (hmode : engine.config.mode = .armThumb)
    (h : decodeOne tables engine code address = .ok inst) (hmem : inst.mnemonicId ∉ handMnemonics) :
    ∃ word record, ThumbRow tables code record word ∧ word &&& record.mask = record.value ∧
      finishTd tables engine code address word record = .ok inst := by
  obtain ⟨inst0, hgen, rfl⟩ := decodeOne_eq_ok h
  have hmnemonic : (markBlxTarget (markStateSwitch inst0)).mnemonicId = inst0.mnemonicId := by
    obtain ⟨flags, operands, heq⟩ := mark_eq inst0
    rw [heq]
  rw [hmnemonic] at hmem
  have hthumb : decodeThumb tables engine code address = .ok inst0 := by
    simpa only [genDecodeOne, hmode] using hgen
  have hmark : markBlxTarget (markStateSwitch inst0) = inst0 := by
    apply mark_eq_of_ne
    · intro hbx
      exact hmem (by rw [hbx]; decide)
    · intro hblx
      exact hmem (by rw [hblx]; decide)
  rw [hmark]
  cases decodeThumb_fromThumb hthumb with
  | byHand hhand => exact absurd hhand hmem
  | row word record hrow hvalue hfinish => exact ⟨word, record, hrow, hvalue, hfinish⟩

/-! ## A mnemonic with one row -/

/-- The row is the only one with its mnemonic, and is for Thumb instructions of `size` bytes. -/
structure Tables.OnlyRow (tables : Tables) (size : Nat) (record : Record) : Prop where
  a32 : ∀ word i r, (i, r) ∈ tables.a32Candidates word → r.mnemonicId ≠ record.mnemonicId
  thumb : ∀ n word i r, (i, r) ∈ tables.thumbCandidates n word →
    r.mnemonicId = record.mnemonicId → n = size ∧ r = record
  hand : record.mnemonicId ∉ handMnemonics

theorem finishTd_mnemonicId {record : Record}
    (h : finishTd tables engine code address word record = .ok inst) :
    inst.mnemonicId = record.mnemonicId := by
  unfold finishTd at h
  split at h
  · cases h
  · cases h
    rfl

theorem Tables.OnlyRow.finishTd_of_decode {size : Nat} {record : Record}
    (hrow : tables.OnlyRow size record) (hmode : engine.config.mode = .armThumb)
    (h : Arm.decodeOne tables engine code address = .ok inst)
    (hmnemonic : inst.mnemonicId = record.mnemonicId) :
    rowWord code size &&& record.mask = record.value ∧
      finishTd tables engine code address (rowWord code size) record = .ok inst := by
  obtain ⟨word, r, hfrom, hvalue, hfinish⟩ :=
    decodeOne_row hmode h (by rw [hmnemonic]; exact hrow.hand)
  have hid : r.mnemonicId = record.mnemonicId := by rw [← finishTd_mnemonicId hfinish, hmnemonic]
  cases hfrom with
  | thumb n i hmem =>
    obtain ⟨rfl, rfl⟩ := hrow.thumb n _ i r hmem hid
    exact ⟨hvalue, hfinish⟩
  | shared word i hmem => exact absurd hid (hrow.a32 word i r hmem)

end

/-! ## Tables with two rows -/

/-- Two Thumb rows of one size, with the operands that the tables give them. -/
def Tables.ofPair (size : Nat) (row : Bool → Record)
    (operands : Record → BitVec 32 → BitVec 64 → Option (List Operand)) : Tables where
  a32Candidates _ := []
  thumbCandidates n _ := if n = size then [(0, row false), (1, row true)] else []
  decodeTdOperands := operands

theorem Tables.ofPair_onlyRow {size : Nat} {row : Bool → Record}
    {operands : Record → BitVec 32 → BitVec 64 → Option (List Operand)}
    (hne : (row false).mnemonicId ≠ (row true).mnemonicId)
    (hhand : ∀ b, (row b).mnemonicId ∉ handMnemonics) (b : Bool) :
    (Tables.ofPair size row operands).OnlyRow size (row b) where
  a32 := by
    rintro word i r hmem
    cases hmem
  thumb := by
    intro n word i r hmem hid
    simp only [ofPair] at hmem
    split at hmem
    · rename_i hn
      refine ⟨hn, ?_⟩
      simp only [List.mem_cons, Prod.mk.injEq, List.not_mem_nil, or_false] at hmem
      obtain ⟨-, rfl⟩ | ⟨-, rfl⟩ := hmem
      · cases b
        · rfl
        · exact absurd hid hne
      · cases b
        · exact absurd hid.symm hne
        · rfl
    · cases hmem
  hand := hhand b

end AsmKit.Arm
