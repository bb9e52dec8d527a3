import AsmKit.Arm.Decode

/-!
# Where a decoded ARM instruction comes from

An instruction is finished by hand or from a row of the tables. What holds of both holds of every
decoded instruction.
-/

namespace AsmKit.Arm

/-! ## Rows that a search finds -/

/-- A row of the tables, whatever it is offered for. -/
def Tables.HasRow (tables : Tables) (record : Record) : Prop :=
  (∃ word i, (i, record) ∈ tables.a32Candidates word) ∨
    (∃ size word i, (i, record) ∈ tables.thumbCandidates size word)

section

variable {tables : Tables} {engine : Engine} {word : BitVec 32} {space : SpaceRequest}
  {checkFeatures : Bool} {candidates : List (Nat × Record)}

theorem betterOf_eq_some {best : Option (Nat × Record)} {candidate c : Nat × Record}
    (h : betterOf best candidate = some c) : c = candidate ∨ best = some c := by
  unfold betterOf at h
  split at h
  · exact .inl (Option.some.inj h).symm
  · exact .inr h

theorem considerTdRecord_best {search : Search} {candidate c : Nat × Record}
    (h : (considerTdRecord tables engine word space checkFeatures search candidate).best = some c) :
    (c = candidate ∧ word &&& candidate.2.mask = candidate.2.value) ∨ search.best = some c := by
  unfold considerTdRecord at h
  split at h
  · exact .inr h
  split at h
  · exact .inr h
  rename_i hvalue
  split at h
  · exact .inr h
  split at h
  · exact .inr h
  rcases betterOf_eq_some h with rfl | hbest
  · exact .inl ⟨rfl, not_not.1 hvalue⟩
  · exact .inr hbest

theorem foldl_considerTdRecord_best {search : Search} {c : Nat × Record}
    (h : (candidates.foldl (considerTdRecord tables engine word space checkFeatures) search).best =
      some c) :
    (c ∈ candidates ∧ word &&& c.2.mask = c.2.value) ∨ search.best = some c := by
  induction candidates generalizing search with
  | nil => exact .inr h
  | cons candidate candidates ih =>
    rcases ih h with ⟨hmem, hvalue⟩ | hbest
    · exact .inl ⟨List.mem_cons_of_mem _ hmem, hvalue⟩
    · rcases considerTdRecord_best hbest with ⟨rfl, hvalue⟩ | hbest
      · exact .inl ⟨List.mem_cons_self, hvalue⟩
      · exact .inr hbest

theorem findTdRecord_eq_some {record : Record}
    (h : findTdRecord tables engine candidates word space checkFeatures = some record) :
    (∃ i, (i, record) ∈ candidates) ∧ word &&& record.mask = record.value := by
  unfold findTdRecord Search.result at h
  have hsome : ∃ i, (candidates.foldl (considerTdRecord tables engine word space checkFeatures)
      {}).best = some (i, record) := by
    split at h
    · cases h
    · rename_i best hbest _
      cases h
      exact ⟨best.1, hbest⟩
    · rename_i best _ hbest _
      split at h
      · cases h
      · cases h
        exact ⟨best.1, hbest⟩
  obtain ⟨i, hbest⟩ := hsome
  rcases foldl_considerTdRecord_best hbest with ⟨hmem, hvalue⟩ | hnone
  · exact ⟨⟨i, hmem⟩, hvalue⟩
  · cases hnone

end

/-! ## Finished instructions -/

/-- An instruction as one of the two ends of the decoder leaves it. By hand, only `it` gets the
class of an `it`. -/
inductive Finished (tables : Tables) (engine : Engine) (code : List Byte) (address : BitVec 64) :
    Inst → Prop
  | byHand (size id : Nat) (instClass : InstClass) (flags : BitVec 32) (operands : List Operand)
      (hit : instClass ≠ .armIt) :
      Finished tables engine code address (finish engine code address size id instClass flags operands)
  | it (hmode : engine.config.mode = .armThumb)
      (hcode : load16le code &&& 0xff00 = 0xbf00 ∧ load16le code &&& 0x000f ≠ 0) :
      Finished tables engine code address
        (finish engine code address 2 Id.thumbIt .armIt 0 (itOperands (load16le code)))
  | row (word : BitVec 32) (record : Record) (hrow : tables.HasRow record) (inst : Inst)
      (hfinish : finishTd tables engine code address word record = .ok inst) :
      Finished tables engine code address inst

section

variable {tables : Tables} {engine : Engine} {code : List Byte} {address : BitVec 64} {inst : Inst}

theorem finished_of_finish {size id : Nat} {instClass : InstClass} {flags : BitVec 32}
    {operands : List Operand} (hit : instClass ≠ .armIt)
    (h : Except.ok (finish engine code address size id instClass flags operands) =
      (.ok inst : Except Status Inst)) : Finished tables engine code address inst := by
  cases h
  exact .byHand _ _ _ _ _ hit

theorem decodeTd_finished {word : BitVec 32} {find : Bool → Option Record}
    (hfind : ∀ b record, find b = some record → tables.HasRow record)
    (h : decodeTd tables engine code address word find = some (.ok inst)) :
    Finished tables engine code address inst := by
  unfold decodeTd at h
  split at h
  · rename_i record hrecord
    exact .row word record (hfind _ _ hrecord) inst (Option.some.inj h)
  · split at h
    · cases Option.some.inj h
    · cases h

theorem getD_finished {found : Option (Except Status Inst)} {size : Nat}
    (hfound : found = some (.ok inst) → Finished tables engine code address inst)
    (h : found.getD (.ok (finish engine code address size Id.other .other 0)) = .ok inst) :
    Finished tables engine code address inst := by
  cases found with
  | none => exact finished_of_finish (by decide) h
  | some result =>
    rw [Option.getD_some] at h
    exact hfound (congrArg some h)

theorem hasRow_of_a32 {word : BitVec 32} {space : SpaceRequest} (b : Bool) (record : Record)
    (h : findA32TdRecord tables engine word space b = some record) : tables.HasRow record := by
  obtain ⟨⟨i, hmem⟩, -⟩ := findTdRecord_eq_some h
  exact .inl ⟨word, i, hmem⟩

theorem hasRow_of_thumb {word : BitVec 32} {size : Nat} {space : SpaceRequest} (b : Bool)
    (record : Record) (h : findThumbTdRecord tables engine word size space b = some record) :
    tables.HasRow record := by
  obtain ⟨⟨i, hmem⟩, -⟩ := findTdRecord_eq_some h
  exact .inr ⟨size, word, i, hmem⟩

theorem decodeA32_finished (h : decodeA32 tables engine code address = .ok inst) :
    Finished tables engine code address inst := by
  simp only [decodeA32] at h
  split at h
  · cases h
  split at h
  · refine finished_of_finish ?_ h
    split <;> decide
  split at h
  · exact finished_of_finish (by decide) h
  split at h
  · exact finished_of_finish (by decide) h
  split at h
  · exact finished_of_finish (by decide) h
  · exact getD_finished (decodeTd_finished hasRow_of_a32) h

theorem decodeThumb32Td_finished {w : BitVec 32}
    (h : decodeThumb32Td tables engine code address w = some (.ok inst)) :
    Finished tables engine code address inst := by
  simp only [decodeThumb32Td, Option.orElse_eq_orElse, Option.orElse_eq_or, Option.or_eq_some_iff] at h
  rcases h with h | ⟨-, h | ⟨-, h | ⟨-, h⟩⟩⟩
  · exact decodeTd_finished hasRow_of_thumb h
  · obtain ⟨pair, -, hpair⟩ := List.exists_of_findSome?_eq_some h
    exact decodeTd_finished hasRow_of_a32 hpair
  · exact decodeTd_finished hasRow_of_thumb h
  · exact decodeTd_finished hasRow_of_thumb h

theorem decodeThumb32_finished {h1 : BitVec 16}
    (h : decodeThumb32 tables engine code address h1 = .ok inst) :
    Finished tables engine code address inst := by
  simp only [decodeThumb32] at h
  split at h
  · cases h
  split at h
  · exact finished_of_finish (by decide) h
  · exact getD_finished decodeThumb32Td_finished h

theorem decodeThumb_finished (hmode : engine.config.mode = .armThumb)
    (h : decodeThumb tables engine code address = .ok inst) :
    Finished tables engine code address inst := by
  simp only [decodeThumb] at h
  split at h
  · cases h
  split at h
  · rename_i hcode
    cases h
    exact .it hmode hcode
  split at h
  · exact finished_of_finish (by decide) h
  split at h
  · exact finished_of_finish (by decide) h
  split at h
  · exact finished_of_finish (by decide) h
  split at h
  · exact finished_of_finish (by decide) h
  split at h
  · exact decodeThumb32_finished h
  · exact getD_finished (decodeTd_finished hasRow_of_thumb) h

theorem genDecodeOne_finished (h : genDecodeOne tables engine code address = .ok inst) :
    Finished tables engine code address inst := by
  unfold genDecodeOne at h
  split at h
  · exact decodeA32_finished h
  · rename_i hmode
    exact decodeThumb_finished hmode h
  · cases h

/-! ## What the overlay adds -/

theorem mark_eq (inst : Inst) : ∃ flags operands, markBlxTarget (markStateSwitch inst) =
    { inst with flags, operands } := by
  have hswitch : ∃ flags, markStateSwitch inst = { inst with flags } := by
    unfold markStateSwitch
    split
    · exact ⟨_, rfl⟩
    · exact ⟨_, rfl⟩
  obtain ⟨flags, hflags⟩ := hswitch
  rw [hflags, markBlxTarget]
  split
  · split
    · exact ⟨_, _, rfl⟩
    · exact ⟨_, _, rfl⟩
  · exact ⟨_, _, rfl⟩

theorem decodeOne_eq_ok (h : decodeOne tables engine code address = .ok inst) :
    ∃ inst0, genDecodeOne tables engine code address = .ok inst0 ∧
      inst = markBlxTarget (markStateSwitch inst0) := by
  unfold decodeOne at h
  cases hgen : genDecodeOne tables engine code address with
  | error status => rw [hgen] at h; cases h
  | ok inst0 => rw [hgen] at h; cases h; exact ⟨inst0, rfl, rfl⟩

/-! ## What every instruction has -/

/-- An instruction of the engine, with the bytes it was decoded from. -/
structure FromCode (engine : Engine) (code : List Byte) (address : BitVec 64) (inst : Inst) : Prop where
  arch : inst.arch = .arm
  mode : inst.mode = engine.config.mode
  address : inst.address = address
  bytes : inst.bytes = code.take inst.size

theorem Finished.fromCode (h : Finished tables engine code address inst) :
    FromCode engine code address inst := by
  cases h with
  | byHand => exact ⟨rfl, rfl, rfl, rfl⟩
  | it => exact ⟨rfl, rfl, rfl, rfl⟩
  | row word record hrow inst hfinish =>
    unfold finishTd at hfinish
    split at hfinish
    · cases hfinish
    · cases hfinish
      exact ⟨rfl, rfl, rfl, rfl⟩

theorem decodeOne_fromCode (h : decodeOne tables engine code address = .ok inst) :
    FromCode engine code address inst := by
  obtain ⟨inst0, hgen, rfl⟩ := decodeOne_eq_ok h
  obtain ⟨flags, operands, hmark⟩ := mark_eq inst0
  rw [hmark]
  obtain ⟨harch, hmode, haddress, hbytes⟩ := (genDecodeOne_finished hgen).fromCode
  exact ⟨harch, hmode, haddress, hbytes⟩

end

end AsmKit.Arm
