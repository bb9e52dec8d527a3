import AsmKit.A64.Decode

/-!
# Where an AArch64 instruction comes from

Every decoded instruction is a landing pad, the one of a row that the tables offer for its word, or
written by hand.
-/

namespace AsmKit.A64

variable {engine : Engine} {tables : Tables} {code : List Byte} {address : BitVec 64} {inst : Inst}

/-! ## Rows -/

theorem foldl_considerTdRecord {w : BitVec 32} {checkFeatures : Bool} {found : Nat × Record}
    (candidates : List (Nat × Record)) (best : Option (Nat × Record))
    (h : candidates.foldl (considerTdRecord tables engine w checkFeatures) best = some found) :
    best = some found ∨
      found ∈ candidates ∧ tdRecordMatches tables engine w checkFeatures found.2 = true := by
  induction candidates generalizing best with
  | nil => exact .inl h
  | cons candidate rest ih =>
    rcases ih _ h with hbest | ⟨hmem, hmatch⟩
    · unfold considerTdRecord at hbest
      split at hbest
      · rename_i hcandidate
        split at hbest
        · cases hbest
          exact .inr ⟨List.mem_cons_self, hcandidate⟩
        split at hbest
        · cases hbest
          exact .inr ⟨List.mem_cons_self, hcandidate⟩
        · exact .inl hbest
      · exact .inl hbest
    · exact .inr ⟨List.mem_cons_of_mem _ hmem, hmatch⟩

theorem findTdRecord_mem {w : BitVec 32} {checkFeatures : Bool} {record : Record}
    (h : findTdRecord tables engine w checkFeatures = some record) :
    ∃ i, (i, record) ∈ tables.candidates w ∧
      tdRecordMatches tables engine w checkFeatures record = true := by
  obtain ⟨⟨i, found⟩, hfound, rfl⟩ := Option.map_eq_some_iff.1 h
  rcases foldl_considerTdRecord _ _ hfound with hnone | ⟨hmem, hmatch⟩
  · cases hnone
  · exact ⟨i, hmem, hmatch⟩

theorem tdRecordMatches_pattern {w : BitVec 32} {checkFeatures : Bool} {record : Record}
    (h : tdRecordMatches tables engine w checkFeatures record = true) :
    w &&& record.mask = record.value ∧ tdRecordOperandsMatch record w = true := by
  simp only [tdRecordMatches, Bool.and_eq_true, beq_iff_eq] at h
  exact ⟨h.1.1.1, h.2⟩

/-! ## Forms -/

/-- What wrote the instruction. -/
inductive Origin (engine : Engine) (tables : Tables) (code : List Byte) (address : BitVec 64) :
    Inst → Prop
  | bti (operands : List Operand) :
      Origin engine tables code address (finish engine code address Id.bti .bti 0 operands)
  | row {i : Nat} {record : Record} {inst : Inst}
      (hmem : (i, record) ∈ tables.candidates (load32le code))
      (hpattern : load32le code &&& record.mask = record.value)
      (hdec : finishTd tables engine code address record = .ok inst) :
      Origin engine tables code address inst
  | fallback : Origin engine tables code address (decodeFallback engine code address (load32le code))

theorem decodeOne_origin (h : decodeOne tables engine code address = .ok inst) :
    Origin engine tables code address inst := by
  simp only [decodeOne] at h
  split at h
  · cases h
  split at h
  · split at h
    · cases h
    · cases h
      exact .bti _
  split at h
  · rename_i record hfind
    obtain ⟨i, hmem, hmatch⟩ := findTdRecord_mem hfind
    exact .row hmem (tdRecordMatches_pattern hmatch).1 h
  · split at h
    · cases h
    · cases h
      exact .fallback

/-- The ids of what no row decodes. -/
def fallbackIds : List Nat :=
  [Id.other, Id.b, Id.bl, Id.bCond, Id.cbz, Id.cbnz, Id.tbz, Id.tbnz, Id.adr, Id.adrp, Id.ldrLiteral,
    Id.prfmLiteral, Id.br, Id.blr, Id.ret, Id.pac]

theorem finish_fallback {id : Nat} {instClass : InstClass} {flags : BitVec 32} {operands : List Operand}
    (h : id ∈ fallbackIds) :
    (finish engine code address id instClass flags operands).mnemonicId ∈ fallbackIds.map mnemonicId :=
  List.mem_map_of_mem h

theorem mnemonicId_ite {c : Prop} [Decidable c] {a b : Inst}
    (ha : a.mnemonicId ∈ fallbackIds.map mnemonicId) (hb : b.mnemonicId ∈ fallbackIds.map mnemonicId) :
    (if c then a else b).mnemonicId ∈ fallbackIds.map mnemonicId := by
  split
  · exact ha
  · exact hb

theorem id_ite {c : Prop} [Decidable c] {a b : Nat} (ha : a ∈ fallbackIds) (hb : b ∈ fallbackIds) :
    (if c then a else b) ∈ fallbackIds := by
  split
  · exact ha
  · exact hb

theorem decodeFallback_mnemonicId (w : BitVec 32) :
    (decodeFallback engine code address w).mnemonicId ∈ fallbackIds.map mnemonicId := by
  unfold decodeFallback
  repeat' first
    | exact finish_fallback (by decide)
    | exact finish_fallback (id_ite (by decide) (by decide))
    | apply mnemonicId_ite

end AsmKit.A64
