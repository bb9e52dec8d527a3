import AsmKit.Decode.Cut
import AsmKit.X86.Cut

/-!
# Whether more bytes can help

`asmkit_decode_one_ex` tells a buffer that is too short from one that holds no instruction by the
minimum unit of the target. What would tell them apart is the demand of the decoder.
-/

namespace AsmKit

variable (tables : Tables) (rows : BytecodeRows) (engine : Engine)

/-- How many bytes the decoder of the target asks for. -/
def demand (address : BitVec 64) (code : List Byte) : Demand :=
  match engine.target.arch with
  | .x86 => X86.demand engine tables.x86 code
  | .arm => Arm.demand tables.arm engine address code
  | .aarch64 => A64.demand tables.a64 engine address code
  | .bpf => Bpf.demand rows.bpf engine code
  | .wasm => Wasm.demand rows.wasm engine code

/-- Code whose size is not known yet begins an instruction. -/
def BeginsInst (address : BitVec 64) (code : List Byte) : Prop :=
  match engine.target.arch with
  | .x86 => X86.BeginsInst engine tables.x86 code
  | .arm => Arm.BeginsInst tables.arm engine address code
  | .aarch64 | .bpf => True
  | .wasm => Wasm.BeginsInst rows.wasm engine code

/-- The code ends inside an instruction. -/
def EndsInside (address : BitVec 64) (code : List Byte) : Prop :=
  Demand.EndsInside (demand tables rows engine address) (BeginsInst tables rows engine address) code

variable {tables rows engine} {code : List Byte} {address : BitVec 64} {prior : Inst}

/-! ## The demand goes for every target -/

theorem decodes_iff : Decodes tables engine code address ↔
    ∃ prior inst, targetDecodeOne tables engine code address prior = .ok inst := by
  constructor
  · rintro ⟨prior, inst, hdec⟩
    obtain ⟨inst0, hdec0, -⟩ := decodeOne_eq_ok hdec
    exact ⟨prior, inst0, hdec0⟩
  · rintro ⟨prior, inst, hdec⟩
    exact ⟨prior, applyOperandMetadata tables inst, by rw [decodeOne, hdec]; rfl⟩

theorem decodeOne_eq_error {status : Status} :
    decodeOne tables engine code address prior = .error status ↔
      targetDecodeOne tables engine code address prior = .error status := by
  unfold decodeOne
  cases targetDecodeOne tables engine code address prior with
  | ok inst => exact iff_of_false (fun h => by cases h) (fun h => by cases h)
  | error status' => exact Iff.rfl

theorem targetDecodeOne_explained (hcode : code ≠ []) (address : BitVec 64) (prior : Inst) :
    Explains code.length (demand tables rows engine address code)
      (targetDecodeOne (tables.withBytecode rows) engine code address prior) := by
  unfold demand targetDecodeOne
  cases harch : engine.target.arch with
  | x86 => exact X86.decodeOne_explained (engine.mode_of_x86 harch) rfl hcode address prior
  | arm => exact Arm.decodeOne_explained _ _ harch code address
  | aarch64 => exact A64.decodeOne_explained _ _ (engine.mode_of_aarch64 harch) code address
  | bpf =>
    simp only [Tables.withBytecode, harch, if_true]
    exact Bpf.decodeOne_explained _ _ (engine.mode_of_bpf harch) address
  | wasm =>
    simp only [Tables.withBytecode, harch, reduceCtorEq, if_false]
    exact Wasm.decodeOne_explained _ _ (engine.mode_of_wasm harch) address

theorem governs (address : BitVec 64) (prior : Inst) :
    Demand.Governs (demand tables rows engine address)
      (fun code => Decodes (tables.withBytecode rows) engine code address)
      (fun code => decodeOne (tables.withBytecode rows) engine code address prior =
        .error .unsupportedFeature) := by
  have : Nonempty Inst := ⟨prior⟩
  simp only [decodes_iff, decodeOne_eq_error]
  unfold demand targetDecodeOne
  cases harch : engine.target.arch with
  | x86 => exact X86.governs harch address prior
  | arm =>
    simp only [Tables.withBytecode]
    exact (Arm.governs _ _ harch address).congr (fun _ => exists_const Inst) fun _ => Iff.rfl
  | aarch64 =>
    simp only [Tables.withBytecode]
    exact (A64.governs _ _ (engine.mode_of_aarch64 harch) address).congr (fun _ => exists_const Inst)
      fun _ => Iff.rfl
  | bpf =>
    simp only [Tables.withBytecode, harch, if_true]
    exact (Bpf.governs _ _ (engine.mode_of_bpf harch) address).congr (fun _ => exists_const Inst)
      fun _ => Iff.rfl
  | wasm =>
    simp only [Tables.withBytecode, harch, reduceCtorEq, if_false]
    exact (Wasm.governs _ _ (engine.mode_of_wasm harch) address).congr (fun _ => exists_const Inst)
      fun _ => Iff.rfl

/-- Below the unit the size is never known, and an instruction can always follow. -/
theorem beginsInst_of_lt_unit {capabilities : TargetCapabilities}
    (hcap : getTargetCapabilities engine = .ok capabilities)
    (hshort : code.length < capabilities.minimumInstructionUnit) (address : BitVec 64) :
    demand tables rows engine address code = .unknown ∧ BeginsInst tables rows engine address code := by
  have hunit {mode : Mode} {flags : BitVec 32} {unit n : Nat} (hmode : engine.config.mode = mode)
      (hvalues : mode.capabilities = some (flags, unit, n)) : code.length < unit := by
    unfold getTargetCapabilities at hcap
    rw [hmode, hvalues] at hcap
    cases hcap
    exact hshort
  unfold demand BeginsInst
  cases harch : engine.target.arch with
  | x86 =>
    have hlen : code.length < 1 := by
      rcases engine.mode_of_x86 harch with hmode | hmode | hmode <;> exact hunit hmode rfl
    obtain rfl := List.length_eq_zero_iff.1 (by omega : code.length = 0)
    refine ⟨X86.demand_nil, ?_⟩
    simp only [X86.BeginsInst]
    rw [if_pos (.inl (Nat.zero_le _))]
    trivial
  | arm =>
    rcases engine.mode_of_arm harch with hmode | hmode
    · simp only [Arm.demand, Arm.BeginsInst, hmode]
      exact ⟨if_pos (hunit hmode rfl), .inl trivial⟩
    · simp only [Arm.demand, Arm.BeginsInst, hmode]
      exact ⟨if_pos (hunit hmode rfl), .inr (.inl (hunit hmode rfl))⟩
  | aarch64 => exact ⟨if_pos (hunit (engine.mode_of_aarch64 harch) rfl), trivial⟩
  | bpf => exact ⟨if_pos (hunit (engine.mode_of_bpf harch) rfl), trivial⟩
  | wasm =>
    have hlen : code.length < 1 := by
      rcases engine.mode_of_wasm harch with hmode | hmode <;> exact hunit hmode rfl
    exact ⟨if_pos (by omega), .inl (by omega)⟩

theorem exists_capabilities (engine : Engine) : ∃ capabilities,
    getTargetCapabilities engine = .ok capabilities ∧ 0 < capabilities.minimumInstructionUnit := by
  have hne := engine.mode_ne_default
  unfold getTargetCapabilities
  cases hmode : engine.config.mode with
  | default => exact absurd hmode hne
  | x86_16 | x86_32 | x86_64 | armA32 | armThumb | aarch64 | bpf64 | wasm32 | wasm64 =>
    exact ⟨_, rfl, Nat.succ_pos _⟩

/-! ## The classification -/

/-- What the decoders of the fixed words ask of the rows. -/
structure WordRows (tables : Tables) (rows : BytecodeRows) : Prop where
  a64 : A64.PcRelRows tables.a64
  bpf : Bpf.FreeRows rows.bpf
  wasm : Wasm.Bounded rows.wasm

theorem short_iff_endsInside (hrows : WordRows tables rows) (address : BitVec 64) (code : List Byte) :
    Demand.Short (demand tables rows engine address) code ↔ EndsInside tables rows engine address code := by
  refine Demand.short_iff_endsInside fun hunknown => ?_
  unfold demand at hunknown ⊢
  unfold BeginsInst
  cases harch : engine.target.arch <;> simp only [harch] at hunknown ⊢
  case x86 => exact X86.beginsInst_iff hunknown
  case arm => exact Arm.beginsInst_iff harch hunknown
  case aarch64 =>
    exact iff_of_true (A64.exists_size_of_unknown hrows.a64 (engine.mode_of_aarch64 harch) hunknown) trivial
  case bpf => exact iff_of_true (Bpf.exists_size_of_unknown hrows.bpf hunknown) trivial
  case wasm => exact Wasm.beginsInst_iff hrows.wasm hunknown

theorem classifiesTruncation_of_lt (hrows : WordRows tables rows) {capabilities : TargetCapabilities}
    (hcap : getTargetCapabilities engine = .ok capabilities)
    (hshort : code.length < capabilities.minimumInstructionUnit) :
    ClassifiesTruncation (tables.withBytecode rows) engine code address prior := by
  have hgoverns := @governs tables rows engine address prior
  obtain ⟨hunknown, hbegins⟩ := @beginsInst_of_lt_unit tables rows engine code _ hcap hshort address
  have hex : decodeOneEx (tables.withBytecode rows) engine code address prior =
      (.error .decodeFailed, .insufficientBytes) := by
    simp only [decodeOneEx, hcap, if_pos hshort]
  have hfail : ¬ Decodes (tables.withBytecode rows) engine code address := by
    rw [hgoverns.accepts_iff, hunknown]
    exact id
  have hends : EndsInside tables rows engine address code := by
    rw [EndsInside, Demand.EndsInside, hunknown]
    exact hbegins
  refine ⟨fun hinvalid => ?_, fun _ => ⟨hfail, ?_⟩⟩
  · rw [hex] at hinvalid
    cases hinvalid
  · exact (hgoverns.exists_accepts_append_iff hfail (by rw [hgoverns.refuses_iff, hunknown]; simp)).2
      ((short_iff_endsInside hrows address code).2 hends)

theorem classifiesTruncation_of_le {capabilities : TargetCapabilities}
    (hcap : getTargetCapabilities engine = .ok capabilities)
    (hlong : ¬ code.length < capabilities.minimumInstructionUnit)
    (hunit : 0 < capabilities.minimumInstructionUnit) :
    ClassifiesTruncation (tables.withBytecode rows) engine code address prior ↔
      ¬ Demand.Short (demand tables rows engine address) code := by
  have hgoverns := @governs tables rows engine address prior
  have hcode : code ≠ [] := by
    rintro rfl
    exact hlong hunit
  have hexplained := @targetDecodeOne_explained tables rows engine code hcode address prior
  have hex : decodeOneEx (tables.withBytecode rows) engine code address prior =
      (decodeOne (tables.withBytecode rows) engine code address prior,
        failureKind (decodeOne (tables.withBytecode rows) engine code address prior)) := by
    simp only [decodeOneEx, hcap, if_neg hlong]
  have hvacuous {r : Except Status Inst × DecodeFailureKind} (hr : r.2 ≠ .invalidEncoding)
      (hr' : r.2 ≠ .insufficientBytes)
      (heq : decodeOneEx (tables.withBytecode rows) engine code address prior = r) :
      ClassifiesTruncation (tables.withBytecode rows) engine code address prior :=
    ⟨fun h => absurd (congrArg Prod.snd (heq.symm.trans h)) hr,
      fun h => absurd (congrArg Prod.snd (heq.symm.trans h)) hr'⟩
  cases hdec : decodeOne (tables.withBytecode rows) engine code address prior with
  | ok inst =>
    rw [hdec] at hex
    exact iff_of_true (hvacuous (by simp [failureKind]) (by simp [failureKind]) hex)
      (hgoverns.not_short_of_accepts ⟨prior, inst, hdec⟩)
  | error status =>
    have hdec0 := decodeOne_eq_error.1 hdec
    rcases hexplained.status hdec0 with rfl | rfl
    · have hfail : ¬ Decodes (tables.withBytecode rows) engine code address := by
        rw [hgoverns.accepts_iff, ← hexplained.isOk_iff, hdec0]
        rintro ⟨inst, hinst⟩
        cases hinst
      rw [← hgoverns.exists_accepts_append_iff hfail (by rw [hdec]; simp), not_exists]
      rw [hdec] at hex
      constructor
      · exact fun h => h.invalid hex
      · refine fun h => ⟨fun _ => h, fun hshort => ?_⟩
        rw [hex] at hshort
        cases hshort
    · rw [hdec] at hex
      exact iff_of_true (hvacuous (by simp [failureKind]) (by simp [failureKind]) hex)
        (hgoverns.not_short_of_refuses hdec)

/-- **The kind of a failure** is right unless the code ends inside an instruction behind its unit. -/
theorem classifiesTruncation_iff (tables : Tables) (rows : BytecodeRows) (engine : Engine)
    (code : List Byte) (address : BitVec 64) (prior : Inst) (hrows : WordRows tables rows) :
    ClassifiesTruncation (tables.withBytecode rows) engine code address prior ↔
      ∀ capabilities, getTargetCapabilities engine = .ok capabilities →
        capabilities.minimumInstructionUnit ≤ code.length →
          ¬ EndsInside tables rows engine address code := by
  obtain ⟨capabilities, hcap, hunit⟩ := exists_capabilities engine
  have hunique : (∀ capabilities, getTargetCapabilities engine = .ok capabilities →
      capabilities.minimumInstructionUnit ≤ code.length →
        ¬ EndsInside tables rows engine address code) ↔
      (capabilities.minimumInstructionUnit ≤ code.length →
        ¬ EndsInside tables rows engine address code) := by
    refine ⟨fun h => h capabilities hcap, fun h capabilities' hcap' => ?_⟩
    rw [hcap] at hcap'
    cases hcap'
    exact h
  rw [hunique]
  by_cases hshort : code.length < capabilities.minimumInstructionUnit
  · exact iff_of_true (classifiesTruncation_of_lt hrows hcap hshort)
      fun hle => absurd hle (Nat.not_le.2 hshort)
  · rw [classifiesTruncation_of_le hcap hshort hunit, short_iff_endsInside hrows,
      imp_iff_right (Nat.le_of_not_lt hshort)]

/-- The wide load of BPF, the loads of a word with and without its feature, and `i32.const`. -/
def constRows : BytecodeRows where
  bpf :=
    let load : Bpf.Record :=
      { id := 59, mnemonicId := Bpf.Mnemonic.base + 26, opcode := 0x61, kind := .load, form := .loadMem
        size := 8, width := 32 }
    [{ id := 12, mnemonicId := Bpf.Mnemonic.base + 25, opcode := 0x18, kind := .pseudo, form := .ldImm64
       matchSrc := true, size := 16, width := 64 },
     load, { load with id := 60, featureBits := .replicate 8 1 }]
  wasm prefixByte opcode :=
    if prefixByte = 0 ∧ opcode = 65 then
      [{ id := 65721, mnemonicId := Wasm.Mnemonic.base + 302, instClass := .other
         operandCodes := [.immSleb32] }]
    else []

def constTables : Tables := { noTables with a64 := A64.pcRelTables }

theorem constRows_wordRows : WordRows constTables constRows where
  a64 := A64.pcRelTables_rows
  bpf := by
    intro record hmem
    simp only [constRows, List.mem_cons, List.not_mem_nil, or_false] at hmem
    right
    rcases hmem with rfl | rfl | rfl
    · exact ⟨_, List.mem_cons_self, rfl, fun _ h => h⟩
    · exact ⟨_, List.mem_cons_of_mem _ List.mem_cons_self, rfl, fun _ h => h⟩
    · exact ⟨_, List.mem_cons_of_mem _ List.mem_cons_self, rfl, fun _ h => h⟩
  wasm := by
    intro prefixByte opcode hlarge
    refine if_neg ?_
    rintro ⟨-, rfl⟩
    exact absurd hlarge (by decide)

/-- Right of two bytes of a word and of a number that no group can make fit, wrong of half a wide load
and of a number that ends too early. -/
theorem classifiesTruncation_constRows :
    ClassifiesTruncation (constTables.withBytecode constRows) aarch64Engine [0, 0] 0
      aarch64Engine.emptyInst ∧
    ClassifiesTruncation (constTables.withBytecode constRows) wasmEngine64
      [0x41, 0x80, 0x80, 0x80, 0x80, 0x90] 0 wasmEngine64.emptyInst ∧
    ¬ ClassifiesTruncation (constTables.withBytecode constRows) bpfEngine [0x18, 0, 0, 0, 0, 0, 0, 0] 0
      bpfEngine.emptyInst ∧
    ¬ ClassifiesTruncation (constTables.withBytecode constRows) wasmEngine64 [0x41, 0x80] 0
      wasmEngine64.emptyInst := by
  refine ⟨(classifiesTruncation_iff _ _ _ _ _ _ constRows_wordRows).2 ?_,
    (classifiesTruncation_iff _ _ _ _ _ _ constRows_wordRows).2 ?_, fun h => ?_, fun h => ?_⟩
  · intro capabilities hcap hlong
    cases hcap
    exact absurd hlong (by decide)
  · rintro - - - (hlen | hcut | ⟨_, _, _, _, hparse, hfind, hopen⟩)
    · cases hlen
    · cases hcut
    · cases hparse
      cases hfind
      cases hopen
  · refine (classifiesTruncation_iff _ _ _ _ _ _ constRows_wordRows).1 h _ rfl (by decide) ?_
    show 8 < 16
    decide
  · refine (classifiesTruncation_iff _ _ _ _ _ _ constRows_wordRows).1 h _ rfl (by decide) ?_
    exact .inr (.inr ⟨0, 65, 1, _, rfl, rfl, rfl⟩)

/-- `jmp rel32` cut behind its opcode is called invalid, and four bytes more are a jump. -/
theorem not_classifiesTruncation_jmp :
    decodeOneEx (noTables.withBytecode ⟨[], fun _ _ => []⟩) x86Engine64 [0xe9] 0 x86Engine64.emptyInst =
      (.error .decodeFailed, .invalidEncoding) ∧
    Decodes (noTables.withBytecode ⟨[], fun _ _ => []⟩) x86Engine64 ([0xe9] ++ [0, 0, 0, 0]) 0 ∧
    ¬ ClassifiesTruncation (noTables.withBytecode ⟨[], fun _ _ => []⟩) x86Engine64 [0xe9] 0
      x86Engine64.emptyInst := by
  have hinvalid : decodeOneEx (noTables.withBytecode ⟨[], fun _ _ => []⟩) x86Engine64 [0xe9] 0
      x86Engine64.emptyInst = (.error .decodeFailed, .invalidEncoding) := rfl
  have hjump : Decodes (noTables.withBytecode ⟨[], fun _ _ => []⟩) x86Engine64 ([0xe9] ++ [0, 0, 0, 0]) 0 :=
    ⟨x86Engine64.emptyInst, _, rfl⟩
  exact ⟨hinvalid, hjump, fun h => h.invalid hinvalid _ hjump⟩

end AsmKit
