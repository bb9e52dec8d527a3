import AsmKit.Core.Features

/-!
# The features of a processor

`asmkit_feature_set_from_cpu` builds a set bit by bit, `asmkit_cpu_has_feature` searches the list.
-/

namespace AsmKit

/-- The generated processor tables with the table of features. -/
structure FeatureTables extends CpuTables where
  featureInfo : Arch → Nat → Option FeatureInfo

def getFeatureInfo (tables : FeatureTables) (arch : Option Arch) (featureId : Nat) :
    Except Status FeatureInfo :=
  match arch with
  | none => .error .unsupportedArch
  | some arch =>
    match tables.featureInfo arch featureId with
    | none => .error .unsupportedFeature
    | some info => .ok info

/-! ## The set -/

/-- The loop of `asmkit_feature_set_from_cpu`: the set is cleared where it fails. -/
def FeatureSet.enableListed (tables : CpuTables) (arch : Option Arch) (cpuId : Nat) :
    List Nat → FeatureSet → Status × FeatureSet
  | [], set => (.ok, set)
  | i :: indices, set =>
    match getCpuFeatureInfo tables arch cpuId i with
    | .error status => (status, .clear)
    | .ok feature =>
      match set.enable feature.id with
      | .error status => (status, .clear)
      | .ok set => enableListed tables arch cpuId indices set

/-- `asmkit_feature_set_from_cpu`, with what was in the set before. -/
def FeatureSet.fromCpu (tables : CpuTables) (arch : Option Arch) (cpuId : Nat) (prior : FeatureSet) :
    Status × FeatureSet :=
  match getCpuInfo tables arch cpuId with
  | .error status => (status, prior)
  | .ok cpu => enableListed tables arch cpuId (List.range cpu.featureCount) .clear

/-- What a caller that stops at a failure goes on with. -/
def FeatureSet.outcome : Status × FeatureSet → Except Status FeatureSet
  | (.ok, set) => .ok set
  | (status, _) => .error status

/-! ## The search -/

/-- The loop of `asmkit_cpu_has_feature`. -/
def findListed (tables : CpuTables) (arch : Option Arch) (cpuId featureId : Nat) :
    List Nat → Status × Bool
  | [] => (.ok, false)
  | i :: indices =>
    match getCpuFeatureInfo tables arch cpuId i with
    | .error status => (status, false)
    | .ok feature =>
      if feature.id = featureId then (.ok, true) else findListed tables arch cpuId featureId indices

def cpuHasFeature (tables : FeatureTables) (arch : Option Arch) (cpuId featureId : Nat) :
    Status × Bool :=
  match getCpuInfo tables.toCpuTables arch cpuId with
  | .error status => (status, false)
  | .ok cpu =>
    match getFeatureInfo tables arch featureId with
    | .error status => (status, false)
    | .ok _ => findListed tables.toCpuTables arch cpuId featureId (List.range cpu.featureCount)

/-! ## The list -/

/-- The identifiers that a processor's list names, in whatever order and however often. -/
def listedFeatures (tables : CpuTables) (arch : Option Arch) (cpuId : Nat) : Set Nat :=
  {id | ∃ cpu, getCpuInfo tables arch cpuId = .ok cpu ∧
    ∃ i < cpu.featureCount, getCpuFeatureInfo tables arch cpuId i = .ok ⟨id⟩}

/-- What a list names is in the table of features. -/
def ListsKnown (tables : FeatureTables) (arch : Option Arch) (cpuId : Nat) : Prop :=
  ∀ i feature, getCpuFeatureInfo tables.toCpuTables arch cpuId i = .ok feature →
    ∃ info, getFeatureInfo tables arch feature.id = .ok info

section

variable {tables : CpuTables} {arch : Option Arch} {cpuId featureId : Nat} {indices : List Nat}
  {set set' : FeatureSet} {status : Status}

theorem FeatureSet.enable_ne_ok (h : set.enable featureId = .error status) : status ≠ .ok := by
  unfold enable at h
  split at h
  · cases h
    nofun
  · cases h

theorem FeatureSet.enableListed_of_fail
    (h : (enableListed tables arch cpuId indices set).1 ≠ .ok) :
    (enableListed tables arch cpuId indices set).2 = .clear := by
  induction indices generalizing set with
  | nil => exact absurd rfl h
  | cons i indices ih =>
    unfold enableListed at h ⊢
    split
    · rfl
    · split
      · rfl
      · next hfeature _ _ hset =>
        simp only [hfeature, hset] at h
        exact ih h

theorem FeatureSet.enableListed_of_ok
    (h : (enableListed tables arch cpuId indices set).1 = .ok) :
    (∀ i ∈ indices, ∃ feature, getCpuFeatureInfo tables arch cpuId i = .ok feature) ∧
      Words.toSet (enableListed tables arch cpuId indices set).2.words = Words.toSet set.words ∪
        {id | ∃ i ∈ indices, getCpuFeatureInfo tables arch cpuId i = .ok ⟨id⟩} := by
  induction indices generalizing set with
  | nil => simp [enableListed]
  | cons i indices ih =>
    unfold enableListed at h ⊢
    cases hfeature : getCpuFeatureInfo tables arch cpuId i with
    | error status =>
      simp only [hfeature] at h
      exact absurd h (getCpuFeatureInfo_ne_ok hfeature)
    | ok feature =>
      simp only [hfeature] at h ⊢
      cases hset : set.enable feature.id with
      | error status =>
        simp only [hset] at h
        exact absurd h (enable_ne_ok hset)
      | ok next =>
        simp only [hset] at h ⊢
        obtain ⟨hall, hwords⟩ := ih h
        refine ⟨?_, ?_⟩
        · rintro j hj
          rcases List.mem_cons.1 hj with rfl | hj
          · exact ⟨feature, hfeature⟩
          · exact hall j hj
        · rw [hwords, toSet_enable hset]
          ext id
          have hid : feature = ⟨id⟩ ↔ id = feature.id := by
            constructor
            · rintro rfl
              rfl
            · rintro rfl
              rfl
          simp [hfeature, hid]
          tauto

theorem FeatureSet.outcome_error (h : status ≠ .ok) :
    outcome (status, set) = .error status := by
  cases status <;> first | exact absurd rfl h | rfl

theorem FeatureSet.outcome_enableListed :
    outcome (enableListed tables arch cpuId indices set) =
      indices.foldlM (fun set i => do
        let feature ← getCpuFeatureInfo tables arch cpuId i
        set.enable feature.id) set := by
  induction indices generalizing set with
  | nil => rfl
  | cons i indices ih =>
    rw [enableListed, List.foldlM_cons]
    cases hfeature : getCpuFeatureInfo tables arch cpuId i with
    | error status => exact outcome_error (getCpuFeatureInfo_ne_ok hfeature)
    | ok feature =>
      cases hset : set.enable feature.id with
      | error status =>
        simp only [hset]
        exact (outcome_error (enable_ne_ok hset)).trans (by simp [bind, Except.bind, hset])
      | ok next =>
        simp only [hset, ih]
        simp [bind, Except.bind, hset]

/-- The set that `asmkit_engine_config_enable_cpu_features` takes is the one left here. -/
theorem featureSetFromCpu_eq (prior : FeatureSet) :
    featureSetFromCpu tables arch cpuId =
      FeatureSet.outcome (FeatureSet.fromCpu tables arch cpuId prior) := by
  unfold featureSetFromCpu FeatureSet.fromCpu
  cases hcpu : getCpuInfo tables arch cpuId with
  | error status => exact (FeatureSet.outcome_error (getCpuInfo_ne_ok hcpu)).symm
  | ok cpu => exact FeatureSet.outcome_enableListed.symm

theorem findListed_iff
    (hall : ∀ i ∈ indices, ∃ feature, getCpuFeatureInfo tables arch cpuId i = .ok feature) :
    findListed tables arch cpuId featureId indices = (.ok, true) ↔
      ∃ i ∈ indices, getCpuFeatureInfo tables arch cpuId i = .ok ⟨featureId⟩ := by
  induction indices with
  | nil => simp [findListed]
  | cons i indices ih =>
    obtain ⟨feature, hfeature⟩ := hall i List.mem_cons_self
    have hrest := ih fun j hj => hall j (List.mem_cons_of_mem i hj)
    have hid : feature = ⟨featureId⟩ ↔ feature.id = featureId := by
      cases feature
      simp
    rw [findListed, hfeature]
    simp only [List.mem_cons, exists_eq_or_imp, hfeature, Except.ok.injEq, hid]
    split
    · next heq => exact iff_of_true rfl (.inl heq)
    · next hne => rw [hrest, or_iff_right hne]

/-! ## Both of them -/

variable {prior : FeatureSet} {cpu : CpuInfo}

theorem fromCpu_of_ok (hok : (FeatureSet.fromCpu tables arch cpuId prior).1 = .ok) :
    ∃ cpu, getCpuInfo tables arch cpuId = .ok cpu ∧ FeatureSet.fromCpu tables arch cpuId prior =
      FeatureSet.enableListed tables arch cpuId (List.range cpu.featureCount) .clear := by
  unfold FeatureSet.fromCpu at hok ⊢
  cases hcpu : getCpuInfo tables arch cpuId with
  | error status =>
    rw [hcpu] at hok
    exact absurd hok (getCpuInfo_ne_ok hcpu)
  | ok cpu => exact ⟨cpu, rfl, rfl⟩

theorem toSet_fromCpu (hok : (FeatureSet.fromCpu tables arch cpuId prior).1 = .ok) :
    Words.toSet (FeatureSet.fromCpu tables arch cpuId prior).2.words =
      listedFeatures tables arch cpuId := by
  obtain ⟨cpu, hcpu, heq⟩ := fromCpu_of_ok hok
  rw [heq] at hok ⊢
  obtain ⟨-, hwords⟩ := FeatureSet.enableListed_of_ok hok
  have hclear : Words.toSet FeatureSet.clear.words = ∅ := Words.toSet_empty
  rw [hwords, hclear, Set.empty_union]
  ext id
  simp [listedFeatures, hcpu]

theorem listed_of_fromCpu (hok : (FeatureSet.fromCpu tables arch cpuId prior).1 = .ok)
    (hcpu : getCpuInfo tables arch cpuId = .ok cpu) :
    ∀ i < cpu.featureCount, ∃ feature, getCpuFeatureInfo tables arch cpuId i = .ok feature := by
  obtain ⟨cpu', hcpu', heq⟩ := fromCpu_of_ok hok
  rw [hcpu] at hcpu'
  cases hcpu'
  rw [heq] at hok
  exact fun i hi => (FeatureSet.enableListed_of_ok hok).1 i (List.mem_range.2 hi)

theorem cpuHasFeature_iff {tables : FeatureTables} (hknown : ListsKnown tables arch cpuId)
    (hcpu : getCpuInfo tables.toCpuTables arch cpuId = .ok cpu)
    (hall : ∀ i < cpu.featureCount, ∃ feature,
      getCpuFeatureInfo tables.toCpuTables arch cpuId i = .ok feature) :
    cpuHasFeature tables arch cpuId featureId = (.ok, true) ↔
      featureId ∈ listedFeatures tables.toCpuTables arch cpuId := by
  have hmem : featureId ∈ listedFeatures tables.toCpuTables arch cpuId ↔
      ∃ i ∈ List.range cpu.featureCount,
        getCpuFeatureInfo tables.toCpuTables arch cpuId i = .ok ⟨featureId⟩ := by
    simp [listedFeatures, hcpu]
  rw [cpuHasFeature, hcpu, hmem]
  cases hinfo : getFeatureInfo tables arch featureId with
  | error status =>
    refine iff_of_false (fun h => ?_) ?_
    · exact absurd (congrArg Prod.snd h) Bool.false_ne_true
    · rintro ⟨i, -, hlisted⟩
      obtain ⟨info, hsome⟩ := hknown i _ hlisted
      rw [hinfo] at hsome
      cases hsome
  | ok info => exact findListed_iff fun i hi => hall i (List.mem_range.1 hi)

end

/-- The set of a processor is the one that the search goes through, and nothing is left of it where
the list breaks off. -/
theorem fromCpu_agrees (tables : FeatureTables) (arch : Option Arch) (cpuId : Nat) (prior : FeatureSet)
    (hknown : ListsKnown tables arch cpuId) :
    let out := FeatureSet.fromCpu tables.toCpuTables arch cpuId prior
    (out.1 = .ok →
      (∀ id < featureBitCapacity,
        (out.2.contains id = .ok true ↔ cpuHasFeature tables arch cpuId id = (.ok, true))) ∧
      ∀ arch' cpuId' prior',
        listedFeatures tables.toCpuTables arch' cpuId' = listedFeatures tables.toCpuTables arch cpuId →
        (FeatureSet.fromCpu tables.toCpuTables arch' cpuId' prior').1 = .ok →
        (FeatureSet.fromCpu tables.toCpuTables arch' cpuId' prior').2 = out.2) ∧
    (∀ cpu, getCpuInfo tables.toCpuTables arch cpuId = .ok cpu → out.1 ≠ .ok → out.2 = .clear) ∧
    ∀ status, getCpuInfo tables.toCpuTables arch cpuId = .error status → out = (status, prior) := by
  cases hcpu : getCpuInfo tables.toCpuTables arch cpuId with
  | error status =>
    have hout : FeatureSet.fromCpu tables.toCpuTables arch cpuId prior = (status, prior) := by
      rw [FeatureSet.fromCpu, hcpu]
    dsimp only
    rw [hout]
    refine ⟨fun hok => absurd hok (getCpuInfo_ne_ok hcpu), nofun, ?_⟩
    rintro _ ⟨⟩
    rfl
  | ok cpu =>
    refine ⟨fun hok => ⟨fun id hid => ?_, fun arch' cpuId' prior' hlisted hok' => ?_⟩, ?_, nofun⟩
    · rw [FeatureSet.contains, if_neg (Nat.not_le_of_lt hid), Except.ok.injEq, ← Words.mem_toSet,
        toSet_fromCpu hok]
      exact (cpuHasFeature_iff hknown hcpu (listed_of_fromCpu hok hcpu)).symm
    · exact congrArg FeatureSet.mk (Words.eq_of_toSet_eq
        ((toSet_fromCpu hok').trans (hlisted.trans (toSet_fromCpu hok).symm)))
    · intro _ _ hfail
      rw [FeatureSet.fromCpu, hcpu] at hfail ⊢
      exact FeatureSet.enableListed_of_fail hfail

/-- A processor that lists feature 3 twice, with 70 in between. -/
def repeatingCpu : FeatureTables where
  cpuInfo _ _ := some ⟨3⟩
  cpuFeatureInfo _ _ i := if i = 1 then some ⟨70⟩ else some ⟨3⟩
  featureInfo _ id := some ⟨id⟩

theorem fromCpu_repeatingCpu :
    (FeatureSet.fromCpu repeatingCpu.toCpuTables (some .x86) 0 .clear).2.contains 70 = .ok true ↔
      cpuHasFeature repeatingCpu (some .x86) 0 70 = (.ok, true) := by
  have hknown : ListsKnown repeatingCpu (some .x86) 0 := fun _ feature _ => ⟨⟨feature.id⟩, rfl⟩
  exact ((fromCpu_agrees repeatingCpu (some .x86) 0 .clear hknown).1 rfl).1 70 (by decide)

end AsmKit
