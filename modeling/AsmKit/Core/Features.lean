import AsmKit.Core.Engine
import AsmKit.Lib.Words

/-!
# Feature sets

`asmkit_feature_set_t`, and the calls that put features into a configuration. A call that fails
returns before it writes, so each gives back a status with the configuration it leaves.
-/

namespace AsmKit

/-! ## Sets -/

def featureWordCount : Nat := 8

def featureBitCapacity : Nat := featureWordCount * 64

structure FeatureSet where
  words : Vector (BitVec 64) 8
deriving DecidableEq, Repr

namespace FeatureSet

def clear : FeatureSet := ⟨Words.empty⟩

def fill : FeatureSet := ⟨Words.full⟩

def enable (set : FeatureSet) (featureId : Nat) : Except Status FeatureSet :=
  if featureId ≥ featureBitCapacity then .error .unsupportedFeature
  else .ok ⟨Words.insert set.words featureId⟩

def disable (set : FeatureSet) (featureId : Nat) : Except Status FeatureSet :=
  if featureId ≥ featureBitCapacity then .error .unsupportedFeature
  else .ok ⟨Words.erase set.words featureId⟩

def contains (set : FeatureSet) (featureId : Nat) : Except Status Bool :=
  if featureId ≥ featureBitCapacity then .error .unsupportedFeature
  else .ok (Words.mem set.words featureId)

end FeatureSet

/-! ## Processors -/

structure FeatureInfo where
  id : Nat
deriving DecidableEq, Repr

structure CpuInfo where
  featureCount : Nat
deriving DecidableEq, Repr

/-- The generated processor tables. -/
structure CpuTables where
  cpuInfo : Arch → Nat → Option CpuInfo
  cpuFeatureInfo : Arch → Nat → Nat → Option FeatureInfo

/-- `asmkit_get_cpu_info`. An architecture that the switch does not know is `none`. -/
def getCpuInfo (tables : CpuTables) (arch : Option Arch) (cpuId : Nat) : Except Status CpuInfo :=
  match arch with
  | none => .error .unsupportedArch
  | some arch =>
    match tables.cpuInfo arch cpuId with
    | none => .error .unsupportedTargetOperation
    | some info => .ok info

def getCpuFeatureInfo (tables : CpuTables) (arch : Option Arch) (cpuId index : Nat) :
    Except Status FeatureInfo :=
  match arch with
  | none => .error .unsupportedArch
  | some arch =>
    match tables.cpuFeatureInfo arch cpuId index with
    | none => .error .unsupportedFeature
    | some info => .ok info

def featureSetFromCpu (tables : CpuTables) (arch : Option Arch) (cpuId : Nat) :
    Except Status FeatureSet := do
  let cpu ← getCpuInfo tables arch cpuId
  (List.range cpu.featureCount).foldlM (fun set i => do
    let feature ← getCpuFeatureInfo tables arch cpuId i
    set.enable feature.id) .clear

/-! ## Configurations -/

def configInit (arch : Arch) (mode : Mode) : EngineConfig := { arch, mode }

namespace EngineConfig

def markExplicit (config : EngineConfig) : EngineConfig :=
  { config with
    flags := (config.flags ||| EngineFlag.explicitFeatures) &&& ~~~EngineFlag.allTargetFeatures }

/-- A null set is `none`. -/
def setFeatures (config : EngineConfig) (featureSet : Option FeatureSet) : Status × EngineConfig :=
  match featureSet with
  | none => (.invalidArgument, config)
  | some set => (.ok, { config with featureBits := set.words }.markExplicit)

def getFeatures (config : EngineConfig) : FeatureSet :=
  if hasFlag config.flags EngineFlag.allTargetFeatures then .fill else ⟨config.featureBits⟩

def enableFeature (config : EngineConfig) (featureId : Nat) : Status × EngineConfig :=
  if featureId ≥ featureBitCapacity then (.unsupportedFeature, config)
  else
    (.ok, { config with featureBits := Words.insert config.featureBits featureId }.markExplicit)

def enableCpuFeatures (tables : CpuTables) (config : EngineConfig) (arch : Option Arch)
    (cpuId : Nat) : Status × EngineConfig :=
  match featureSetFromCpu tables arch cpuId with
  | .error status => (status, config)
  | .ok set => config.setFeatures (some set)

def enableAllFeatures (config : EngineConfig) : Status × EngineConfig :=
  (.ok, { config with
    featureBits := Words.full
    flags := (config.flags ||| EngineFlag.allTargetFeatures) &&& ~~~EngineFlag.explicitFeatures })

end EngineConfig

/-! ## Calls -/

inductive ConfigCall where
  | setFeatures (featureSet : Option FeatureSet)
  | enableFeature (featureId : Nat)
  | enableCpuFeatures (arch : Option Arch) (cpuId : Nat)
  | enableAllFeatures
deriving DecidableEq, Repr

namespace ConfigCall

def apply (tables : CpuTables) (config : EngineConfig) : ConfigCall → Status × EngineConfig
  | setFeatures set => config.setFeatures set
  | enableFeature id => config.enableFeature id
  | enableCpuFeatures arch cpuId => config.enableCpuFeatures tables arch cpuId
  | enableAllFeatures => config.enableAllFeatures

/-- The set a call asks for, on top of the features there were; `none` where its arguments name
none. -/
def asks (tables : CpuTables) (features : Set Nat) : ConfigCall → Option (Set Nat)
  | setFeatures set => set.map fun set => Words.toSet set.words
  | enableFeature id => if id < featureBitCapacity then some (insert id features) else none
  | enableCpuFeatures arch cpuId =>
    (featureSetFromCpu tables arch cpuId).toOption.map fun set => Words.toSet set.words
  | enableAllFeatures => some {id | id < featureBitCapacity}

/-- The arguments of a call name a set of features. -/
def Names (tables : CpuTables) : ConfigCall → Prop
  | setFeatures set => set ≠ none
  | enableFeature id => id < featureBitCapacity
  | enableCpuFeatures arch cpuId => ∃ set, featureSetFromCpu tables arch cpuId = .ok set
  | enableAllFeatures => True

end ConfigCall

/-- The configuration after a list of calls. -/
def configure (tables : CpuTables) (config : EngineConfig) (calls : List ConfigCall) :
    EngineConfig :=
  calls.foldl (fun config call => (call.apply tables config).2) config

/-! ## Flags -/

theorem or_and_mask (flags mask : BitVec 32) : (flags ||| mask) &&& mask = mask := by
  ext i
  simpa using Or.inr

theorem hasFlag_set (flags : BitVec 32) {set cleared : BitVec 32} (hne : set ≠ 0)
    (h : ~~~cleared &&& set = set) : hasFlag ((flags ||| set) &&& ~~~cleared) set = true := by
  simpa [hasFlag, BitVec.and_assoc, h, or_and_mask] using hne

theorem hasFlag_zero (mask : BitVec 32) : hasFlag 0#32 mask = false := by simp [hasFlag]

theorem hasFlag_cleared (flags cleared : BitVec 32) :
    hasFlag (flags &&& ~~~cleared) cleared = false := by
  simp [hasFlag, BitVec.and_assoc]

namespace EngineConfig

variable (config : EngineConfig)

/-- Features were asked for, by name or all of them. -/
def Supplied : Prop :=
  hasFlag config.flags EngineFlag.explicitFeatures ∨ hasFlag config.flags EngineFlag.allTargetFeatures

/-- The words agree with the flag that stands for all features. -/
def Consistent : Prop :=
  hasFlag config.flags EngineFlag.allTargetFeatures → config.featureBits = Words.full

/-- The features the getter names. -/
def features : Set Nat := Words.toSet config.getFeatures.words

variable {config}

theorem Consistent.getFeatures (h : config.Consistent) :
    config.getFeatures = ⟨config.featureBits⟩ := by
  unfold EngineConfig.getFeatures
  split
  case isTrue hall => rw [h hall]; rfl
  case isFalse => rfl

theorem markExplicit_supplied : config.markExplicit.Supplied :=
  .inl (hasFlag_set _ (by decide) (by decide))

theorem markExplicit_consistent : config.markExplicit.Consistent := by
  intro hall
  simp [markExplicit, hasFlag_cleared] at hall

theorem markExplicit_features : config.markExplicit.features = Words.toSet config.featureBits := by
  rw [features, markExplicit_consistent.getFeatures]
  rfl

theorem named_spec (words : Vector (BitVec 64) 8) :
    let config' := { config with featureBits := words }.markExplicit
    config'.Supplied ∧ config'.Consistent ∧ config'.features = Words.toSet words :=
  ⟨markExplicit_supplied, markExplicit_consistent, markExplicit_features⟩

theorem enableAllFeatures_spec :
    let config' := config.enableAllFeatures.2
    config'.Supplied ∧ config'.Consistent ∧ config'.features = {id | id < featureBitCapacity} := by
  have hall : hasFlag config.enableAllFeatures.2.flags EngineFlag.allTargetFeatures = true :=
    hasFlag_set _ (by decide) (by decide)
  refine ⟨.inr hall, fun _ => rfl, ?_⟩
  rw [features, getFeatures, if_pos hall]
  exact Words.toSet_full

end EngineConfig

/-! ## One call -/

theorem foldlM_error {α β : Type} {f : β → α → Except Status β} {P : Status → Prop}
    (hf : ∀ b a status, f b a = .error status → P status) {status : Status} :
    ∀ (as : List α) (b : β), as.foldlM f b = .error status → P status := by
  intro as
  induction as with
  | nil => simp [pure, Except.pure]
  | cons a as ih =>
    intro b h
    cases hb : f b a with
    | error status' =>
      obtain rfl : status' = status := by simpa [bind, Except.bind, hb] using h
      exact hf b a _ hb
    | ok b' => exact ih b' (by simpa [bind, Except.bind, hb] using h)

theorem getCpuInfo_ne_ok {tables : CpuTables} {arch : Option Arch} {cpuId : Nat} {status : Status}
    (h : getCpuInfo tables arch cpuId = .error status) : status ≠ .ok := by
  rintro rfl
  unfold getCpuInfo at h
  split at h
  · cases h
  · split at h <;> cases h

theorem getCpuFeatureInfo_ne_ok {tables : CpuTables} {arch : Option Arch} {cpuId index : Nat}
    {status : Status} (h : getCpuFeatureInfo tables arch cpuId index = .error status) :
    status ≠ .ok := by
  rintro rfl
  unfold getCpuFeatureInfo at h
  split at h
  · cases h
  · split at h <;> cases h

theorem featureSetFromCpu_ne_ok {tables : CpuTables} {arch : Option Arch} {cpuId : Nat}
    {status : Status} (h : featureSetFromCpu tables arch cpuId = .error status) :
    status ≠ .ok := by
  unfold featureSetFromCpu at h
  cases hcpu : getCpuInfo tables arch cpuId with
  | error status' =>
    obtain rfl : status' = status := by simpa [bind, Except.bind, hcpu] using h
    exact getCpuInfo_ne_ok hcpu
  | ok cpu =>
    simp only [bind, Except.bind, hcpu] at h
    refine foldlM_error (P := (· ≠ .ok)) ?_ _ _ h
    intro set i status' hi
    cases hfeature : getCpuFeatureInfo tables arch cpuId i with
    | error e =>
      obtain rfl : e = status' := by simpa [hfeature] using hi
      exact getCpuFeatureInfo_ne_ok hfeature
    | ok feature =>
      simp only [hfeature, FeatureSet.enable] at hi
      rintro rfl
      split at hi <;> cases hi

namespace ConfigCall

variable {tables : CpuTables} {config : EngineConfig} {call : ConfigCall}

theorem apply_of_asks_none (h : call.asks tables config.features = none) :
    (call.apply tables config).1 ≠ .ok ∧ (call.apply tables config).2 = config := by
  cases call with
  | setFeatures set =>
    cases set with
    | none => simp [apply, EngineConfig.setFeatures]
    | some set => simp [asks] at h
  | enableFeature id =>
    have hid : id ≥ featureBitCapacity := by simpa [asks] using h
    simp [apply, EngineConfig.enableFeature, hid]
  | enableCpuFeatures arch cpuId =>
    cases hcpu : featureSetFromCpu tables arch cpuId with
    | ok set => simp [asks, hcpu, Except.toOption] at h
    | error status =>
      simpa [apply, EngineConfig.enableCpuFeatures, hcpu] using featureSetFromCpu_ne_ok hcpu
  | enableAllFeatures => simp [asks] at h

theorem apply_of_asks {set : Set Nat} (hconsistent : config.Consistent)
    (h : call.asks tables config.features = some set) :
    let config' := (call.apply tables config).2
    (call.apply tables config).1 = .ok ∧
      config'.Supplied ∧ config'.Consistent ∧ config'.features = set := by
  cases call with
  | setFeatures featureSet =>
    cases featureSet with
    | none => simp [asks] at h
    | some featureSet =>
      obtain rfl : Words.toSet featureSet.words = set := by simpa [asks] using h
      exact ⟨rfl, EngineConfig.named_spec _⟩
  | enableFeature id =>
    by_cases hid : id < featureBitCapacity
    · obtain rfl : insert id config.features = set := by simpa [asks, hid] using h
      have hge : ¬ id ≥ featureBitCapacity := Nat.not_le_of_lt hid
      have hset : insert id config.features =
          Words.toSet (Words.insert config.featureBits id) := by
        rw [Words.toSet_insert (n := 8) (w := 64) hid, EngineConfig.features, hconsistent.getFeatures]
      rw [hset]
      simp only [apply, EngineConfig.enableFeature, if_neg hge]
      exact ⟨trivial, EngineConfig.named_spec _⟩
    · simp [asks, hid] at h
  | enableCpuFeatures arch cpuId =>
    cases hcpu : featureSetFromCpu tables arch cpuId with
    | error status => simp [asks, hcpu, Except.toOption] at h
    | ok featureSet =>
      obtain rfl : Words.toSet featureSet.words = set := by
        simpa [asks, hcpu, Except.toOption] using h
      simp only [apply, EngineConfig.enableCpuFeatures, hcpu]
      exact ⟨rfl, EngineConfig.named_spec _⟩
  | enableAllFeatures =>
    obtain rfl : {id | id < featureBitCapacity} = set := by simpa [asks] using h
    exact ⟨rfl, EngineConfig.enableAllFeatures_spec⟩

theorem asks_eq_none_iff {features : Set Nat} :
    call.asks tables features = none ↔ ¬ call.Names tables := by
  cases call with
  | setFeatures set => simp [asks, Names]
  | enableFeature id => simp [asks, Names]
  | enableCpuFeatures arch cpuId =>
    cases hcpu : featureSetFromCpu tables arch cpuId <;> simp [asks, Names, hcpu, Except.toOption]
  | enableAllFeatures => simp [asks, Names]

variable (call tables config) in
theorem apply_target :
    (call.apply tables config).2.arch = config.arch ∧
      (call.apply tables config).2.mode = config.mode := by
  cases call with
  | setFeatures set => cases set <;> exact ⟨rfl, rfl⟩
  | enableFeature id =>
    simp only [apply, EngineConfig.enableFeature]
    split <;> exact ⟨rfl, rfl⟩
  | enableCpuFeatures arch cpuId =>
    simp only [apply, EngineConfig.enableCpuFeatures]
    split <;> exact ⟨rfl, rfl⟩
  | enableAllFeatures => exact ⟨rfl, rfl⟩

variable (call tables) in
theorem apply_spec (hconsistent : config.Consistent) :
    let config' := (call.apply tables config).2
    config'.Consistent ∧
      config'.features = (call.asks tables config.features).getD config.features ∧
      (config'.Supplied ↔ config.Supplied ∨ call.Names tables) := by
  cases hasks : call.asks tables config.features with
  | none =>
    simp [(apply_of_asks_none hasks).2, asks_eq_none_iff.1 hasks, hconsistent]
  | some set =>
    obtain ⟨-, hsupplied, hconsistent', hset⟩ := apply_of_asks hconsistent hasks
    have hnames : call.Names tables := by
      by_contra hnot
      rw [asks_eq_none_iff.2 hnot] at hasks
      cases hasks
    exact ⟨hconsistent', hset, by simp [hsupplied, hnames]⟩

end ConfigCall

/-! ## Operations on sets -/

namespace FeatureSet

variable {set set' : FeatureSet} {id : Nat}

theorem toSet_enable (h : set.enable id = .ok set') :
    Words.toSet set'.words = insert id (Words.toSet set.words) := by
  unfold enable at h
  split at h
  case isTrue => cases h
  case isFalse hlt =>
    cases h
    exact Words.toSet_insert (n := 8) (w := 64) (Nat.lt_of_not_le hlt)

theorem toSet_disable (h : set.disable id = .ok set') :
    Words.toSet set'.words = Words.toSet set.words \ {id} := by
  unfold disable at h
  split at h
  case isTrue => cases h
  case isFalse hlt =>
    cases h
    exact Words.toSet_erase (n := 8) (w := 64) (Nat.lt_of_not_le hlt)

end FeatureSet

theorem toSet_foldlM {tables : CpuTables} {arch : Option Arch} {cpuId : Nat} (indices : List Nat)
    {set set' : FeatureSet}
    (h : indices.foldlM (fun (set : FeatureSet) i => do
      let feature ← getCpuFeatureInfo tables arch cpuId i
      set.enable feature.id) set = .ok set') :
    Words.toSet set'.words = Words.toSet set.words ∪
      {id | ∃ i ∈ indices, getCpuFeatureInfo tables arch cpuId i = .ok ⟨id⟩} := by
  induction indices generalizing set with
  | nil =>
    obtain rfl : set = set' := by simpa [pure, Except.pure] using h
    simp
  | cons i indices ih =>
    rw [List.foldlM_cons] at h
    cases hfeature : getCpuFeatureInfo tables arch cpuId i with
    | error status => simp [bind, Except.bind, hfeature] at h
    | ok feature =>
      cases hset : set.enable feature.id with
      | error status => simp [bind, Except.bind, hfeature, hset] at h
      | ok next =>
        have hnext : indices.foldlM (fun (set : FeatureSet) i => do
            let feature ← getCpuFeatureInfo tables arch cpuId i
            set.enable feature.id) next = .ok set' := by
          simpa [bind, Except.bind, hfeature, hset] using h
        rw [ih hnext, FeatureSet.toSet_enable hset]
        ext id
        have hid : feature = ⟨id⟩ ↔ id = feature.id := by
          constructor
          · rintro rfl
            rfl
          · rintro rfl
            rfl
        simp [hfeature, hid]
        tauto

theorem toSet_featureSetFromCpu {tables : CpuTables} {arch : Arch} {cpuId : Nat} {cpu : CpuInfo}
    {set : FeatureSet} (hcpu : tables.cpuInfo arch cpuId = some cpu)
    (h : featureSetFromCpu tables (some arch) cpuId = .ok set) :
    Words.toSet set.words =
      {id | ∃ i < cpu.featureCount, tables.cpuFeatureInfo arch cpuId i = some ⟨id⟩} := by
  have hinfo : ∀ i id, getCpuFeatureInfo tables (some arch) cpuId i = .ok ⟨id⟩ ↔
      tables.cpuFeatureInfo arch cpuId i = some ⟨id⟩ := by
    intro i id
    cases hfeature : tables.cpuFeatureInfo arch cpuId i <;> simp [getCpuFeatureInfo, hfeature]
  simp only [featureSetFromCpu, getCpuInfo, hcpu] at h
  rw [toSet_foldlM _ h]
  simp [FeatureSet.clear, Words.toSet_empty, hinfo]

/-! ## Lists of calls -/

theorem configure_cons (tables : CpuTables) (config : EngineConfig) (call : ConfigCall) (calls : List ConfigCall) :
    configure tables config (call :: calls) =
      configure tables (call.apply tables config).2 calls := rfl

theorem configure_target (tables : CpuTables) (config : EngineConfig) (calls : List ConfigCall) :
    (configure tables config calls).arch = config.arch ∧
      (configure tables config calls).mode = config.mode := by
  induction calls generalizing config with
  | nil => exact ⟨rfl, rfl⟩
  | cons call calls ih =>
    obtain ⟨harch, hmode⟩ := ih (call.apply tables config).2
    obtain ⟨harch', hmode'⟩ := call.apply_target tables config
    exact ⟨harch.trans harch', hmode.trans hmode'⟩

/-- The words go through a list of calls as the set does. -/
theorem configure_spec (tables : CpuTables) {config : EngineConfig} (hconsistent : config.Consistent)
    (calls : List ConfigCall) :
    let config' := configure tables config calls
    config'.Consistent ∧
      config'.features =
        calls.foldl (fun set call => (call.asks tables set).getD set) config.features ∧
      (config'.Supplied ↔ config.Supplied ∨ ∃ call ∈ calls, call.Names tables) := by
  induction calls generalizing config with
  | nil => simp [configure, hconsistent]
  | cons call calls ih =>
    obtain ⟨hconsistent', hset, hsupplied⟩ :=
      call.apply_spec tables hconsistent
    obtain ⟨hend, hsets, hsupplieds⟩ := ih hconsistent'
    refine ⟨hend, ?_, ?_⟩
    · rw [configure_cons, List.foldl_cons, ← hset]
      exact hsets
    · rw [configure_cons, hsupplieds, hsupplied, or_assoc]
      simp

theorem foldl_asks_of_not_names {tables : CpuTables} {calls : List ConfigCall}
    (h : ¬ ∃ call ∈ calls, call.Names tables) (set : Set Nat) :
    calls.foldl (fun set call => (call.asks tables set).getD set) set = set := by
  induction calls with
  | nil => rfl
  | cons call calls ih =>
    have hcall : ¬ call.Names tables := fun hnames => h ⟨call, by simp, hnames⟩
    have hrest : ¬ ∃ call ∈ calls, call.Names tables :=
      fun ⟨other, hmem, hnames⟩ => h ⟨other, by simp [hmem], hnames⟩
    rw [List.foldl_cons, ConfigCall.asks_eq_none_iff.2 hcall]
    exact ih hrest

/-! ## The engine -/

theorem engineInit_eq_ok {config : EngineConfig} {engine : Engine}
    (h : engineInit config = .ok engine) : engine.config = config.resolve := by
  unfold engineInit at h
  split at h
  · cases h
  · cases h
    rfl

theorem engineInit_of_target {config config' : EngineConfig} {engine : Engine}
    (harch : config'.arch = config.arch) (hmode : config'.mode = config.mode)
    (h : engineInit config = .ok engine) : ∃ engine', engineInit config' = .ok engine' := by
  have hlookup : lookupTargetOps config'.resolve.arch config'.resolve.mode =
      lookupTargetOps config.resolve.arch config.resolve.mode := by
    simp only [EngineConfig.resolve_arch, EngineConfig.resolve_mode, EngineConfig.resolveMode,
      harch, hmode]
  unfold engineInit at h ⊢
  split at h
  · cases h
  · next target hsome =>
    rw [← hlookup] at hsome
    split
    · simp_all
    · exact ⟨_, rfl⟩

theorem hasFlag_resolve_flags {config : EngineConfig}
    (h : hasFlag config.flags EngineFlag.allTargetFeatures = true ∨
      ¬ hasFlag config.flags EngineFlag.explicitFeatures = true) :
    hasFlag config.resolve.flags EngineFlag.allTargetFeatures = true := by
  unfold EngineConfig.resolve
  dsimp only
  rw [if_pos h, hasFlag, or_and_mask]
  decide

theorem featureEnabled_iff {config : EngineConfig} {engine : Engine}
    (h : engineInit config = .ok engine) {id : Nat} (hid : id < featureBitCapacity) :
    engine.featureEnabled id = true ↔ ¬ config.Supplied ∨ id ∈ config.features := by
  have hbit : id % 64 < 64 := Nat.mod_lt id (by decide)
  unfold Engine.featureEnabled Engine.featureWord
  rw [engineInit_eq_ok h, EngineConfig.features, EngineConfig.getFeatures]
  by_cases hflags : hasFlag config.flags EngineFlag.allTargetFeatures = true ∨
      ¬ hasFlag config.flags EngineFlag.explicitFeatures = true
  · rw [if_pos (hasFlag_resolve_flags hflags)]
    simp only [BitVec.getLsbD_allOnes, hbit, decide_true, true_iff]
    by_cases hall : hasFlag config.flags EngineFlag.allTargetFeatures = true
    · right
      rw [if_pos hall]
      exact Words.mem_full (n := 8) (w := 64) hid
    · left
      exact not_or.2 ⟨hflags.resolve_left hall, hall⟩
  · obtain ⟨hall, hexplicit⟩ := not_or.1 hflags
    have hsupplied : config.Supplied := .inl (not_not.1 hexplicit)
    unfold EngineConfig.resolve
    dsimp only
    rw [if_neg hflags, if_neg hall, if_neg hall]
    simp only [hsupplied, not_true, false_or]
    rfl

theorem contains_getFeatures {config : EngineConfig} {id : Nat} (hid : id < featureBitCapacity)
    (b : Bool) : config.getFeatures.contains id = .ok b ↔ (id ∈ config.features ↔ b = true) := by
  have hge : ¬ id ≥ featureBitCapacity := Nat.not_le_of_lt hid
  rw [FeatureSet.contains, if_neg hge, EngineConfig.features, Words.mem_toSet, Except.ok.injEq,
    Bool.eq_iff_iff]

theorem configInit_consistent (arch : Arch) (mode : Mode) : (configInit arch mode).Consistent := by
  simp [EngineConfig.Consistent, configInit, hasFlag_zero]

theorem configInit_not_supplied (arch : Arch) (mode : Mode) : ¬ (configInit arch mode).Supplied := by
  simp [EngineConfig.Supplied, configInit, hasFlag_zero]

theorem configInit_features (arch : Arch) (mode : Mode) : (configInit arch mode).features = ∅ := by
  rw [EngineConfig.features, (configInit_consistent arch mode).getFeatures]
  exact Words.toSet_empty

/-- The features a configuration names are those of its engine just when some call named
features. Before that the getter names none, and the engine has all. -/
theorem getFeatures_agrees_iff (tables : CpuTables) (arch : Arch) (mode : Mode)
    (calls : List ConfigCall) {base : Engine}
    (haccepts : engineInit (configInit arch mode) = .ok base) :
    let config := configure tables (configInit arch mode) calls
    ∃ engine, engineInit config = .ok engine ∧
      (((∀ id < featureBitCapacity,
          config.getFeatures.contains id = .ok (engine.featureEnabled id)) ∧
        ∀ call : ConfigCall, (call.apply tables config).1 ≠ .ok →
          (call.apply tables config).2.getFeatures = config.getFeatures) ↔
      ∃ call ∈ calls, call.Names tables) := by
  intro config
  obtain ⟨harch, hmode⟩ := configure_target tables (configInit arch mode) calls
  obtain ⟨engine, hengine⟩ := engineInit_of_target harch hmode haccepts
  obtain ⟨hconsistent, hfeatures, hsupplied⟩ :=
    configure_spec tables (configInit_consistent arch mode) calls
  refine ⟨engine, hengine, ?_⟩
  constructor
  · rintro ⟨hagree, -⟩
    by_contra hnone
    -- no call named features: the set is empty, and the engine has feature 0
    rw [foldl_asks_of_not_names hnone, configInit_features] at hfeatures
    have hnot : ¬ config.Supplied := fun h =>
      (hsupplied.1 h).elim (configInit_not_supplied arch mode) hnone
    have hzero := (contains_getFeatures (by decide) _).1 (hagree 0 (by decide))
    rw [featureEnabled_iff hengine (by decide), hfeatures] at hzero
    exact hzero.2 (.inl hnot)
  · intro hnames
    have hyes : config.Supplied := hsupplied.2 (.inr hnames)
    constructor
    · intro id hid
      rw [contains_getFeatures hid, featureEnabled_iff hengine hid]
      exact ⟨.inr, fun h => h.resolve_left (not_not.2 hyes)⟩
    · intro call hfailed
      cases hasks : call.asks tables config.features with
      | none => rw [(ConfigCall.apply_of_asks_none hasks).2]
      | some set => exact absurd (ConfigCall.apply_of_asks hconsistent hasks).1 hfailed

def noCpus : CpuTables := ⟨fun _ _ => none, fun _ _ _ => none⟩

theorem getFeatures_agrees_x86 :
    (∃ engine, engineInit (configInit .x86 .x86_64) = .ok engine) ∧
      ∃ engine, engineInit (configure noCpus (configInit .x86 .x86_64)
          [.enableFeature 600, .enableFeature 3]) = .ok engine ∧
        (configure noCpus (configInit .x86 .x86_64)
          [.enableFeature 600, .enableFeature 3]).getFeatures.contains 3 =
            .ok (engine.featureEnabled 3) := by
  have hinit : engineInit (configInit .x86 .x86_64) = .ok x86Engine64 := rfl
  obtain ⟨engine, hengine, hiff⟩ :=
    getFeatures_agrees_iff noCpus .x86 .x86_64 [.enableFeature 600, .enableFeature 3] hinit
  have hnames : ∃ call ∈ [.enableFeature 600, .enableFeature 3], ConfigCall.Names noCpus call :=
    ⟨.enableFeature 3, by simp, Nat.lt_of_sub_pos (by decide)⟩
  exact ⟨⟨_, hinit⟩, engine, hengine, (hiff.2 hnames).1 3 (by decide)⟩

/-- Right after `asmkit_engine_config_init` the getter names no feature, and the engine has them
all. -/
theorem getFeatures_disagrees_at_first :
    ∃ engine, engineInit (configure noCpus (configInit .x86 .x86_64) []) = .ok engine ∧
      engine.featureEnabled 0 = true ∧
      (configure noCpus (configInit .x86 .x86_64) []).getFeatures.contains 0 = .ok false :=
  ⟨_, rfl, rfl, rfl⟩

end AsmKit
