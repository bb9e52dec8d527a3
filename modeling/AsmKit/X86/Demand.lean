import AsmKit.Decode.Failure
import AsmKit.X86.Locality

/-!
# What the x86 decoder asks for

How long an instruction is says its head, then its row, and ModRM where there is one. None of them
is known before its bytes are there, and what they say does not change with what follows.
-/

namespace AsmKit.X86

variable {mode : Mode} {code : List Byte} {p : PrefixState} {i : Nat}

/-! ## Prefixes -/

theorem le_scanPrefixes (bytes : List Byte) (i : Nat) (p : PrefixState) :
    i ≤ (scanPrefixes mode bytes i p).2 := by
  fun_induction scanPrefixes mode bytes i p with
  | case1 | case2 | case6 | case7 => exact Nat.le_refl _
  | case3 _ _ _ _ _ _ ih => omega
  | case4 _ _ _ _ _ _ _ ih => omega
  | case5 _ _ _ _ _ _ _ _ _ ih => omega

/-- Where the scan stops is settled: at the limit, or at a byte that does not begin a prefix, as `d5`
does in 64-bit mode. -/
structure ScanSettled (mode : Mode) (bytes : List Byte) (i j : Nat) : Prop where
  inside : j < maxInstructionBytes → j < i + bytes.length
  rex2 : mode = .x86_64 → j < maxInstructionBytes → bytes.getD (j - i) 0 = 0xd5 →
    j + 1 < i + bytes.length

theorem ScanSettled.tail {b : Byte} {rest : List Byte} {i j : Nat}
    (h : ScanSettled mode (b :: rest) i j) (hj : i + 1 ≤ j) : ScanSettled mode rest (i + 1) j := by
  have hinside := h.inside
  have hrex2 := h.rex2
  rw [List.length_cons] at hinside hrex2
  refine ⟨fun hlt => by have := hinside hlt; omega, fun hmode hlt hbyte => ?_⟩
  have hsub : j - i = (j - (i + 1)) + 1 := by omega
  rw [hsub, List.getD_cons_succ] at hrex2
  have := hrex2 hmode hlt hbyte
  omega

theorem scanPrefixes_settled {bytes : List Byte}
    (h : ScanSettled mode bytes i (scanPrefixes mode bytes i p).2) (tail : List Byte) :
    scanPrefixes mode (bytes ++ tail) i p = scanPrefixes mode bytes i p := by
  fun_induction scanPrefixes mode bytes i p with
  | case1 i p =>
    have hmax : maxInstructionBytes ≤ i := by
      by_contra hlt
      have := h.inside (Nat.lt_of_not_le hlt)
      simp at this
    cases tail with
    | nil => rfl
    | cons b tail =>
      rw [List.nil_append, scanPrefixes.eq_def]
      exact if_pos hmax
  | case2 b rest i p hmax =>
    rw [List.cons_append, scanPrefixes.eq_def]
    exact if_pos hmax
  | case3 b rest i p hmax hlegacy ih =>
    rw [List.cons_append, scanPrefixes.eq_def]
    simp only [if_neg hmax, if_pos hlegacy]
    exact ih (h.tail (le_scanPrefixes _ _ _))
  | case4 b rest i p hmax hlegacy hrex ih =>
    rw [List.cons_append, scanPrefixes.eq_def]
    simp only [if_neg hmax, if_neg hlegacy, if_pos hrex]
    exact ih (h.tail (le_scanPrefixes _ _ _))
  | case5 b i p hmax hlegacy hrex rex2 rest hd5 ih =>
    have hle := @le_scanPrefixes mode rest (i + 2) (p.rex rex2)
    rw [List.cons_append, scanPrefixes.eq_def]
    simp only [if_neg hmax, if_neg hlegacy, if_neg hrex, List.cons_append, if_pos hd5]
    exact ih ((h.tail (by omega)).tail (by omega))
  | case6 b i p hmax hlegacy hrex rex2 rest hd5 =>
    rw [List.cons_append, scanPrefixes.eq_def]
    simp only [if_neg hmax, if_neg hlegacy, if_neg hrex, List.cons_append, if_neg hd5]
  | case7 b i p hmax hlegacy hrex =>
    have hb : ¬ (mode = .x86_64 ∧ b = 0xd5) := by
      rintro ⟨hmode, rfl⟩
      have := h.rex2 hmode (Nat.lt_of_not_le hmax) (by simp)
      simp at this
    rw [List.singleton_append, scanPrefixes.eq_def]
    simp only [if_neg hmax, if_neg hlegacy, if_neg hrex, if_neg hb]
    cases tail <;> rfl

/-! ## Opcodes -/

/-- The byte behind it decides whether it is an opcode or a prefix. -/
def AwaitsNext (mode : Mode) (op : Byte) : Prop :=
  op ∈ vectorOpcodes ∨ (mode = .x86_64 ∧ op = 0xd5)

instance (mode : Mode) (op : Byte) : Decidable (AwaitsNext mode op) :=
  inferInstanceAs (Decidable (_ ∨ _))

/-- The bytes of the opcode at `i`, as far as it is there: `0f` and the vector prefixes take more. -/
def opcodeSize (mode : Mode) (code : List Byte) (i : Nat) : Nat :=
  let op := code.getD i 0
  let b1 := code.getD (i + 1) 0
  if AwaitsNext mode op ∧ code.length ≤ i + 1 then 2
  else if op = 0x62 ∧ isVectorPrefix mode code i then if vexEvexMapId (b1 &&& 7) = none then 2 else 5
  else if op = 0xc4 ∧ isVectorPrefix mode code i then if vexEvexMapId (b1 &&& 0x1f) = none then 2 else 4
  else if op = 0xc5 ∧ isVectorPrefix mode code i then 3
  else if op = 0x8f ∧ isXopPrefix code i then if xopMapId (b1 &&& 0x1f) = none then 2 else 4
  else if op = 0x0f then if b1 ≠ 0x38 ∧ b1 ≠ 0x3a then 2 else 3
  else 1

theorem opcodeSize_pos (mode : Mode) (code : List Byte) (i : Nat) : 0 < opcodeSize mode code i := by
  unfold opcodeSize
  simp only
  split_ifs <;> omega

/-- The opcode is all there. -/
structure OpcodeWhole (mode : Mode) (code : List Byte) (i : Nat) : Prop where
  le : i + opcodeSize mode code i ≤ code.length

theorem OpcodeWhole.lt (h : OpcodeWhole mode code i) : i < code.length := by
  have hle := h.le
  have hpos := opcodeSize_pos mode code i
  omega

theorem OpcodeWhole.decided (h : OpcodeWhole mode code i) (hop : AwaitsNext mode (code.getD i 0)) :
    i + 1 < code.length := by
  by_contra hshort
  have hle := h.le
  rw [opcodeSize, if_pos ⟨hop, Nat.le_of_not_lt hshort⟩] at hle
  omega

theorem isVectorPrefix_append (hlen : i + 1 < code.length) (tail : List Byte) :
    isVectorPrefix mode (code ++ tail) i = isVectorPrefix mode code i := by
  simp only [isVectorPrefix, List.length_append, List.getD_append _ _ _ _ hlen, hlen,
    show i + 1 < code.length + tail.length by omega]

theorem isXopPrefix_append (hlen : i + 1 < code.length) (tail : List Byte) :
    isXopPrefix (code ++ tail) i = isXopPrefix code i := by
  simp only [isXopPrefix, List.length_append, List.getD_append _ _ _ _ hlen, hlen,
    show i + 1 < code.length + tail.length by omega]

theorem OpcodeWhole.plain (h : OpcodeWhole mode code i) (hlast : ¬ i + 1 < code.length) :
    ¬ AwaitsNext mode (code.getD i 0) ∧ code.getD i 0 ≠ 0x0f := by
  have hop : ¬ AwaitsNext mode (code.getD i 0) := fun hop => hlast (h.decided hop)
  refine ⟨hop, fun hescape => ?_⟩
  have hle := h.le
  rw [opcodeSize, hescape] at hle
  simp only at hle
  split_ifs at hle <;> omega

theorem opcodeSize_append (h : OpcodeWhole mode code i) (tail : List Byte) :
    opcodeSize mode (code ++ tail) i = opcodeSize mode code i := by
  have hop := List.getD_append code tail 0 i h.lt
  by_cases hlast : i + 1 < code.length
  · simp only [opcodeSize, hop, List.getD_append code tail 0 _ hlast, isVectorPrefix_append hlast,
      isXopPrefix_append hlast, List.length_append, show ¬ code.length ≤ i + 1 by omega,
      show ¬ code.length + tail.length ≤ i + 1 by omega]
  · obtain ⟨hplain, hescape⟩ := h.plain hlast
    have hne : code.getD i 0 ≠ 0x62 ∧ code.getD i 0 ≠ 0xc4 ∧ code.getD i 0 ≠ 0xc5 ∧
        code.getD i 0 ≠ 0x8f := by
      simp only [AwaitsNext, vectorOpcodes, List.mem_cons, not_or] at hplain
      exact ⟨hplain.1.1, hplain.1.2.1, hplain.1.2.2.1, hplain.1.2.2.2.1⟩
    simp only [opcodeSize, hop, hplain, hescape, hne, false_and, if_false]

theorem OpcodeWhole.append (h : OpcodeWhole mode code i) (tail : List Byte) :
    OpcodeWhole mode (code ++ tail) i := by
  have hle := h.le
  refine ⟨?_⟩
  rw [opcodeSize_append h, List.length_append]
  omega

theorem parseLegacyOpcode_append (hlt : i < code.length)
    (hescape : code.getD i 0 = 0x0f → i + 1 < code.length ∧
      (code.getD (i + 1) 0 = 0x38 ∨ code.getD (i + 1) 0 = 0x3a → i + 2 < code.length))
    (tail : List Byte) : parseLegacyOpcode (code ++ tail) p i = parseLegacyOpcode code p i := by
  simp only [parseLegacyOpcode, List.getD_append code tail 0 i hlt, List.length_append]
  split
  · rfl
  next hop =>
  obtain ⟨h1, h2⟩ := hescape (not_not.1 hop)
  rw [if_neg (show ¬ code.length + tail.length ≤ i + 1 by omega),
    if_neg (show ¬ code.length ≤ i + 1 by omega), List.getD_append code tail 0 _ h1]
  split
  · rfl
  next hmap =>
  have h2 := h2 (by tauto)
  rw [if_neg (show ¬ code.length + tail.length ≤ i + 2 by omega),
    if_neg (show ¬ code.length ≤ i + 2 by omega), List.getD_append code tail 0 _ h2]

theorem parseOpcode_append (h : OpcodeWhole mode code i) (tail : List Byte) :
    parseOpcode mode (code ++ tail) p i = parseOpcode mode code p i := by
  have hop := List.getD_append code tail 0 i h.lt
  have hle := h.le
  by_cases hlast : i + 1 < code.length
  · have hb1 := List.getD_append code tail 0 _ hlast
    have hundecided : ¬ (AwaitsNext mode (code.getD i 0) ∧ code.length ≤ i + 1) := by omega
    simp only [opcodeSize, if_neg hundecided] at hle
    simp only [parseOpcode, hop, hb1, isVectorPrefix_append hlast, isXopPrefix_append hlast]
    split
    · next h62 =>
      simp only [if_pos h62] at hle
      cases hmap : vexEvexMapId (code.getD (i + 1) 0 &&& 7) with
      | none => simp
      | some map =>
        simp only [hmap, reduceCtorEq, if_false] at hle
        simp only [List.length_append, show ¬ code.length ≤ i + 4 by omega,
          show ¬ code.length + tail.length ≤ i + 4 by omega, List.getD_append code tail 0 (i + 2) (by omega),
          List.getD_append code tail 0 (i + 3) (by omega), List.getD_append code tail 0 (i + 4) (by omega)]
    next h62 =>
    rw [if_neg h62] at hle
    split
    · next hc4 =>
      simp only [if_pos hc4] at hle
      cases hmap : vexEvexMapId (code.getD (i + 1) 0 &&& 0x1f) with
      | none => simp
      | some map =>
        simp only [hmap, reduceCtorEq, if_false] at hle
        simp only [List.length_append, show ¬ code.length ≤ i + 3 by omega,
          show ¬ code.length + tail.length ≤ i + 3 by omega, List.getD_append code tail 0 (i + 2) (by omega),
          List.getD_append code tail 0 (i + 3) (by omega)]
    next hc4 =>
    rw [if_neg hc4] at hle
    split
    · next hc5 =>
      simp only [if_pos hc5] at hle
      simp only [List.length_append, show ¬ code.length ≤ i + 2 by omega,
        show ¬ code.length + tail.length ≤ i + 2 by omega, List.getD_append code tail 0 (i + 2) (by omega)]
    next hc5 =>
    rw [if_neg hc5] at hle
    split
    · next h8f =>
      simp only [if_pos h8f] at hle
      cases hmap : xopMapId (code.getD (i + 1) 0 &&& 0x1f) with
      | none => simp
      | some map =>
        simp only [hmap, reduceCtorEq, if_false] at hle
        simp only [List.length_append, show ¬ code.length ≤ i + 3 by omega,
          show ¬ code.length + tail.length ≤ i + 3 by omega, List.getD_append code tail 0 (i + 2) (by omega),
          List.getD_append code tail 0 (i + 3) (by omega)]
    next h8f =>
    rw [if_neg h8f] at hle
    refine parseLegacyOpcode_append h.lt (fun hescape => ⟨hlast, fun hmap => ?_⟩) tail
    rw [if_pos hescape, if_neg (by tauto)] at hle
    omega
  · obtain ⟨hplain, hescape⟩ := h.plain hlast
    have hvector : code.getD i 0 ∉ vectorOpcodes := fun hmem => hplain (.inl hmem)
    rw [parseOpcode_legacy hvector, parseOpcode_legacy (hop ▸ hvector)]
    exact parseLegacyOpcode_append h.lt (fun h0f => absurd h0f hescape) tail

/-! ## The head -/

/-- The bytes in front of ModRM are all there, or over the limit. -/
def HeadWhole (mode : Mode) (code : List Byte) : Prop :=
  let i := (scanPrefixes mode code 0 (.init mode)).2
  maxInstructionBytes ≤ i ∨ i + opcodeSize mode code i ≤ code.length

instance (mode : Mode) (code : List Byte) : Decidable (HeadWhole mode code) :=
  inferInstanceAs (Decidable (_ ∨ _))

theorem HeadWhole.scan (h : HeadWhole mode code) (tail : List Byte) :
    scanPrefixes mode (code ++ tail) 0 (.init mode) = scanPrefixes mode code 0 (.init mode) := by
  have hwhole (hlt : (scanPrefixes mode code 0 (.init mode)).2 < maxInstructionBytes) :
      OpcodeWhole mode code (scanPrefixes mode code 0 (.init mode)).2 :=
    ⟨h.resolve_left (Nat.not_le.2 hlt)⟩
  refine scanPrefixes_settled ⟨fun hlt => ?_, fun hmode hlt hbyte => ?_⟩ tail
  · rw [Nat.zero_add]
    exact (hwhole hlt).lt
  · rw [Nat.zero_add]
    exact (hwhole hlt).decided (.inr ⟨hmode, hbyte⟩)

theorem HeadWhole.append (h : HeadWhole mode code) (tail : List Byte) : HeadWhole mode (code ++ tail) := by
  unfold HeadWhole
  simp only [h.scan tail]
  exact h.imp_right fun hle => (OpcodeWhole.append ⟨hle⟩ tail).le

theorem HeadWhole.parseHead (h : HeadWhole mode code) (tail : List Byte) :
    parseHead mode (code ++ tail) = parseHead mode code := by
  unfold X86.parseHead
  rw [h.scan tail]
  simp only [HeadWhole] at h
  rcases hscan : scanPrefixes mode code 0 (.init mode) with ⟨p, i⟩
  simp only [hscan] at h ⊢
  rcases h with hmax | hle
  · rw [if_pos (.inr hmax), if_pos (.inr hmax)]
  · have hlt := OpcodeWhole.lt ⟨hle⟩
    rw [parseOpcode_append ⟨hle⟩, List.length_append]
    simp only [show ¬ code.length ≤ i by omega, show ¬ code.length + tail.length ≤ i by omega]

/-! ## ModRM -/

theorem parseModrm_append {addressWidth : Nat} {m : Modrm}
    (hparse : parseModrm mode addressWidth code i = some m) (tail : List Byte) :
    parseModrm mode addressWidth (code ++ tail) i = some m := by
  unfold parseModrm at hparse ⊢
  split at hparse
  · cases hparse
  next hlen =>
  have hbyte := List.getD_append code tail 0 i (by omega)
  rw [if_neg (by rw [List.length_append]; omega)]
  simp only [hbyte]
  simp only at hparse
  split at hparse
  · next h16 =>
    rw [if_pos h16]
    exact hparse
  next h16 =>
  rw [if_neg h16]
  split at hparse
  · next hsib =>
    split at hparse
    · cases hparse
    next hlen1 =>
    rw [if_pos hsib, if_neg (by rw [List.length_append]; omega),
      List.getD_append code tail 0 (i + 1) (by omega)]
    exact hparse
  · next hsib =>
    rw [if_neg hsib]
    exact hparse

variable (engine : Engine) (tables : Tables)

/-- The demand behind the head, where ModRM follows. -/
def modrmDemand (code : List Byte) (h : Head) : Demand :=
  match parseModrm engine.config.mode (decodeAddressWidth engine h.prefixes.address16) code h.next with
  | none => .unknown
  | some m =>
    if h.is3DNow ∧ code.length ≤ m.next then .unknown
    else match lookupTdRecord tables engine (h.modrmQuery engine code m) with
      | .error _ => .refused
      | .ok record => .atMost maxInstructionBytes (m.next + h.modrmImm m record)

/-- The demand of a head, none where ModRM follows. -/
def plainDemand (h : Head) : Option Demand :=
  let mode := engine.config.mode
  if isNop h then some (.atMost maxInstructionBytes h.next)
  else if h.isRel then some (.size (h.next + relBranchImmSize mode h))
  else match lookupNoModrm engine tables h with
    | .error _ => some .refused
    | .ok record =>
      match record.filter (·.modrmKind = .none) with
      | some row => some (.atMost maxInstructionBytes (h.next + row.immSize + row.extraImmSize))
      | none =>
        if record.isNone ∧ ¬ h.isLegacy ∧ h.opcodeMap = 1 ∧ isNearJcc h.opcode then
          some (.size (h.next + nearBranchImmSize mode h.prefixes.operand16))
        else if record.isNone ∧ h.isLegacy ∧ h.opcodeMap = 0 ∧ isIo h.opcode then
          some (.size (h.next + if isIoImm h.opcode then 1 else 0))
        else if endsWithoutModrm engine tables h then
          some (.atMost maxInstructionBytes (h.next + otherImmSize mode h))
        else none

/-- The demand behind the head. -/
def headDemand (code : List Byte) (h : Head) : Demand :=
  if isEndbr code h then .atMost maxInstructionBytes (h.next + 1)
  else (plainDemand engine tables h).getD (modrmDemand engine tables code h)

/-- `f3 0f 1e`: the byte behind it tells whether it is `endbr`. -/
def awaitsEndbr (code : List Byte) (h : Head) : Bool :=
  h.isLegacy && h.prefixes.prefixF3 && h.opcodeMap == 1 && h.opcode == 0x1e && code.length ≤ h.next

def demand (code : List Byte) : Demand :=
  match parseHead engine.config.mode code with
  | none => if HeadWhole engine.config.mode code then .rejected else .unknown
  | some h =>
    let d := headDemand engine tables code h
    if HeadWhole engine.config.mode code ∧ ¬ awaitsEndbr code h then d else d.unlessMet code.length

/-! ## The demand is what the decoder goes by -/

variable {engine tables} {h : Head} {address : BitVec 64} {prior : Inst}

theorem lookupTdRecord_error {q : Query} {status : Status}
    (h : lookupTdRecord tables engine q = .error status) : status = .unsupportedFeature := by
  unfold lookupTdRecord at h
  simp only at h
  split at h
  · cases h
  split at h
  · cases h
    rfl
  split at h
  · cases h
  split at h
  · cases h
    rfl
  · cases h

theorem lookupNoModrm_error {status : Status} (h : lookupNoModrm engine tables h = .error status) :
    status = .unsupportedFeature := by
  unfold lookupNoModrm at h
  simp only at h
  split at h
  · cases h
  · exact lookupTdRecord_error h

theorem explains_atMost {n : Nat} {inst : Inst} :
    Explains code.length (.atMost maxInstructionBytes n)
      (if code.length < n ∨ maxInstructionBytes < n then .error .decodeFailed else .ok inst) := by
  unfold Demand.atMost
  by_cases hmax : maxInstructionBytes < n
  · simp [Explains, hmax]
  · simp only [hmax, or_false, if_false]
    exact explains_ite

theorem explains_short {n : Nat} (hlen : code.length < n) :
    Explains code.length (.atMost maxInstructionBytes n) (.error .decodeFailed) := by
  unfold Demand.atMost
  split
  · rfl
  · simp [Explains, hlen]

theorem explains_finish {n id mnemonicId : Nat} {instClass : InstClass} {flags : BitVec 32} (hpos : 0 < n) :
    Explains code.length (.atMost maxInstructionBytes n)
      (match finish engine code address n id mnemonicId instClass flags with
        | some inst => .ok inst
        | none => .error .decodeFailed) := by
  unfold finish Demand.atMost
  by_cases hmax : maxInstructionBytes < n
  · simp [Explains, hmax]
  · by_cases hlen : code.length < n
    · simp [Explains, hmax, hlen]
    · simp [Explains, hmax, hlen, hpos.ne', Nat.le_of_not_lt hlen]

theorem modrmDemand_explains :
    Explains code.length (modrmDemand engine tables code h)
      (decodeModrm engine tables code address prior h) := by
  unfold modrmDemand decodeModrm
  cases parseModrm engine.config.mode (decodeAddressWidth engine h.prefixes.address16) code h.next with
  | none => rfl
  | some m =>
    simp only [decodeWithModrm]
    split
    · rfl
    change Explains _ _ (match lookupTdRecord tables engine (h.modrmQuery engine code m) with
      | .error status => _
      | .ok record => _)
    cases hlookup : lookupTdRecord tables engine (h.modrmQuery engine code m) with
    | error status =>
      rw [lookupTdRecord_error hlookup]
      rfl
    | ok record =>
      cases record with
      | some record => exact explains_atMost
      | none => exact explains_atMost

theorem decodeRelBranch_explained {immSize : Nat} :
    Explains code.length (.size (h.next + immSize))
      (decodeRelBranch engine code address prior h immSize) :=
  explains_ite

theorem headDemand_explains (hnext : 0 < h.next) :
    Explains code.length (headDemand engine tables code h)
      (decodeHead engine tables code address prior h) := by
  unfold headDemand plainDemand decodeHead
  simp only
  split
  · exact explains_finish (Nat.succ_pos _)
  split
  · exact explains_finish hnext
  split
  · exact decodeRelBranch_explained
  unfold decodeTd
  cases hlookup : lookupNoModrm engine tables h with
  | error status =>
    rw [lookupNoModrm_error hlookup]
    rfl
  | ok record =>
    simp only
    cases record.filter (·.modrmKind = .none) with
    | some row => exact explains_atMost
    | none =>
      simp only
      split
      · exact decodeRelBranch_explained
      split
      · exact explains_ite
      split
      · unfold decodeOther
        simp only
        split
        · exact explains_short ‹_›
        · exact explains_finish (by omega)
      · exact modrmDemand_explains

theorem decodeOne_explained (hmode : mode = .x86_16 ∨ mode = .x86_32 ∨ mode = .x86_64)
    (hengine : engine.config.mode = mode) (hpos : code ≠ []) (address : BitVec 64) (prior : Inst) :
    Explains code.length (demand engine tables code) (decodeOne engine tables code address prior) := by
  unfold demand decodeOne
  have hx86 : ¬ (mode ≠ .x86_16 ∧ mode ≠ .x86_32 ∧ mode ≠ .x86_64) := by tauto
  simp only [if_neg hpos, hengine, if_neg hx86]
  cases hparse : parseHead mode code with
  | none =>
    simp only
    split <;> rfl
  | some h =>
    have hhead : Explains code.length (headDemand engine tables code h)
        (decodeHead engine tables code address prior h) := headDemand_explains (parseHead_next hparse)
    simp only
    split
    · exact hhead
    · exact hhead.unlessMet

/-! ## What follows does not change it -/

theorem modrmDemand_append (hknown : modrmDemand engine tables code h ≠ .unknown) (tail : List Byte) :
    modrmDemand engine tables (code ++ tail) h = modrmDemand engine tables code h := by
  unfold modrmDemand at hknown ⊢
  cases hparse : parseModrm engine.config.mode (decodeAddressWidth engine h.prefixes.address16) code
    h.next with
  | none => simp [hparse] at hknown
  | some m =>
    simp only [hparse] at hknown
    simp only [parseModrm_append hparse]
    split at hknown
    · exact absurd rfl hknown
    next h3DNow =>
    have hquery : h.modrmQuery engine (code ++ tail) m = h.modrmQuery engine code m := by
      unfold Head.modrmQuery
      split
      · next his => rw [List.getD_append _ _ _ _ (by
          by_contra hlen
          exact h3DNow ⟨his, Nat.le_of_not_lt hlen⟩)]
      · rfl
    rw [if_neg h3DNow, if_neg (fun hmore => h3DNow ⟨hmore.1, by
      have := hmore.2
      rw [List.length_append] at this
      omega⟩), hquery]

theorem headDemand_append (hawaits : awaitsEndbr code h = false)
    (hknown : headDemand engine tables code h ≠ .unknown) (tail : List Byte) :
    headDemand engine tables (code ++ tail) h = headDemand engine tables code h := by
  have hendbr : isEndbr (code ++ tail) h = isEndbr code h := by
    unfold isEndbr
    by_cases hlen : h.next < code.length
    · simp only [List.length_append, List.getD_append _ _ _ _ hlen, hlen,
        show h.next < code.length + tail.length by omega]
    · simp only [awaitsEndbr, Nat.le_of_not_lt hlen, decide_true, Bool.and_true] at hawaits
      simp only [hawaits, Bool.false_and]
  unfold headDemand at hknown ⊢
  rw [hendbr]
  split
  · rfl
  next hother =>
  rw [if_neg hother] at hknown
  cases hplain : plainDemand engine tables h with
  | some d => rfl
  | none =>
    rw [hplain] at hknown
    exact modrmDemand_append hknown tail

theorem awaitsEndbr_append (hawaits : awaitsEndbr code h = false) (tail : List Byte) :
    awaitsEndbr (code ++ tail) h = false := by
  unfold awaitsEndbr at hawaits ⊢
  rw [Bool.and_eq_false_iff] at hawaits ⊢
  refine hawaits.imp_right fun hlen => ?_
  rw [decide_eq_false_iff_not] at hlen ⊢
  rw [List.length_append]
  omega

/-- A demand that is not met is final. -/
theorem demand_append (hunmet : ¬ (demand engine tables code).Met code.length)
    (hknown : demand engine tables code ≠ .unknown) (hrefused : demand engine tables code ≠ .refused)
    (tail : List Byte) :
    demand engine tables (code ++ tail) = demand engine tables code := by
  unfold demand at hunmet hknown hrefused ⊢
  cases hparse : parseHead engine.config.mode code with
  | none =>
    simp only [hparse] at hknown ⊢
    split at hknown
    · next hwhole =>
      rw [hwhole.parseHead tail, hparse, if_pos hwhole]
      exact if_pos (hwhole.append tail)
    · exact absurd rfl hknown
  | some h =>
    simp only [hparse] at hunmet hknown hrefused ⊢
    split at hknown
    · next hsettled =>
      obtain ⟨hwhole, hawaits⟩ := hsettled
      rw [Bool.not_eq_true] at hawaits
      have hsettled' : HeadWhole engine.config.mode (code ++ tail) ∧ ¬ awaitsEndbr (code ++ tail) h = true :=
        ⟨hwhole.append tail, by rw [awaitsEndbr_append hawaits]; exact Bool.false_ne_true⟩
      simp only [hwhole.parseHead tail, hparse, if_pos hsettled', hwhole, hawaits, Bool.false_eq_true,
        not_false_eq_true, and_self, if_true]
      exact headDemand_append hawaits hknown tail
    · next hunsettled =>
      simp only [if_neg hunsettled] at hunmet hrefused
      rcases Demand.unlessMet_settled hknown with hmet | hrefuse
      · exact absurd hmet hunmet
      · exact absurd hrefuse hrefused

theorem demand_nil : demand engine tables [] = .unknown := by
  have hwhole : ¬ HeadWhole engine.config.mode [] := by
    simp [HeadWhole, scanPrefixes, maxInstructionBytes, (opcodeSize_pos _ _ _).ne']
  simp [demand, X86.parseHead, scanPrefixes, if_neg hwhole]

theorem governs (harch : engine.target.arch = .x86) (address : BitVec 64) (prior : Inst) :
    Demand.Governs (demand engine tables)
      (fun code => ∃ prior inst, decodeOne engine tables code address prior = .ok inst)
      (fun code => decodeOne engine tables code address prior = .error .unsupportedFeature) where
  accepts_iff code := by
    by_cases hcode : code = []
    · subst hcode
      rw [demand_nil]
      refine iff_of_false ?_ id
      rintro ⟨prior, inst, hdec⟩
      simp [decodeOne] at hdec
    · have hexplained (prior : Inst) : Explains code.length (demand engine tables code)
          (decodeOne engine tables code address prior) :=
        decodeOne_explained (engine.mode_of_x86 harch) rfl hcode address prior
      constructor
      · rintro ⟨prior, hok⟩
        exact (hexplained prior).isOk_iff.1 hok
      · intro hmet
        exact ⟨prior, (hexplained prior).isOk_iff.2 hmet⟩
  refuses_iff code := by
    by_cases hcode : code = []
    · subst hcode
      rw [demand_nil]
      exact iff_of_false (by simp [decodeOne]) (by simp)
    · exact (decodeOne_explained (engine.mode_of_x86 harch) rfl hcode address prior).refused_iff
  append_of_size code n hsize hlt tail := by
    rw [demand_append _ _ _ tail, hsize]
    all_goals simp [hsize, Demand.Met, hlt]
  append_of_rejected code hrejected tail n := by
    rw [demand_append _ _ _ tail, hrejected]
    all_goals simp [hrejected, Demand.Met]

end AsmKit.X86
