import AsmKit.X86.Jcc
import AsmKit.X86.Origin

/-!
# What the head of an x86 instruction depends on

The prefixes and the opcode are read from the bytes in front of ModRM and the immediate: other code
that begins with them has the same head.
-/

namespace AsmKit.X86

variable {mode : Mode}

/-! ## Prefixes -/

/-- The scan stops in front of a byte and reads no further, but for `d5`, where the byte behind it
counts. -/
theorem scanPrefixes_split {bytes : List Byte} {i j : Nat} {p q : PrefixState}
    (h : scanPrefixes mode bytes i p = (q, j)) (hlt : j < i + bytes.length) :
    ∃ pre b rest, bytes = pre ++ b :: rest ∧ i + pre.length = j ∧
      (b ≠ 0xd5 → ∀ tail, scanPrefixes mode (pre ++ b :: tail) i p = (q, j)) := by
  have hstop {b : Byte} {i : Nat} {p : PrefixState} (hlegacy : ¬ isLegacyPrefix b = true)
      (hrex : ¬ isRexPrefix mode b = true) (hb : b ≠ 0xd5) (tail : List Byte) :
      scanPrefixes mode ([] ++ b :: tail) i p = (p, i) :=
    scanPrefixes_stop (by simp [isPrefix, hlegacy, hrex]) hb tail i p
  fun_induction scanPrefixes mode bytes i p with
  | case1 i p =>
    cases h
    simp at hlt
  | case2 b rest i p hmax =>
    cases h
    refine ⟨[], b, rest, rfl, rfl, fun _ tail => ?_⟩
    rw [List.nil_append, scanPrefixes.eq_def]
    exact if_pos hmax
  | case3 b rest i p hmax hlegacy ih =>
    obtain ⟨pre, op, rest, rfl, rfl, htail⟩ := ih h (by simp at hlt; omega)
    refine ⟨b :: pre, op, rest, rfl, by simp; omega, fun hop tail => ?_⟩
    rw [List.cons_append, scanPrefixes.eq_def]
    simp only [if_neg hmax, if_pos hlegacy]
    exact htail hop tail
  | case4 b rest i p hmax hlegacy hrex ih =>
    obtain ⟨pre, op, rest, rfl, rfl, htail⟩ := ih h (by simp at hlt; omega)
    refine ⟨b :: pre, op, rest, rfl, by simp; omega, fun hop tail => ?_⟩
    rw [List.cons_append, scanPrefixes.eq_def]
    simp only [if_neg hmax, if_neg hlegacy, if_pos hrex]
    exact htail hop tail
  | case5 b i p hmax hlegacy hrex rex2 rest hd5 ih =>
    obtain ⟨pre, op, rest, rfl, rfl, htail⟩ := ih h (by simp at hlt; omega)
    refine ⟨b :: rex2 :: pre, op, rest, rfl, by simp; omega, fun hop tail => ?_⟩
    rw [List.cons_append, scanPrefixes.eq_def]
    simp only [if_neg hmax, if_neg hlegacy, if_neg hrex, List.cons_append, if_pos hd5]
    exact htail hop tail
  | case6 b i p hmax hlegacy hrex rex2 rest hd5 =>
    cases h
    exact ⟨[], b, rex2 :: rest, rfl, rfl, hstop hlegacy hrex⟩
  | case7 b i p hmax hlegacy hrex =>
    cases h
    exact ⟨[], b, [], rfl, rfl, hstop hlegacy hrex⟩

theorem scanPrefixes_keeps {P : PrefixState → Prop} (hlegacy : ∀ p b, P p → P (p.legacy mode b))
    (hrex : ∀ p b, P p → P (p.rex b)) (bytes : List Byte) (i : Nat) {p : PrefixState} (hp : P p) :
    P (scanPrefixes mode bytes i p).1 := by
  fun_induction scanPrefixes mode bytes i p with
  | case1 | case2 | case6 | case7 => exact hp
  | case3 _ _ _ _ _ _ ih => exact ih (hlegacy _ _ hp)
  | case4 _ _ _ _ _ _ _ ih => exact ih (hrex _ _ hp)
  | case5 _ _ _ _ _ _ _ _ _ ih => exact ih (hrex _ _ hp)

/-- Prefixes that are no vector prefix and do not make an instruction relative. -/
structure PrefixState.Legacy (p : PrefixState) : Prop where
  vectorType : p.vectorType = .normal
  flags : hasFlag p.prefixFlags InstFlag.pcRelative = false

theorem PrefixState.Legacy.legacy {p : PrefixState} (h : p.Legacy) (b : Byte) :
    (p.legacy mode b).Legacy := by
  refine ⟨by rw [PrefixState.legacy_vectorType, h.vectorType], ?_⟩
  simp only [PrefixState.legacy, apply_ite PrefixState.prefixFlags]
  have hlock := hasFlag_or_eq_false.2 ⟨h.flags, (by decide : hasFlag InstFlag.x86Lock InstFlag.pcRelative = false)⟩
  simp [apply_ite (hasFlag · InstFlag.pcRelative), h.flags, hlock]

theorem scanPrefixes_legacy (bytes : List Byte) :
    (scanPrefixes mode bytes 0 (.init mode)).1.Legacy :=
  scanPrefixes_keeps (fun _ b h => h.legacy b) (fun _ _ h => ⟨h.vectorType, h.flags⟩) bytes 0
    ⟨rfl, by simp [PrefixState.init, hasFlag]⟩

/-! ## Opcodes -/

/-- The code goes on like the other code up to the offset. -/
structure SameUpTo (stop : Nat) (code code' : List Byte) : Prop where
  length : stop ≤ code'.length
  bytes : ∀ k < stop, code'.getD k 0 = code.getD k 0

theorem SameUpTo.mono {stop stop' : Nat} {code code' : List Byte} (h : SameUpTo stop code code')
    (hle : stop' ≤ stop) : SameUpTo stop' code code' :=
  ⟨hle.trans h.length, fun k hk => h.bytes k (by omega)⟩

theorem SameUpTo.take {stop : Nat} {code code' : List Byte} (h : SameUpTo stop code code')
    (hlen : stop ≤ code.length) : code'.take stop = code.take stop := by
  have hlen' := h.length
  apply List.ext_getElem
  · simp [hlen, hlen']
  · intro k hk hk'
    rw [List.length_take] at hk hk'
    have hget := h.bytes k (by omega)
    rw [List.getD_eq_getElem _ _ (by omega), List.getD_eq_getElem _ _ (by omega)] at hget
    simpa using hget

variable {code code' : List Byte} {p : PrefixState} {i : Nat} {h : Head}

theorem parseLegacyOpcode_congr (hparse : parseLegacyOpcode code p i = some h)
    (hsame : SameUpTo h.next code code') : parseLegacyOpcode code' p i = some h := by
  unfold parseLegacyOpcode at hparse ⊢
  simp only at hparse ⊢
  split at hparse
  · next hop =>
    cases hparse
    rw [hsame.bytes i (by simp), if_pos hop]
  next hop =>
  split at hparse
  · cases hparse
  split at hparse
  · next hop1 =>
    cases hparse
    have hlen := hsame.length
    simp only at hlen
    rw [hsame.bytes i (by simp), hsame.bytes (i + 1) (by simp), if_neg hop, if_neg (by omega),
      if_pos hop1]
  next hop1 =>
  split at hparse
  · cases hparse
  · cases hparse
    have hlen := hsame.length
    simp only at hlen
    rw [hsame.bytes i (by simp), hsame.bytes (i + 1) (by simp), hsame.bytes (i + 2) (by simp),
      if_neg hop, if_neg (by omega), if_neg hop1, if_neg (by omega)]

theorem parseLegacyOpcode_opcode (hparse : parseLegacyOpcode code p i = some h) :
    code.getD i 0 = 0x0f ∨ h.opcodeMap = 0 ∧ h.opcode = code.getD i 0 := by
  unfold parseLegacyOpcode at hparse
  simp only at hparse
  split at hparse
  · cases hparse
    exact .inr ⟨rfl, rfl⟩
  · exact .inl (not_not.1 ‹_›)

theorem parseLegacyOpcode_spec (hparse : parseLegacyOpcode code p i = some h) :
    (i < h.next ∧ h.next ≤ i + 5) ∧ h.prefixes.prefixFlags = p.prefixFlags ∧
      (h.opcodeMap = 0 → h.prefixes.vectorType = p.vectorType) := by
  unfold parseLegacyOpcode at hparse
  simp only at hparse
  split at hparse
  · cases hparse
    exact ⟨by simp, rfl, fun _ => rfl⟩
  split at hparse
  · cases hparse
  split at hparse
  · cases hparse
    exact ⟨by simp, rfl, fun _ => rfl⟩
  split at hparse
  · cases hparse
  · cases hparse
    exact ⟨by simp, rfl, fun _ => rfl⟩

/-- The opcodes that another byte behind them makes a vector prefix. -/
def vectorOpcodes : List Byte := [0x62, 0xc4, 0xc5, 0x8f]

theorem isVectorPrefix_congr (hsame : SameUpTo (i + 2) code code') (hlen : i + 1 < code.length) :
    isVectorPrefix mode code' i = isVectorPrefix mode code i := by
  have hlen' := hsame.length
  simp only [isVectorPrefix, hsame.bytes (i + 1) (by omega), hlen, show i + 1 < code'.length by omega]

theorem isXopPrefix_congr (hsame : SameUpTo (i + 2) code code') (hlen : i + 1 < code.length) :
    isXopPrefix code' i = isXopPrefix code i := by
  have hlen' := hsame.length
  simp only [isXopPrefix, hsame.bytes (i + 1) (by omega), hlen, show i + 1 < code'.length by omega]

theorem parseOpcode_congr (hparse : parseOpcode mode code p i = some h)
    (hplain : h.opcodeMap ≠ 0 ∨ h.opcode ∉ vectorOpcodes) (hsame : SameUpTo h.next code code') :
    parseOpcode mode code' p i = some h := by
  have hlen' := hsame.length
  have hget (k : Nat) (hk : k < h.next) : code'.getD k 0 = code.getD k 0 := hsame.bytes k hk
  have hvector (hlt : i + 1 < h.next) (hlen : i + 1 < code.length) :
      isVectorPrefix mode code' i = isVectorPrefix mode code i :=
    isVectorPrefix_congr (hsame.mono hlt) hlen
  simp only [parseOpcode] at hparse
  split at hparse
  · next hop =>
    split at hparse
    · cases hparse
    · obtain ⟨map, hmap, rfl⟩ := Option.map_eq_some_iff.1 hparse
      simp only at hlen' hget hvector
      rw [← hvector (by omega) (by omega)] at hop
      simp only [parseOpcode, hget i (by omega), hget (i + 1) (by omega), hget (i + 2) (by omega),
        hget (i + 3) (by omega), hget (i + 4) (by omega), if_pos hop,
        if_neg (show ¬ code'.length ≤ i + 4 by omega), hmap]
      rfl
  next h62 =>
  split at hparse
  · next hop =>
    split at hparse
    · cases hparse
    · obtain ⟨map, hmap, rfl⟩ := Option.map_eq_some_iff.1 hparse
      simp only at hlen' hget hvector
      rw [← hvector (by omega) (by omega)] at hop h62
      simp only [parseOpcode, hget i (by omega), hget (i + 1) (by omega), hget (i + 2) (by omega),
        hget (i + 3) (by omega), if_neg h62, if_pos hop,
        if_neg (show ¬ code'.length ≤ i + 3 by omega), hmap]
      rfl
  next hc4 =>
  split at hparse
  · next hop =>
    split at hparse
    · cases hparse
    · cases hparse
      simp only at hlen' hget hvector
      rw [← hvector (by omega) (by omega)] at hop h62 hc4
      simp only [parseOpcode, hget i (by omega), hget (i + 1) (by omega), hget (i + 2) (by omega),
        if_neg h62, if_neg hc4, if_pos hop, if_neg (show ¬ code'.length ≤ i + 2 by omega)]
  next hc5 =>
  split at hparse
  · next hop =>
    split at hparse
    · cases hparse
    · obtain ⟨map, hmap, rfl⟩ := Option.map_eq_some_iff.1 hparse
      simp only at hlen' hget hvector
      rw [← hvector (by omega) (by omega)] at h62 hc4 hc5
      rw [← isXopPrefix_congr (hsame.mono (by simp)) (by omega)] at hop
      simp only [parseOpcode, hget i (by omega), hget (i + 1) (by omega), hget (i + 2) (by omega),
        hget (i + 3) (by omega), if_neg h62, if_neg hc4, if_neg hc5, if_pos hop,
        if_neg (show ¬ code'.length ≤ i + 3 by omega), hmap]
      rfl
  · have hnext := (parseLegacyOpcode_spec hparse).1.1
    have hop : code'.getD i 0 ∉ vectorOpcodes := by
      rw [hget i hnext]
      rcases parseLegacyOpcode_opcode hparse with hescape | ⟨hmap, hopcode⟩
      · rw [hescape]
        decide
      · rw [← hopcode]
        exact hplain.resolve_left (not_not.2 hmap)
    rw [parseOpcode_legacy hop]
    exact parseLegacyOpcode_congr hparse hsame

theorem vexEvexMapId_pos {selector : Byte} {map : Nat} (h : vexEvexMapId selector = some map) :
    map ≠ 0 := by
  revert map
  revert selector
  decide

theorem xopMapId_pos {selector : Byte} {map : Nat} (h : xopMapId selector = some map) : map ≠ 0 := by
  revert map
  revert selector
  decide

theorem parseOpcode_spec (hparse : parseOpcode mode code p i = some h) :
    (i < h.next ∧ h.next ≤ i + 5) ∧ h.prefixes.prefixFlags = p.prefixFlags ∧
      (h.opcodeMap = 0 → h.prefixes.vectorType = p.vectorType) := by
  simp only [parseOpcode] at hparse
  split at hparse
  · split at hparse
    · cases hparse
    · obtain ⟨map, hmap, rfl⟩ := Option.map_eq_some_iff.1 hparse
      exact ⟨by simp, rfl, fun h0 => absurd h0 (vexEvexMapId_pos hmap)⟩
  split at hparse
  · split at hparse
    · cases hparse
    · obtain ⟨map, hmap, rfl⟩ := Option.map_eq_some_iff.1 hparse
      exact ⟨by simp, rfl, fun h0 => absurd h0 (vexEvexMapId_pos hmap)⟩
  split at hparse
  · split at hparse
    · cases hparse
    · cases hparse
      exact ⟨by simp, rfl, fun h0 => by cases h0⟩
  split at hparse
  · split at hparse
    · cases hparse
    · obtain ⟨map, hmap, rfl⟩ := Option.map_eq_some_iff.1 hparse
      exact ⟨by simp, rfl, fun h0 => absurd h0 (xopMapId_pos hmap)⟩
  · exact parseLegacyOpcode_spec hparse

/-! ## The head -/

/-- What is known of every head. -/
structure Head.Parsed (h : Head) : Prop where
  pos : 0 < h.next
  bound : h.next ≤ maxInstructionBytes + 5
  legacy : h.opcodeMap = 0 → h.isLegacy = true
  flags : hasFlag h.prefixes.prefixFlags InstFlag.pcRelative = false

theorem parseHead_parsed (hparse : parseHead mode code = some h) : h.Parsed := by
  unfold parseHead at hparse
  have hscan : (scanPrefixes mode code 0 (.init mode)).1.Legacy := scanPrefixes_legacy code
  rcases scanPrefixes mode code 0 (.init mode) with ⟨p, i⟩
  simp only at hparse hscan
  split at hparse
  · cases hparse
  obtain ⟨h0, hop, rfl⟩ := Option.map_eq_some_iff.1 hparse
  obtain ⟨⟨hpos, hbound⟩, hflags, hvector⟩ := parseOpcode_spec hop
  refine ⟨by rw [Head.markRep_next]; omega, by rw [Head.markRep_next]; omega, fun hmap => ?_, ?_⟩
  · rw [Head.markRep_opcodeMap] at hmap
    rw [Head.isLegacy, Head.markRep_vectorType, hvector hmap, hscan.vectorType]
    rfl
  · rw [Head.markRep]
    split
    · refine hasFlag_or_eq_false.2 ⟨hflags ▸ hscan.flags, ?_⟩
      split
      · rfl
      split <;> rfl
    · exact hflags ▸ hscan.flags

/-- An opcode that means the same whatever follows it. -/
def Head.Plain (h : Head) : Prop := h.opcodeMap ≠ 0 ∨ h.opcode ∉ vectorOpcodes ∧ h.opcode ≠ 0xd5

instance (h : Head) : Decidable h.Plain := inferInstanceAs (Decidable (_ ∨ _))

theorem parseHead_congr (hparse : parseHead mode code = some h) (hplain : h.Plain)
    (hsame : SameUpTo h.next code code') : parseHead mode code' = some h := by
  unfold parseHead at hparse
  rcases hscan : scanPrefixes mode code 0 (.init mode) with ⟨p, i⟩
  simp only [hscan] at hparse
  split at hparse
  · cases hparse
  next hbounds =>
  rw [not_or, not_le, not_le] at hbounds
  obtain ⟨h0, hop, rfl⟩ := Option.map_eq_some_iff.1 hparse
  rw [Head.Plain, Head.markRep_opcodeMap, Head.markRep_opcode] at hplain
  rw [Head.markRep_next] at hsame
  have hnext := (parseOpcode_spec hop).1.1
  have hlen' := hsame.length
  obtain ⟨pre, b, rest, hcode, hpre, htail⟩ := scanPrefixes_split hscan (by omega)
  rw [Nat.zero_add] at hpre
  have hb : code.getD i 0 = b := by
    rw [hcode, ← hpre]
    simp
  have hd5 : b ≠ 0xd5 := by
    rintro rfl
    rw [parseOpcode_legacy (by rw [hb]; decide)] at hop
    obtain hescape | ⟨hmap, hopcode⟩ := parseLegacyOpcode_opcode hop
    · rw [hb] at hescape
      exact absurd hescape (by decide)
    · exact hplain.elim (fun h => h hmap) fun h => h.2 (hopcode.trans hb)
  have hcode' : code' = pre ++ b :: code'.drop (i + 1) := by
    have htake := (hsame.mono hnext).take (by omega)
    conv_lhs => rw [← List.take_append_drop (i + 1) code', htake, hcode]
    simp [← hpre, List.take_append, List.take_of_length_le]
  have hscan' : scanPrefixes mode code' 0 (.init mode) = (p, i) := by
    rw [hcode']
    exact htail hd5 _
  unfold parseHead
  simp only [hscan']
  rw [if_neg (by omega), parseOpcode_congr hop (hplain.imp_right And.left) hsame, Option.map_some]

/-- A relative branch is neither `endbr` nor `nop`. -/
theorem opcode_of_isRel (hrel : h.isRel = true) :
    (h.opcodeMap = 1 → h.opcode ≠ 0x1e) ∧ (h.opcodeMap = 0 → h.opcode ≠ 0x90) := by
  have hop : ∀ op, (isRelBranch op = true → op ≠ 0x90) ∧ (isNearJcc op = true → op ≠ 0x1e) := by decide
  simp only [Head.isRel, Bool.and_eq_true, Bool.or_eq_true, beq_iff_eq] at hrel
  rcases hrel.2 with ⟨hmap, hbranch⟩ | ⟨hmap, hnear⟩
  · exact ⟨by simp [hmap], fun _ => (hop _).1 hbranch⟩
  · exact ⟨fun _ => (hop _).2 hnear, by simp [hmap]⟩

end AsmKit.X86
