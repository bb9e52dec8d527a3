import AsmKit.X86.Demand

/-!
# x86 code that ends inside an instruction

Behind prefixes an instruction can always follow, and behind `0f`. In front of ModRM, and behind an
opcode byte that takes more, the rows and the limit of fifteen bytes decide.
-/

namespace AsmKit.X86

variable {mode : Mode} {code tail : List Byte} {p : PrefixState} {h : Head} {i : Nat}

/-! ## ModRM -/

/-- ModRM at `i`, and the SIB byte behind it. -/
def Modrm.ofBytes (mode : Mode) (addressWidth i : Nat) (modrm sib : Byte) : Modrm :=
  let m : Modrm := { byte := modrm, next := i + 1 }
  if addressWidth = 16 then parseModrm16 m
  else if m.rm = 4 ∧ m.mod ≠ 3 then
    let m := { m with hasSib := true, sib, next := i + 2 }
    modDisp (if m.mod = 0 ∧ m.sib &&& 7 = 5 then { m.withDisp 4 with noBase := true } else m)
  else if m.mod = 0 ∧ m.rm = 5 then
    { m.withDisp 4 with noBase := true, pcRelative := mode == .x86_64 && addressWidth == 64 }
  else modDisp m

theorem parseModrm_eq_ofBytes {addressWidth : Nat} {m : Modrm}
    (hparse : parseModrm mode addressWidth code i = some m) :
    m = Modrm.ofBytes mode addressWidth i (code.getD i 0) (code.getD (i + 1) 0) := by
  unfold parseModrm at hparse
  unfold Modrm.ofBytes
  simp only at hparse ⊢
  split at hparse
  · cases hparse
  split at hparse
  · next h16 => rw [if_pos h16, Option.some.inj hparse]
  next h16 =>
  rw [if_neg h16]
  split at hparse
  · next hsib =>
    rw [if_pos hsib]
    split at hparse
    · cases hparse
    · exact (Option.some.inj hparse).symm
  next hsib =>
  rw [if_neg hsib]
  split at hparse
  · next hbase => rw [if_pos hbase, Option.some.inj hparse]
  · next hbase => rw [if_neg hbase, Option.some.inj hparse]

theorem parseModrm_of_lt {addressWidth : Nat} (hlen : i + 1 < code.length) :
    parseModrm mode addressWidth code i =
      some (Modrm.ofBytes mode addressWidth i (code.getD i 0) (code.getD (i + 1) 0)) := by
  unfold parseModrm Modrm.ofBytes
  simp only [show ¬ code.length ≤ i by omega, show ¬ code.length ≤ i + 1 by omega, if_false]
  split_ifs <;> rfl

theorem lt_ofBytes_next (mode : Mode) (addressWidth i : Nat) (modrm sib : Byte) :
    i < (Modrm.ofBytes mode addressWidth i modrm sib).next := by
  have hparse := @parseModrm_of_lt mode (List.replicate i 0 ++ [modrm, sib]) i addressWidth (by simp)
  simpa using parseModrm_next hparse

/-- Where nothing lies behind ModRM there is no SIB byte. -/
theorem ofBytes_congr {addressWidth : Nat} {modrm sib : Byte}
    (hnext : (Modrm.ofBytes mode addressWidth i modrm sib).next = i + 1) (sib' : Byte) :
    Modrm.ofBytes mode addressWidth i modrm sib' = Modrm.ofBytes mode addressWidth i modrm sib := by
  unfold Modrm.ofBytes at hnext ⊢
  simp only at hnext ⊢
  split
  · rfl
  next h16 =>
  split
  · next hsib =>
    have hle : i + 2 ≤ i + 1 := by
      rw [if_neg h16, if_pos hsib] at hnext
      rw [← hnext]
      refine Nat.le_trans ?_ (le_modDisp_next _)
      split
      · exact le_withDisp_next { byte := modrm, hasSib := true, sib, next := i + 2 } 4
      · exact Nat.le_refl _
    omega
  · rfl

variable (engine : Engine) (tables : Tables)

/-- ModRM behind the head, with the SIB byte. -/
def Head.modrm (h : Head) (modrm sib : Byte) : Modrm :=
  Modrm.ofBytes engine.config.mode (decodeAddressWidth engine h.prefixes.address16) h.next modrm sib

/-- What the row is looked up by, where `suffix` lies behind the displacement. -/
def Head.suffixQuery (h : Head) (m : Modrm) (suffix : Byte) : Query :=
  { h.modrmQuery engine [] m with opcode := if h.is3DNow then suffix else h.opcode }

/-- The byte stands at the offset, as far as the code goes. -/
def Stands (code : List Byte) (k : Nat) (b : Byte) : Prop := k < code.length → code.getD k 0 = b

/-- The row of ModRM, the SIB byte and the opcode of 3DNow! is taken. -/
def RowTakes (h : Head) (modrm sib suffix : Byte) : Prop :=
  let m := h.modrm engine modrm sib
  ∃ record, lookupTdRecord tables engine (h.suffixQuery engine m suffix) = .ok record ∧
    m.next + h.modrmImm m record ≤ maxInstructionBytes

/-- The row is taken and the code does not contradict its bytes. -/
structure TakesModrm (code : List Byte) (h : Head) (modrm sib suffix : Byte) : Prop where
  modrm_stands : Stands code h.next modrm
  sib_stands : Stands code (h.next + 1) sib
  suffix_stands : Stands code (h.modrm engine modrm sib).next suffix
  taken : RowTakes engine tables h modrm sib suffix

/-- An instruction with the head can follow: `endbr`, one without ModRM that is taken, or one with. -/
def HeadOpen (code : List Byte) (h : Head) : Prop :=
  if isEndbr code h then h.next < maxInstructionBytes
  else (awaitsEndbr code h ∧ h.next < maxInstructionBytes) ∨
    match plainDemand engine tables h with
    | some d => ∃ n, d = .size n
    | none => ∃ modrm sib suffix, TakesModrm engine tables code h modrm sib suffix

variable {engine tables} {modrm sib suffix : Byte}

theorem modrmQuery_eq (m : Modrm) :
    h.modrmQuery engine code m = h.suffixQuery engine m (code.getD m.next 0) := rfl

theorem atMost_of_le {limit n : Nat} (hle : n ≤ limit) : Demand.atMost limit n = .size n :=
  if_neg (Nat.not_lt.2 hle)

theorem modrmDemand_of_takes (hlen : (h.modrm engine modrm sib).next < code.length)
    (hmodrm : code.getD h.next 0 = modrm)
    (hsib : h.modrm engine modrm (code.getD (h.next + 1) 0) = h.modrm engine modrm sib)
    (hsuffix : code.getD (h.modrm engine modrm sib).next 0 = suffix)
    (htaken : RowTakes engine tables h modrm sib suffix) :
    ∃ n, modrmDemand engine tables code h = .size n := by
  obtain ⟨record, hlookup, hle⟩ := htaken
  have hlt : h.next < (h.modrm engine modrm sib).next := lt_ofBytes_next _ _ _ _ _
  have hparse : parseModrm engine.config.mode (decodeAddressWidth engine h.prefixes.address16) code
      h.next = some (h.modrm engine modrm sib) := by
    rw [parseModrm_of_lt (by omega), hmodrm]
    exact congrArg some hsib
  refine ⟨(h.modrm engine modrm sib).next + h.modrmImm (h.modrm engine modrm sib) record, ?_⟩
  unfold modrmDemand
  rw [hparse]
  simp only [modrmQuery_eq, hsuffix, hlookup]
  rw [if_neg (fun h3DNow => by omega), atMost_of_le hle]

/-- Bytes that put ModRM, the SIB byte and the suffix in their places. -/
def fill (code : List Byte) (h : Head) (m : Modrm) (modrm sib suffix : Byte) : List Byte :=
  (List.range (m.next + 1)).map fun k =>
    if code.length + k = m.next then suffix else if code.length + k = h.next then modrm else sib

theorem getD_fill {m : Modrm} {k : Nat} {b : Byte} (hk : k ≤ m.next) (hstands : Stands code k b)
    (hb : b = if k = m.next then suffix else if k = h.next then modrm else sib) :
    (code ++ fill code h m modrm sib suffix).getD k 0 = b := by
  rcases Nat.lt_or_ge k code.length with hlt | hge
  · rw [List.getD_append _ _ _ _ hlt, hstands hlt]
  · obtain ⟨j, rfl⟩ := Nat.exists_eq_add_of_le hge
    rw [List.getD_append_right _ _ _ _ hge, Nat.add_sub_cancel_left, fill,
      List.getD_eq_getElem _ _ (by simp; omega), List.getElem_map, List.getElem_range, hb]

theorem TakesModrm.exists_size (htakes : TakesModrm engine tables code h modrm sib suffix) :
    ∃ tail n, modrmDemand engine tables (code ++ tail) h = .size n ∧ tail ≠ [] := by
  have hlt : h.next < (h.modrm engine modrm sib).next := lt_ofBytes_next _ _ _ _ _
  obtain ⟨n, hn⟩ : ∃ n, modrmDemand engine tables
      (code ++ fill code h (h.modrm engine modrm sib) modrm sib suffix) h = .size n := by
    refine modrmDemand_of_takes (by simp [fill]; omega) ?_ ?_ ?_ htakes.taken
    · exact getD_fill (by omega) htakes.modrm_stands (by rw [if_neg (by omega), if_pos rfl])
    · by_cases hnext : (h.modrm engine modrm sib).next = h.next + 1
      · exact ofBytes_congr hnext _
      · rw [getD_fill (b := sib) (by omega) htakes.sib_stands
          (by rw [if_neg (by omega), if_neg (by omega)])]
    · exact getD_fill (Nat.le_refl _) htakes.suffix_stands (by rw [if_pos rfl])
  exact ⟨_, n, hn, by simp [fill]⟩

theorem takesModrm_of_size {n : Nat} (hsize : modrmDemand engine tables (code ++ tail) h = .size n) :
    ∃ modrm sib suffix, TakesModrm engine tables code h modrm sib suffix := by
  have hstands (k : Nat) : Stands code k ((code ++ tail).getD k 0) :=
    fun hk => (List.getD_append _ _ _ _ hk).symm
  unfold modrmDemand at hsize
  split at hsize
  · cases hsize
  next m hparse =>
  obtain rfl : m = h.modrm engine _ _ := parseModrm_eq_ofBytes hparse
  split at hsize
  · cases hsize
  split at hsize
  · cases hsize
  next record hlookup =>
  refine ⟨_, _, _, hstands _, hstands _, hstands _, record, hlookup, ?_⟩
  unfold Demand.atMost at hsize
  split at hsize
  · cases hsize
  · exact Nat.le_of_not_lt ‹_›

/-! ## The head -/

/-- The head of `endbr`. -/
def isEndbrHead (h : Head) : Bool :=
  h.isLegacy && h.prefixes.prefixF3 && h.opcodeMap == 1 && h.opcode == 0x1e

theorem isEndbr_iff : isEndbr code h = true ↔ isEndbrHead h = true ∧ h.next < code.length ∧
    (code.getD h.next 0 = 0xfa ∨ code.getD h.next 0 = 0xfb) := by
  simp only [isEndbr, isEndbrHead, Bool.and_eq_true, Bool.or_eq_true, beq_iff_eq, decide_eq_true_eq,
    and_assoc]

theorem awaitsEndbr_iff : awaitsEndbr code h = true ↔ isEndbrHead h = true ∧ code.length ≤ h.next := by
  simp only [awaitsEndbr, isEndbrHead, Bool.and_eq_true, decide_eq_true_eq]

theorem awaitsEndbr_of_lt (hlt : h.next < code.length) : awaitsEndbr code h = false := by
  rw [← Bool.not_eq_true, awaitsEndbr_iff]
  omega

theorem isEndbr_append (hbyte : isEndbr code h = true) (tail : List Byte) :
    isEndbr (code ++ tail) h = true := by
  rw [isEndbr_iff] at hbyte ⊢
  obtain ⟨hhead, hlt, hbyte⟩ := hbyte
  rw [List.getD_append _ _ _ _ hlt, List.length_append]
  exact ⟨hhead, by omega, hbyte⟩

theorem awaitsEndbr_of_append (hother : ¬ isEndbr code h = true)
    (hmore : isEndbr (code ++ tail) h = true) : awaitsEndbr code h = true := by
  rw [isEndbr_iff] at hother hmore
  rw [awaitsEndbr_iff]
  obtain ⟨hhead, -, hbyte⟩ := hmore
  refine ⟨hhead, Nat.le_of_not_lt fun hlt => hother ⟨hhead, hlt, ?_⟩⟩
  rwa [List.getD_append _ _ _ _ hlt] at hbyte

theorem isEndbr_of_awaits (hawaits : awaitsEndbr code h = true) (hnext : h.next ≤ code.length) :
    isEndbr (code ++ [0xfa]) h = true := by
  rw [awaitsEndbr_iff] at hawaits
  have hlen : h.next = code.length := Nat.le_antisymm hnext hawaits.2
  rw [isEndbr_iff]
  simp [hawaits.1, hlen]

theorem not_isEndbr_append_zero (hother : ¬ isEndbr code h = true) :
    ¬ isEndbr (code ++ [0]) h = true := by
  rw [isEndbr_iff] at hother ⊢
  rintro ⟨hhead, -, hbyte⟩
  rcases Nat.lt_or_ge h.next code.length with hlt | hge
  · rw [List.getD_append _ _ _ _ hlt] at hbyte
    exact hother ⟨hhead, hlt, hbyte⟩
  · rw [List.getD_append_right _ _ _ _ hge] at hbyte
    cases hsub : h.next - code.length <;> simp [hsub] at hbyte

theorem headDemand_of_size {n : Nat} (hsize : headDemand engine tables (code ++ tail) h = .size n) :
    HeadOpen engine tables code h := by
  have hendbr (hbyte : isEndbr (code ++ tail) h = true) : h.next < maxInstructionBytes := by
    rw [headDemand, if_pos hbyte, Demand.atMost] at hsize
    split at hsize
    · cases hsize
    · omega
  unfold HeadOpen
  split
  · next hbyte => exact hendbr (isEndbr_append hbyte tail)
  next hother =>
  by_cases hmore : isEndbr (code ++ tail) h = true
  · exact .inl ⟨awaitsEndbr_of_append hother hmore, hendbr hmore⟩
  · right
    rw [headDemand, if_neg hmore] at hsize
    cases hplain : plainDemand engine tables h with
    | some d =>
      rw [hplain] at hsize
      exact ⟨n, hsize⟩
    | none =>
      rw [hplain] at hsize
      exact takesModrm_of_size hsize

/-- What follows settles the demand: the head is not one that awaits `endbr`. -/
theorem HeadOpen.exists_size (hopen : HeadOpen engine tables code h) (hnext : h.next ≤ code.length) :
    ∃ tail n, headDemand engine tables (code ++ tail) h = .size n ∧
      awaitsEndbr (code ++ tail) h = false := by
  have hendbr {tail : List Byte} (hbyte : isEndbr (code ++ tail) h = true)
      (hlt : h.next < maxInstructionBytes) :
      headDemand engine tables (code ++ tail) h = .size (h.next + 1) := by
    rw [headDemand, if_pos hbyte, atMost_of_le hlt]
  have hmore (b : Byte) : awaitsEndbr (code ++ [b]) h = false :=
    awaitsEndbr_of_lt (by simp; omega)
  unfold HeadOpen at hopen
  split at hopen
  · next hbyte => exact ⟨[0], _, hendbr (isEndbr_append hbyte [0]) hopen, hmore 0⟩
  next hother =>
  rcases hopen with ⟨hawaits, hlt⟩ | hopen
  · exact ⟨[0xfa], _, hendbr (isEndbr_of_awaits hawaits hnext) hlt, hmore 0xfa⟩
  cases hplain : plainDemand engine tables h with
  | some d =>
    rw [hplain] at hopen
    obtain ⟨n, rfl⟩ := hopen
    refine ⟨[0], n, ?_, hmore 0⟩
    rw [headDemand, if_neg (not_isEndbr_append_zero hother), hplain]
    rfl
  | none =>
    rw [hplain] at hopen
    obtain ⟨modrm, sib, suffix, htakes⟩ := hopen
    obtain ⟨tail, n, hn, htail⟩ := htakes.exists_size
    have hlate : awaitsEndbr (code ++ tail) h = false := by
      refine awaitsEndbr_of_lt ?_
      have hpos := List.length_pos_of_ne_nil htail
      rw [List.length_append]
      omega
    by_cases hbyte : isEndbr (code ++ tail) h = true
    · obtain ⟨record, -, hle⟩ := htakes.taken
      have hlt : h.next < (h.modrm engine modrm sib).next := lt_ofBytes_next _ _ _ _ _
      exact ⟨tail, _, hendbr hbyte (by omega), hlate⟩
    · refine ⟨tail, n, ?_, hlate⟩
      rw [headDemand, if_neg hbyte, hplain]
      exact hn

variable (engine tables) in
/-- The code has a head, and an instruction with it can follow. -/
def Opens (code : List Byte) : Prop :=
  ∃ h, parseHead engine.config.mode code = some h ∧ HeadOpen engine tables code h

theorem parseLegacyOpcode_bound (hlt : i < code.length) (hparse : parseLegacyOpcode code p i = some h) :
    h.next ≤ code.length ∧ h.next = i +
      if code.getD i 0 = 0x0f then
        if code.getD (i + 1) 0 ≠ 0x38 ∧ code.getD (i + 1) 0 ≠ 0x3a then 2 else 3
      else 1 := by
  unfold parseLegacyOpcode at hparse
  simp only at hparse
  split at hparse
  · next hop =>
    cases hparse
    exact ⟨hlt, by rw [if_neg hop]⟩
  next hop =>
  rw [if_pos (not_not.1 hop)]
  split at hparse
  · cases hparse
  split at hparse
  · next hmap =>
    cases hparse
    exact ⟨by simp only; omega, by rw [if_pos hmap]⟩
  next hmap =>
  split at hparse
  · cases hparse
  · cases hparse
    exact ⟨by simp only; omega, by rw [if_neg hmap]⟩

theorem parseOpcode_bound (hlt : i < code.length) (hparse : parseOpcode mode code p i = some h) :
    h.next ≤ code.length ∧ (i + 1 < code.length → h.next = i + opcodeSize mode code i) := by
  unfold parseOpcode at hparse
  simp only at hparse
  have hdecided (hlen : i + 1 < code.length) :
      ¬ (AwaitsNext mode (code.getD i 0) ∧ code.length ≤ i + 1) := by omega
  split at hparse
  · next h62 =>
    split at hparse
    · cases hparse
    obtain ⟨map, hmap, rfl⟩ := Option.map_eq_some_iff.1 hparse
    refine ⟨by simp only; omega, fun hlen => ?_⟩
    simp only [opcodeSize, if_neg (hdecided hlen), if_pos h62, hmap, reduceCtorEq, if_false]
  next h62 =>
  split at hparse
  · next hc4 =>
    split at hparse
    · cases hparse
    obtain ⟨map, hmap, rfl⟩ := Option.map_eq_some_iff.1 hparse
    refine ⟨by simp only; omega, fun hlen => ?_⟩
    simp only [opcodeSize, if_neg (hdecided hlen), if_neg h62, if_pos hc4, hmap, reduceCtorEq, if_false]
  next hc4 =>
  split at hparse
  · next hc5 =>
    split at hparse
    · cases hparse
    cases hparse
    refine ⟨by simp only; omega, fun hlen => ?_⟩
    simp only [opcodeSize, if_neg (hdecided hlen), if_neg h62, if_neg hc4, if_pos hc5]
  next hc5 =>
  split at hparse
  · next h8f =>
    split at hparse
    · cases hparse
    obtain ⟨map, hmap, rfl⟩ := Option.map_eq_some_iff.1 hparse
    refine ⟨by simp only; omega, fun hlen => ?_⟩
    simp only [opcodeSize, if_neg (hdecided hlen), if_neg h62, if_neg hc4, if_neg hc5, if_pos h8f, hmap,
      reduceCtorEq, if_false]
  · next h8f =>
    obtain ⟨hle, hnext⟩ := parseLegacyOpcode_bound hlt hparse
    refine ⟨hle, fun hlen => ?_⟩
    simp only [opcodeSize, if_neg (hdecided hlen), if_neg h62, if_neg hc4, if_neg hc5, if_neg h8f]
    exact hnext

theorem parseHead_bound (hparse : parseHead mode code = some h) :
    h.next ≤ code.length ∧
      ((scanPrefixes mode code 0 (.init mode)).2 + 1 < code.length → HeadWhole mode code) := by
  unfold parseHead at hparse
  unfold HeadWhole
  rcases hscan : scanPrefixes mode code 0 (.init mode) with ⟨p, i⟩
  simp only [hscan] at hparse ⊢
  split at hparse
  · cases hparse
  obtain ⟨h0, hop, rfl⟩ := Option.map_eq_some_iff.1 hparse
  obtain ⟨hle, hsize⟩ := parseOpcode_bound (by omega) hop
  rw [Head.markRep_next]
  exact ⟨hle, fun hlen => .inr (hsize hlen ▸ hle)⟩

theorem headDemand_of_demand {n : Nat} (hparse : parseHead engine.config.mode code = some h)
    (hsize : demand engine tables code = .size n) : headDemand engine tables code h = .size n := by
  unfold demand at hsize
  simp only [hparse] at hsize
  split at hsize
  · exact hsize
  · unfold Demand.unlessMet at hsize
    split at hsize
    · exact hsize
    · cases hsize

theorem exists_head_of_size {n : Nat} (hsize : demand engine tables code = .size n) :
    ∃ h, parseHead engine.config.mode code = some h := by
  unfold demand at hsize
  cases hparse : parseHead engine.config.mode code with
  | some h => exact ⟨h, rfl⟩
  | none =>
    simp only [hparse] at hsize
    split at hsize <;> cases hsize

theorem opens_of_size (hwhole : HeadWhole engine.config.mode code) {n : Nat}
    (hsize : demand engine tables (code ++ tail) = .size n) : Opens engine tables code := by
  obtain ⟨h, hparse⟩ := exists_head_of_size hsize
  exact ⟨h, by rw [← hwhole.parseHead tail, hparse],
    headDemand_of_size (headDemand_of_demand hparse hsize)⟩

theorem Opens.exists_size (hwhole : HeadWhole engine.config.mode code)
    (hopens : Opens engine tables code) : ∃ tail n, ∀ more, demand engine tables (code ++ tail ++ more) = .size n := by
  obtain ⟨h, hparse, hopen⟩ := hopens
  obtain ⟨tail, n, hsize, hlate⟩ := hopen.exists_size (parseHead_bound hparse).1
  refine ⟨tail, n, fun more => ?_⟩
  have hwhole' := (hwhole.append tail).append more
  have hlate' : ¬ awaitsEndbr (code ++ tail ++ more) h = true := by
    rw [awaitsEndbr_append hlate]
    exact Bool.false_ne_true
  unfold demand
  rw [(hwhole.append tail).parseHead more, hwhole.parseHead tail, hparse]
  simp only [if_pos (And.intro hwhole' hlate')]
  rw [headDemand_append hlate (by simp [hsize]), hsize]

/-! ## Prefixes and opcode bytes -/

theorem scanPrefixes_le (bytes : List Byte) (i : Nat) (p : PrefixState) :
    (scanPrefixes mode bytes i p).2 ≤ i + bytes.length := by
  fun_induction scanPrefixes mode bytes i p with
  | case1 | case2 | case6 | case7 => exact Nat.le_add_right _ _
  | case3 _ _ _ _ _ _ ih =>
    rw [List.length_cons]
    omega
  | case4 _ _ _ _ _ _ _ ih =>
    rw [List.length_cons]
    omega
  | case5 _ _ _ _ _ _ _ _ _ ih =>
    simp only [List.length_cons]
    omega

theorem scanPrefixes_through {bytes : List Byte} {p : PrefixState}
    (hend : (scanPrefixes mode bytes i p).2 = i + bytes.length) (tail : List Byte) :
    scanPrefixes mode (bytes ++ tail) i p =
      scanPrefixes mode tail (i + bytes.length) (scanPrefixes mode bytes i p).1 := by
  fun_induction scanPrefixes mode bytes i p with
  | case1 i p => rfl
  | case2 b rest i p hmax => simp at hend
  | case3 b rest i p hmax hlegacy ih =>
    rw [List.length_cons] at hend ⊢
    rw [List.cons_append, scanPrefixes.eq_def]
    simp only [if_neg hmax, if_pos hlegacy]
    rw [ih (by omega), show i + (rest.length + 1) = i + 1 + rest.length by omega]
  | case4 b rest i p hmax hlegacy hrex ih =>
    rw [List.length_cons] at hend ⊢
    rw [List.cons_append, scanPrefixes.eq_def]
    simp only [if_neg hmax, if_neg hlegacy, if_pos hrex]
    rw [ih (by omega), show i + (rest.length + 1) = i + 1 + rest.length by omega]
  | case5 b i p hmax hlegacy hrex rex2 rest hd5 ih =>
    simp only [List.length_cons] at hend ⊢
    rw [List.cons_append, scanPrefixes.eq_def]
    simp only [if_neg hmax, if_neg hlegacy, if_neg hrex, List.cons_append, if_pos hd5]
    rw [ih (by omega), show i + (rest.length + 1 + 1) = i + 2 + rest.length by omega]
  | case6 b i p hmax hlegacy hrex rex2 rest hd5 => simp at hend
  | case7 b i p hmax hlegacy hrex => simp at hend

/-- `d5` at the end of the code takes the byte behind it. -/
theorem scanPrefixes_rex2 {bytes : List Byte} {p : PrefixState} (hmode : mode = .x86_64)
    (hlast : (scanPrefixes mode bytes i p).2 + 1 = i + bytes.length)
    (hlt : (scanPrefixes mode bytes i p).2 < maxInstructionBytes)
    (hd5 : bytes.getD ((scanPrefixes mode bytes i p).2 - i) 0 = 0xd5) (rex2 : Byte) (tail : List Byte) :
    scanPrefixes mode (bytes ++ rex2 :: tail) i p =
      scanPrefixes mode tail ((scanPrefixes mode bytes i p).2 + 2)
        ((scanPrefixes mode bytes i p).1.rex rex2) := by
  have hsub {b : Byte} {rest : List Byte} {i j : Nat} (hij : i + 1 ≤ j)
      (hbyte : (b :: rest).getD (j - i) 0 = 0xd5) : rest.getD (j - (i + 1)) 0 = 0xd5 := by
    rwa [show j - i = (j - (i + 1)) + 1 by omega, List.getD_cons_succ] at hbyte
  fun_induction scanPrefixes mode bytes i p with
  | case1 i p => simp at hlast
  | case2 b rest i p hmax => exact absurd hlt (Nat.not_lt.2 hmax)
  | case3 b rest i p hmax hlegacy ih =>
    rw [List.length_cons] at hlast
    rw [List.cons_append, scanPrefixes.eq_def]
    simp only [if_neg hmax, if_pos hlegacy]
    exact ih (by omega) hlt (hsub (le_scanPrefixes _ _ _) hd5)
  | case4 b rest i p hmax hlegacy hrex ih =>
    rw [List.length_cons] at hlast
    rw [List.cons_append, scanPrefixes.eq_def]
    simp only [if_neg hmax, if_neg hlegacy, if_pos hrex]
    exact ih (by omega) hlt (hsub (le_scanPrefixes _ _ _) hd5)
  | case5 b i p hmax hlegacy hrex first rest hfirst ih =>
    simp only [List.length_cons] at hlast
    have hle := @le_scanPrefixes mode rest (i + 2) (p.rex first)
    rw [List.cons_append, scanPrefixes.eq_def]
    simp only [if_neg hmax, if_neg hlegacy, if_neg hrex, List.cons_append, if_pos hfirst]
    exact ih (by omega) hlt (hsub hle (hsub (by omega) hd5))
  | case6 b i p hmax hlegacy hrex first rest hfirst =>
    simp only [List.length_cons] at hlast
    omega
  | case7 b i p hmax hlegacy hrex =>
    obtain rfl : b = 0xd5 := by simpa using hd5
    subst hmode
    rw [List.singleton_append, scanPrefixes.eq_def]
    simp only [if_neg hmax, if_neg hlegacy, if_neg hrex, and_self, if_true]

variable (mode) in
/-- Where the opcode begins. -/
def opcodeStart (code : List Byte) : Nat := (scanPrefixes mode code 0 (.init mode)).2

variable (engine tables) in
/-- Code whose demand is not known yet begins an instruction. -/
def BeginsInst (code : List Byte) : Prop :=
  let mode := engine.config.mode
  let i := opcodeStart mode code
  if code.length ≤ i ∨ (code.length = i + 1 ∧ code.getD i 0 = 0x0f) then True
  else if mode = .x86_64 ∧ code.length = i + 1 ∧ code.getD i 0 = 0xd5 then i + 2 < maxInstructionBytes
  else if HeadWhole mode code then Opens engine tables code
  else ∃ b1 b2 b3 b4 : Byte, Opens engine tables (code ++ [b1, b2, b3, b4])

/-- The size of a relative branch is known, and no limit is put on it. -/
theorem demand_of_isRel (hparse : parseHead engine.config.mode code = some h)
    (hwhole : HeadWhole engine.config.mode code) (hrel : h.isRel = true) :
    demand engine tables code = .size (h.next + relBranchImmSize engine.config.mode h) := by
  obtain ⟨hnotEndbr, hnotNop⟩ := opcode_of_isRel hrel
  have hhead : isEndbrHead h = false := by
    simp only [isEndbrHead, Bool.and_eq_false_iff, beq_eq_false_iff_ne]
    tauto
  have hnop : isNop h = false := by
    simp only [isNop, Bool.and_eq_false_iff, beq_eq_false_iff_ne]
    tauto
  have hendbr : ¬ isEndbr code h = true := by
    rw [isEndbr_iff, hhead]
    simp
  have hawaits : ¬ awaitsEndbr code h = true := by
    rw [awaitsEndbr_iff, hhead]
    simp
  unfold demand
  simp only [hparse, if_pos (And.intro hwhole hawaits), headDemand, if_neg hendbr, plainDemand, hnop,
    hrel, Bool.false_eq_true, if_false, if_true, Option.getD_some]

theorem exists_size_of_isRel
    (hscan : scanPrefixes engine.config.mode code 0 (.init engine.config.mode) = (p, i))
    (hlt : i < maxInstructionBytes) (hlen : i + 1 < code.length) (hop : code.getD i 0 ∉ vectorOpcodes)
    {opcodeMap next : Nat} {opcode : Byte}
    (hparse : parseLegacyOpcode code p i = some ⟨p, opcodeMap, opcode, next⟩)
    (hrel : (opcodeMap = 0 ∧ isRelBranch opcode) ∨ (opcodeMap = 1 ∧ isNearJcc opcode)) :
    ∃ n, demand engine tables code = .size n := by
  have hhead : parseHead engine.config.mode code =
      some (Head.markRep ⟨p, opcodeMap, opcode, next⟩) := by
    unfold parseHead
    simp only [hscan]
    rw [if_neg (by omega), parseOpcode_legacy hop, hparse]
    rfl
  have hlegacy : p.vectorType = .normal := by
    have h := @scanPrefixes_legacy engine.config.mode code
    rw [hscan] at h
    exact h.vectorType
  refine ⟨_, demand_of_isRel hhead ((parseHead_bound hhead).2 (by rw [hscan]; exact hlen)) ?_⟩
  simp only [Head.isRel, Head.isLegacy, Head.markRep_vectorType, Head.markRep_opcodeMap,
    Head.markRep_opcode, hlegacy, Bool.and_eq_true, Bool.or_eq_true, beq_iff_eq]
  exact ⟨trivial, hrel⟩

theorem exists_size_of_jmp
    (hscan : scanPrefixes engine.config.mode code 0 (.init engine.config.mode) = (p, i))
    (hlt : i < maxInstructionBytes) (hlen : i + 1 < code.length) (hbyte : code.getD i 0 = 0xe9) :
    ∃ n, demand engine tables code = .size n := by
  have hparse : parseLegacyOpcode code p i = some ⟨p, 0, 0xe9, i + 1⟩ := by
    rw [parseLegacyOpcode, hbyte]
    exact if_pos (by decide)
  exact exists_size_of_isRel hscan hlt hlen (by rw [hbyte]; decide) hparse (.inl ⟨rfl, by decide⟩)

theorem opcodeStart_le (mode : Mode) (code : List Byte) : opcodeStart mode code ≤ code.length := by
  have hle := @scanPrefixes_le mode code 0 (.init mode)
  rwa [Nat.zero_add] at hle

theorem scan_eq (mode : Mode) (code : List Byte) :
    scanPrefixes mode code 0 (.init mode) =
      ((scanPrefixes mode code 0 (.init mode)).1, opcodeStart mode code) := rfl

/-- A jump can follow prefixes. -/
theorem exists_size_of_prefixes (hend : opcodeStart engine.config.mode code = code.length)
    (hlt : opcodeStart engine.config.mode code < maxInstructionBytes) :
    ∃ tail n, demand engine tables (code ++ tail) = .size n := by
  have hscan := scanPrefixes_through (hend.trans (Nat.zero_add _).symm) [0xe9, 0]
  rw [Nat.zero_add, scanPrefixes_stop (by cases engine.config.mode <;> decide) (by decide)] at hscan
  exact ⟨_, exists_size_of_jmp hscan (hend ▸ hlt) (by simp) (by simp)⟩

theorem scanPrefixes_append_tail (hlen : opcodeStart mode code < code.length)
    (hrex2 : ¬ (mode = .x86_64 ∧ code.length = opcodeStart mode code + 1 ∧
      code.getD (opcodeStart mode code) 0 = 0xd5)) (tail : List Byte) :
    scanPrefixes mode (code ++ tail) 0 (.init mode) = scanPrefixes mode code 0 (.init mode) := by
  refine scanPrefixes_settled ⟨fun _ => ?_, fun hmode _ hbyte => ?_⟩ tail
  · rw [Nat.zero_add]
    exact hlen
  · rw [Nat.zero_add]
    refine Nat.lt_of_le_of_ne hlen fun hlast => hrex2 ⟨hmode, hlast.symm, hbyte⟩

/-- A conditional jump can follow `0f`. -/
theorem exists_size_of_escape (hend : code.length = opcodeStart engine.config.mode code + 1)
    (hop : code.getD (opcodeStart engine.config.mode code) 0 = 0x0f)
    (hlt : opcodeStart engine.config.mode code < maxInstructionBytes) :
    ∃ tail n, demand engine tables (code ++ tail) = .size n := by
  have hlen : opcodeStart engine.config.mode code < code.length := by omega
  have hscan := scanPrefixes_append_tail hlen (by rw [hop]; simp) [0x80]
  have hbyte : (code ++ [0x80]).getD (opcodeStart engine.config.mode code) 0 = 0x0f := by
    rw [List.getD_append _ _ _ _ hlen, hop]
  have hnext : (code ++ [0x80]).getD (opcodeStart engine.config.mode code + 1) 0 = 0x80 := by
    rw [List.getD_append_right _ _ _ _ (by omega), hend, Nat.sub_self]
    rfl
  have hparse (p : PrefixState) :
      parseLegacyOpcode (code ++ [0x80]) p (opcodeStart engine.config.mode code) =
        some ⟨p, 1, 0x80, opcodeStart engine.config.mode code + 2⟩ := by
    simp only [parseLegacyOpcode, hbyte, hnext]
    rw [if_neg (by decide), if_neg (by simp; omega), if_pos (by decide)]
  exact ⟨_, exists_size_of_isRel (hscan.trans (scan_eq _ _)) hlt (by simp; omega)
    (by rw [hbyte]; decide) (hparse _) (.inr ⟨rfl, by decide⟩)⟩

theorem opcodeStart_lt_of_parseHead (hparse : parseHead mode code = some h) :
    opcodeStart mode code < maxInstructionBytes := by
  unfold parseHead at hparse
  rw [scan_eq] at hparse
  simp only at hparse
  split at hparse
  · cases hparse
  · omega

/-- Behind `d5` the payload and a jump can follow, within the limit of the prefixes. -/
theorem exists_size_of_rex2_iff (hmode : engine.config.mode = .x86_64)
    (hend : code.length = opcodeStart engine.config.mode code + 1)
    (hop : code.getD (opcodeStart engine.config.mode code) 0 = 0xd5)
    (hlt : opcodeStart engine.config.mode code < maxInstructionBytes)
    (hunknown : demand engine tables code = .unknown) :
    (∃ tail n, demand engine tables (code ++ tail) = .size n) ↔
      opcodeStart engine.config.mode code + 2 < maxInstructionBytes := by
  have hscan (rex2 : Byte) (tail : List Byte) :
      scanPrefixes engine.config.mode (code ++ rex2 :: tail) 0 (.init engine.config.mode) =
        scanPrefixes engine.config.mode tail (opcodeStart engine.config.mode code + 2)
          ((scanPrefixes engine.config.mode code 0 (.init engine.config.mode)).1.rex rex2) :=
    scanPrefixes_rex2 hmode (hend.symm.trans (Nat.zero_add _).symm) hlt hop rex2 tail
  constructor
  · rintro ⟨tail, n, hn⟩
    cases tail with
    | nil =>
      rw [List.append_nil, hunknown] at hn
      cases hn
    | cons rex2 tail =>
      obtain ⟨h, hparse⟩ := exists_head_of_size hn
      refine Nat.lt_of_le_of_lt ?_ (opcodeStart_lt_of_parseHead hparse)
      have hle := @le_scanPrefixes engine.config.mode tail
        (opcodeStart engine.config.mode code + 2)
        ((scanPrefixes engine.config.mode code 0 (.init engine.config.mode)).1.rex rex2)
      rwa [← hscan] at hle
  · intro hroom
    have hjump := hscan 0 [0xe9, 0]
    rw [scanPrefixes_stop (by cases engine.config.mode <;> decide) (by decide)] at hjump
    have hbyte : (code ++ [0, 0xe9, 0]).getD (opcodeStart engine.config.mode code + 2) 0 = 0xe9 := by
      rw [List.getD_append_right _ _ _ _ (by omega), hend]
      simp
    exact ⟨_, exists_size_of_jmp hjump hroom (by simp; omega) hbyte⟩

theorem opcodeSize_le (mode : Mode) (code : List Byte) (i : Nat) : opcodeSize mode code i ≤ 5 := by
  unfold opcodeSize
  simp only
  split_ifs <;> omega

theorem headWhole_append_four (hlen : opcodeStart mode code < code.length)
    (hrex2 : ¬ (mode = .x86_64 ∧ code.length = opcodeStart mode code + 1 ∧
      code.getD (opcodeStart mode code) 0 = 0xd5)) (b1 b2 b3 b4 : Byte) :
    HeadWhole mode (code ++ [b1, b2, b3, b4]) := by
  unfold HeadWhole
  rw [scanPrefixes_append_tail hlen hrex2]
  right
  have hle := opcodeSize_le mode (code ++ [b1, b2, b3, b4]) (opcodeStart mode code)
  unfold opcodeStart at hle hlen
  simp only [List.length_append, List.length_cons, List.length_nil]
  omega

theorem opcodeStart_lt_of_unknown (hunknown : demand engine tables code = .unknown) :
    opcodeStart engine.config.mode code < maxInstructionBytes := by
  by_contra hmax
  have hle : maxInstructionBytes ≤ opcodeStart engine.config.mode code := Nat.le_of_not_lt hmax
  have hnone : parseHead engine.config.mode code = none := by
    unfold parseHead
    rw [scan_eq]
    exact if_pos (.inr hle)
  unfold demand at hunknown
  simp only [hnone] at hunknown
  rw [if_pos (show HeadWhole engine.config.mode code from .inl hle)] at hunknown
  cases hunknown

theorem exists_four (tail : List Byte) :
    ∃ b1 b2 b3 b4 rest, tail ++ [0, 0, 0, 0] = ([b1, b2, b3, b4] : List Byte) ++ rest := by
  rcases tail with _ | ⟨a, _ | ⟨b, _ | ⟨c, _ | ⟨d, rest⟩⟩⟩⟩ <;> exact ⟨_, _, _, _, _, rfl⟩

theorem exists_opens_of_size (hunknown : demand engine tables code = .unknown)
    (hlen : opcodeStart engine.config.mode code < code.length)
    (hrex2 : ¬ (engine.config.mode = .x86_64 ∧ code.length = opcodeStart engine.config.mode code + 1 ∧
      code.getD (opcodeStart engine.config.mode code) 0 = 0xd5)) {n : Nat}
    (hsize : demand engine tables (code ++ tail) = .size n) :
    ∃ b1 b2 b3 b4 : Byte, Opens engine tables (code ++ [b1, b2, b3, b4]) := by
  have htail : tail ≠ [] := by
    rintro rfl
    rw [List.append_nil, hunknown] at hsize
    cases hsize
  obtain ⟨h, hparse⟩ := exists_head_of_size hsize
  have hwhole : HeadWhole engine.config.mode (code ++ tail) := by
    refine (parseHead_bound hparse).2 ?_
    have hpos := List.length_pos_of_ne_nil htail
    rw [scanPrefixes_append_tail hlen hrex2, List.length_append]
    unfold opcodeStart at hlen
    omega
  have hnil : demand engine tables (code ++ tail ++ []) = .size n := by
    rw [List.append_nil, hsize]
  have hopens : Opens engine tables (code ++ tail) := opens_of_size hwhole hnil
  obtain ⟨rest, m, hrest⟩ := hopens.exists_size hwhole
  obtain ⟨b1, b2, b3, b4, more, hfour⟩ := exists_four (tail ++ rest)
  have hsize' : demand engine tables (code ++ [b1, b2, b3, b4] ++ more) = .size m := by
    rw [List.append_assoc, ← hfour, ← List.append_assoc, ← List.append_assoc, hrest]
  exact ⟨b1, b2, b3, b4, opens_of_size (headWhole_append_four hlen hrex2 _ _ _ _) hsize'⟩

theorem beginsInst_iff (hunknown : demand engine tables code = .unknown) :
    (∃ tail n, demand engine tables (code ++ tail) = .size n) ↔ BeginsInst engine tables code := by
  have hlt := opcodeStart_lt_of_unknown hunknown
  unfold BeginsInst
  simp only
  split
  · next hjump =>
    refine iff_of_true ?_ trivial
    rcases hjump with hend | ⟨hend, hop⟩
    · exact exists_size_of_prefixes (Nat.le_antisymm (opcodeStart_le _ _) hend) hlt
    · exact exists_size_of_escape hend hop hlt
  next hjump =>
  rw [not_or, not_le] at hjump
  split
  · next hrex2 => exact exists_size_of_rex2_iff hrex2.1 hrex2.2.1 hrex2.2.2 hlt hunknown
  next hrex2 =>
  split
  · next hwhole =>
    constructor
    · rintro ⟨tail, n, hn⟩
      exact opens_of_size hwhole hn
    · intro hopens
      obtain ⟨tail, n, hn⟩ := hopens.exists_size hwhole
      exact ⟨tail, n, by simpa using hn []⟩
  · constructor
    · rintro ⟨tail, n, hn⟩
      exact exists_opens_of_size hunknown hjump.1 hrex2 hn
    · rintro ⟨b1, b2, b3, b4, hopens⟩
      obtain ⟨tail, n, hn⟩ := hopens.exists_size (headWhole_append_four hjump.1 hrex2 b1 b2 b3 b4)
      exact ⟨[b1, b2, b3, b4] ++ tail, n, by simpa using hn []⟩

end AsmKit.X86
