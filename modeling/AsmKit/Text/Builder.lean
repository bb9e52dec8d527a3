import AsmKit.Core.Types
import AsmKit.Lib.Numeral
import Mathlib.Data.List.Induction

/-!
# The text builder

`asmkit_text_builder_t` and the calls that append to it: characters, strings and numbers. What has no
room is counted and dropped.
-/

namespace AsmKit.Text

/-- `out_text` is the memory from the pointer on, or null. The counters have 32 bits. -/
structure Builder where
  outText : Option (List Char)
  outCapacity : Nat
  required : BitVec 32 := 0
  written : BitVec 32 := 0
deriving DecidableEq, Repr

namespace Builder

/-! ## Characters and strings -/

/-- `asmkit_text_builder_append_char`. -/
def appendChar (builder : Builder) (ch : Char) : Builder :=
  let builder :=
    if builder.outText.isSome ∧ 0 < builder.outCapacity ∧
        builder.written.toNat + 1 < builder.outCapacity then
      { builder with
        outText := builder.outText.map (·.set builder.written.toNat ch)
        written := builder.written + 1 }
    else builder
  { builder with required := builder.required + 1 }

/-- The loop over the characters of a text. -/
def appendChars (builder : Builder) (text : List Char) : Builder := text.foldl appendChar builder

/-- `asmkit_text_builder_append_cstr`. -/
def appendCstr (builder : Builder) (text : String) : Builder := builder.appendChars text.toList

/-! ## Numbers -/

/-- The digits that are put into a buffer of `room`, the last one first, and what is left of the
value. -/
def digitLoop (digit : BitVec 64 → Char) (next : BitVec 64 → BitVec 64) :
    Nat → BitVec 64 → List Char × BitVec 64
  | 0, value => ([], value)
  | room + 1, value =>
    if next value ≠ 0 ∧ room ≠ 0 then
      ((digit value) :: (digitLoop digit next room (next value)).1,
        (digitLoop digit next room (next value)).2)
    else ([digit value], next value)

/-- The loop of `asmkit_text_builder_append_unsigned_dec`, over a buffer of 20 digits. -/
def decDigits (value : BitVec 64) : List Char × BitVec 64 :=
  digitLoop (fun value => Char.ofNat ('0'.toNat + (value % 10).toNat)) (· / 10) 20 value

def hexChars : List Char := "0123456789abcdef".toList

/-- The loop of `asmkit_text_builder_append_hex`, over a buffer of 16 digits. -/
def hexDigits (value : BitVec 64) : List Char × BitVec 64 :=
  digitLoop (fun value => hexChars.getD (value &&& 0xf).toNat '0') (· >>> 4) 16 value

def appendUnsignedDec (builder : Builder) (value : BitVec 64) : Builder :=
  builder.appendChars (decDigits value).1.reverse

def appendSignedDec (builder : Builder) (value : BitVec 64) : Builder :=
  if value.toInt < 0 then (builder.appendChar '-').appendUnsignedDec (0 - value)
  else builder.appendUnsignedDec value

def appendHex (builder : Builder) (value : BitVec 64) : Builder :=
  (builder.appendCstr "0x").appendChars (hexDigits value).1.reverse

end Builder

/-! ## The digit loops -/

section

variable {digit : BitVec 64 → Char} {next : BitVec 64 → BitVec 64} {base : Nat}

/-- A loop with room for every digit puts down the numeral, and nothing of the value is left. -/
theorem digitLoop_spec (hbase : 1 < base)
    (hdigit : ∀ value, digit value = Nat.digitChar (value.toNat % base))
    (hnext : ∀ value, (next value).toNat = value.toNat / base) {room : Nat} (hroom : room ≠ 0)
    {value : BitVec 64} (hvalue : value.toNat < base ^ room) :
    (Builder.digitLoop digit next room value).1.reverse = Nat.toDigits base value.toNat ∧
      (Builder.digitLoop digit next room value).2 = 0 := by
  induction room generalizing value with
  | zero => exact absurd rfl hroom
  | succ room ih =>
    have hzero : next value = 0 ↔ value.toNat < base := by
      have hnat : (next value).toNat = 0 ↔ next value = 0 := @BitVec.toNat_inj 64 (next value) 0
      rw [← hnat, hnext, Nat.div_eq_zero_iff_lt (by omega)]
    rw [Builder.digitLoop]
    split
    · next hmore =>
      have hge : base ≤ value.toNat := by
        by_contra hlt
        exact hmore.1 (hzero.2 (by omega))
      have hrest : (next value).toNat < base ^ room := by
        rw [hnext, Nat.div_lt_iff_lt_mul (by omega), ← Nat.pow_succ]
        exact hvalue
      obtain ⟨hdigits, hleft⟩ := ih hmore.2 hrest
      refine ⟨?_, hleft⟩
      rw [List.reverse_cons, hdigits, hnext, hdigit, Nat.toDigits_of_base_le hbase hge]
    · next hlast =>
      -- the room runs out only with the value
      have hlt : value.toNat < base := by
        rw [not_and_or, not_not, not_not] at hlast
        rcases hlast with hnone | rfl
        · exact hzero.1 hnone
        · simpa using hvalue
      refine ⟨?_, hzero.2 hlt⟩
      rw [hdigit, Nat.mod_eq_of_lt hlt, Nat.toDigits_of_lt_base hlt]
      rfl

end

theorem decDigits_spec (value : BitVec 64) :
    (Builder.decDigits value).1.reverse = Nat.toDigits 10 value.toNat ∧
      (Builder.decDigits value).2 = 0 := by
  refine digitLoop_spec (by decide) (fun value => ?_) (fun value => rfl) (by decide) (by omega)
  have hdigit : ∀ d < 10, Char.ofNat ('0'.toNat + d) = Nat.digitChar d := by decide
  exact hdigit _ (Nat.mod_lt _ (by decide))

theorem hexDigits_spec (value : BitVec 64) :
    (Builder.hexDigits value).1.reverse = Nat.toDigits 16 value.toNat ∧
      (Builder.hexDigits value).2 = 0 := by
  refine digitLoop_spec (by decide) (fun value => ?_) (fun value => ?_) (by decide) (by omega)
  · have hdigit : ∀ d < 16, Builder.hexChars.getD d '0' = Nat.digitChar d := by decide
    have hmask : (value &&& 0xf).toNat = value.toNat % 16 := by
      rw [BitVec.toNat_and]
      exact Nat.and_two_pow_sub_one_eq_mod value.toNat 4
    rw [hmask]
    exact hdigit _ (Nat.mod_lt _ (by decide))
  · rw [BitVec.toNat_ushiftRight, Nat.shiftRight_eq_div_pow]

theorem digits_length_le (value : BitVec 64) :
    (Builder.decDigits value).1.length ≤ 20 ∧ (Builder.hexDigits value).1.length ≤ 16 := by
  constructor
  · rw [← List.length_reverse, (decDigits_spec value).1,
      Nat.length_toDigits_le_iff (by decide) (by decide)]
    omega
  · rw [← List.length_reverse, (hexDigits_spec value).1,
      Nat.length_toDigits_le_iff (by decide) (by decide)]
    omega

/-! ## The numerals -/

/-- What a signed number is rendered as. -/
def signedText (value : Int) : List Char :=
  if value < 0 then '-' :: Nat.toDigits 10 value.natAbs else Nat.toDigits 10 value.natAbs

/-- A minus sign in front negates what it is in front of. -/
def valueOfSigned : List Char → Int
  | '-' :: text => -(Numeral.valueOf 10 text : Int)
  | text => Numeral.valueOf 10 text

theorem valueOfSigned_of_canonical {text : List Char} {value : Nat}
    (h : Numeral.Canonical 10 text value) : valueOfSigned text = value := by
  have hvalue := h.value
  unfold valueOfSigned
  split
  · have hminus : ∀ d < 10, '-' ≠ Nat.digitChar d := by decide
    obtain ⟨d, hd, heq⟩ := h.digits '-' List.mem_cons_self
    exact absurd heq (hminus d hd)
  · rw [hvalue]

theorem toNat_neg_of_neg {value : BitVec 64} (h : value.toInt < 0) :
    (0 - value).toNat = value.toInt.natAbs := by
  rw [BitVec.toInt_eq_toNat_cond] at h ⊢
  split at h
  · omega
  · next hge =>
    rw [if_neg hge]
    bv_omega

theorem toNat_of_nonneg {value : BitVec 64} (h : ¬ value.toInt < 0) :
    value.toNat = value.toInt.natAbs := by
  rw [BitVec.toInt_eq_toNat_cond] at h ⊢
  split at h
  · next hlt =>
    rw [if_pos hlt]
    omega
  · have hbound := value.isLt
    omega

/-! ## What is appended -/

namespace Builder

/-- As many places behind what is written as the text needs, and one for the final NUL. -/
structure HasRoom (builder : Builder) (mem : List Char) (length : Nat) : Prop where
  outText : builder.outText = some mem
  mem_length : builder.outCapacity ≤ mem.length
  capacity : builder.written.toNat + length < builder.outCapacity
  counter : builder.written.toNat + length < 2 ^ 32

/-- The call appends the characters of the text: they are counted, and stored behind what is written
where there is room for them. -/
structure Appends (append : Builder → Builder) (text : List Char) : Prop where
  chars : ∀ builder, append builder = builder.appendChars text
  required : ∀ builder, (append builder).required = builder.required + BitVec.ofNat 32 text.length
  stored : ∀ builder mem, builder.HasRoom mem text.length →
    (append builder).outText = some (mem.take builder.written.toNat ++ text ++
      mem.drop (builder.written.toNat + text.length)) ∧
    (append builder).written.toNat = builder.written.toNat + text.length

section

theorem appendChars_append (builder : Builder) (text text' : List Char) :
    builder.appendChars (text ++ text') = (builder.appendChars text).appendChars text' := by
  rw [appendChars, List.foldl_append]
  rfl

variable {builder : Builder} {mem text : List Char}

theorem appendChar_required (ch : Char) : (builder.appendChar ch).required = builder.required + 1 := by
  unfold appendChar
  split <;> rfl

theorem appendChars_required :
    (builder.appendChars text).required = builder.required + BitVec.ofNat 32 text.length := by
  induction text generalizing builder with
  | nil => exact (BitVec.add_zero _).symm
  | cons ch text ih =>
    have hcount : BitVec.ofNat 32 (ch :: text).length = 1 + BitVec.ofNat 32 text.length := by
      rw [List.length_cons, Nat.add_comm, BitVec.ofNat_add]
      rfl
    rw [hcount, ← BitVec.add_assoc, ← appendChar_required ch]
    exact ih

theorem HasRoom.appendChar {ch : Char} (h : builder.HasRoom mem (text.length + 1)) :
    (builder.appendChar ch).HasRoom (mem.set builder.written.toNat ch) text.length ∧
      (builder.appendChar ch).written.toNat = builder.written.toNat + 1 := by
  obtain ⟨hout, hmem, hcapacity, hcounter⟩ := h
  have hplace : builder.outText.isSome ∧ 0 < builder.outCapacity ∧
      builder.written.toNat + 1 < builder.outCapacity :=
    ⟨by rw [hout]; rfl, by omega, by omega⟩
  have hwritten : (builder.written + 1).toNat = builder.written.toNat + 1 := by bv_omega
  have happend : builder.appendChar ch =
      { builder with
        outText := builder.outText.map (·.set builder.written.toNat ch)
        written := builder.written + 1
        required := builder.required + 1 } := by
    simp only [Builder.appendChar, if_pos hplace]
  rw [happend]
  refine ⟨⟨by rw [hout]; rfl, by rw [List.length_set]; exact hmem, ?_, ?_⟩, hwritten⟩
  · show (builder.written + 1).toNat + text.length < builder.outCapacity
    omega
  · show (builder.written + 1).toNat + text.length < 2 ^ 32
    omega

theorem appendChars_stored (h : builder.HasRoom mem text.length) :
    (builder.appendChars text).outText = some (mem.take builder.written.toNat ++ text ++
      mem.drop (builder.written.toNat + text.length)) ∧
    (builder.appendChars text).written.toNat = builder.written.toNat + text.length := by
  induction text generalizing builder mem with
  | nil =>
    refine ⟨?_, rfl⟩
    rw [List.append_nil, List.length_nil, Nat.add_zero, List.take_append_drop]
    exact h.outText
  | cons ch text ih =>
    rw [List.length_cons] at h ⊢
    obtain ⟨hroom, hwritten⟩ := @HasRoom.appendChar _ _ _ ch h
    obtain ⟨hout, hcount⟩ := ih hroom
    have hlt : builder.written.toNat < mem.length := by
      have hmem := h.mem_length
      have hcapacity := h.capacity
      omega
    have htake : (mem.set builder.written.toNat ch).take (builder.written.toNat + 1) =
        mem.take builder.written.toNat ++ [ch] := by
      rw [List.take_set, List.take_succ_eq_append_getElem hlt,
        List.set_append_right _ _ (by simp), List.length_take, Nat.min_eq_left hlt.le, Nat.sub_self,
        List.set_cons_zero]
    refine ⟨hout.trans ?_, hcount.trans (by omega)⟩
    rw [hwritten, htake, List.drop_set_of_lt (by omega), List.append_assoc, List.append_assoc,
      List.append_assoc, List.singleton_append, Nat.add_right_comm, Nat.add_assoc]
    rfl

theorem appends_of_chars {append : Builder → Builder}
    (h : ∀ builder, append builder = builder.appendChars text) : Appends append text where
  chars := h
  required builder := by rw [h, appendChars_required]
  stored builder mem hroom := by
    rw [h]
    exact appendChars_stored hroom

end

variable (builder : Builder) (value : BitVec 64)

theorem appendUnsignedDec_eq :
    builder.appendUnsignedDec value = builder.appendChars (Nat.toDigits 10 value.toNat) := by
  rw [appendUnsignedDec, (decDigits_spec value).1]

theorem appendSignedDec_eq :
    builder.appendSignedDec value = builder.appendChars (signedText value.toInt) := by
  unfold appendSignedDec signedText
  split
  · next hneg =>
    rw [appendUnsignedDec_eq, toNat_neg_of_neg hneg]
    rfl
  · next hpos => rw [appendUnsignedDec_eq, toNat_of_nonneg hpos]

theorem appendHex_eq :
    builder.appendHex value = builder.appendChars ('0' :: 'x' :: Nat.toDigits 16 value.toNat) := by
  rw [appendHex, (hexDigits_spec value).1, appendCstr, ← appendChars_append]
  rfl

end Builder

/-- The numbers are appended as their canonical numerals, digit by digit behind what is written, and
the buffers of digits have room for all of them. -/
theorem append_canonical (value : BitVec 64) :
    (∃ text, Builder.Appends (fun builder => builder.appendUnsignedDec value) text ∧
      Numeral.Canonical 10 text value.toNat) ∧
    (∃ text, Builder.Appends (fun builder => builder.appendSignedDec value)
        (if value.toInt < 0 then '-' :: text else text) ∧
      Numeral.Canonical 10 text value.toInt.natAbs ∧
      valueOfSigned (if value.toInt < 0 then '-' :: text else text) = value.toInt) ∧
    (∃ text, Builder.Appends (fun builder => builder.appendHex value) ('0' :: 'x' :: text) ∧
      Numeral.Canonical 16 text value.toNat) ∧
    ((Builder.decDigits value).2 = 0 ∧ (Builder.decDigits value).1.length ≤ 20) ∧
    (Builder.hexDigits value).2 = 0 ∧ (Builder.hexDigits value).1.length ≤ 16 := by
  have hdec : ∀ n, Numeral.Canonical 10 (Nat.toDigits 10 n) n :=
    Numeral.canonical_toDigits (by decide) (by decide)
  refine ⟨⟨_, Builder.appends_of_chars fun builder => builder.appendUnsignedDec_eq value, hdec _⟩,
    ⟨_, Builder.appends_of_chars fun builder => builder.appendSignedDec_eq value, hdec _, ?_⟩,
    ⟨_, Builder.appends_of_chars fun builder => builder.appendHex_eq value,
      Numeral.canonical_toDigits (by decide) (by decide) _⟩,
    ⟨(decDigits_spec value).2, (digits_length_le value).1⟩, (hexDigits_spec value).2,
    (digits_length_le value).2⟩
  split
  · next hneg =>
    rw [valueOfSigned, (hdec _).value]
    omega
  · next hpos =>
    rw [valueOfSigned_of_canonical (hdec _)]
    omega

/-! ## The whole text -/

/-- What a formatter hands back. -/
structure TextOut where
  status : Status
  required : BitVec 32
  written : BitVec 32
  outText : Option (List Char)
deriving DecidableEq, Repr

namespace Builder

def init (outText : Option (List Char)) (outCapacity : Nat) : Builder := { outText, outCapacity }

/-- `asmkit_text_builder_finish`. -/
def finish (builder : Builder) : TextOut where
  status :=
    if builder.outText.isNone ∨ builder.outCapacity = 0 then .outputTooSmall
    else if builder.written < builder.required then .outputTooSmall
    else .ok
  required := builder.required
  written := builder.written
  outText :=
    if builder.outText.isSome ∧ 0 < builder.outCapacity then
      builder.outText.map (·.set builder.written.toNat (Char.ofNat 0))
    else builder.outText

end Builder

/-- How many of the characters are kept: one place is for the final NUL. -/
def kept (outText : Option (List Char)) (outCapacity length : Nat) : Nat :=
  if outText.isSome then min length (outCapacity - 1) else 0

/-- The builder behind a text: it holds what is kept of it, and has counted all. -/
def Builder.holding (outText : Option (List Char)) (outCapacity : Nat) (text : List Char) : Builder where
  outText := outText.map fun mem =>
    text.take (kept outText outCapacity text.length) ++ mem.drop (kept outText outCapacity text.length)
  outCapacity := outCapacity
  required := BitVec.ofNat 32 text.length
  written := BitVec.ofNat 32 (kept outText outCapacity text.length)

section

variable {outText : Option (List Char)} {outCapacity : Nat} {text : List Char} {mem : List Char}

theorem kept_le (length : Nat) : kept outText outCapacity length ≤ length := by
  unfold kept
  split
  · exact Nat.min_le_left _ _
  · exact Nat.zero_le _

theorem set_append_drop {front : List Char} (hmem : front.length < mem.length) (ch : Char) :
    (front ++ mem.drop front.length).set front.length ch = front ++ ch :: mem.drop (front.length + 1) := by
  rw [List.drop_eq_getElem_cons hmem, List.set_append_right _ _ le_rfl, Nat.sub_self, List.set_cons_zero]

theorem holding_appendChar (hmem : ∀ mem ∈ outText, outCapacity ≤ mem.length)
    (hlength : text.length < 2 ^ 32) (ch : Char) :
    (Builder.holding outText outCapacity text).appendChar ch =
      Builder.holding outText outCapacity (text ++ [ch]) := by
  have hkept : kept outText outCapacity text.length ≤ text.length := kept_le text.length
  have hwritten : (BitVec.ofNat 32 (kept outText outCapacity text.length)).toNat =
      kept outText outCapacity text.length := by
    rw [BitVec.toNat_ofNat, Nat.mod_eq_of_lt (by omega)]
  have hlen : (text ++ [ch]).length = text.length + 1 := by
    rw [List.length_append, List.length_singleton]
  have hcount : ∀ n, BitVec.ofNat 32 (n + 1) = BitVec.ofNat 32 n + 1 := fun n => BitVec.ofNat_add n 1
  unfold Builder.appendChar Builder.holding
  simp only [hwritten, hlen]
  cases outText with
  | none =>
    have hnone : ∀ length, kept none outCapacity length = 0 := fun _ => rfl
    simp only [Option.map_none, Option.isSome_none, Bool.false_eq_true, false_and, if_false, hnone,
      hcount text.length]
  | some mem =>
    have hroom := hmem mem rfl
    have hmin : ∀ length, kept (some mem) outCapacity length = min length (outCapacity - 1) :=
      fun _ => rfl
    simp only [Option.map_some, Option.isSome_some, true_and, hmin] at hkept ⊢
    split
    · next hplace =>
      have hall : min text.length (outCapacity - 1) = text.length := by omega
      have hall' : min (text.length + 1) (outCapacity - 1) = text.length + 1 := by omega
      have hset := set_append_drop (by omega : text.length < mem.length) ch
      have htake : (text ++ [ch]).take (text.length + 1) = text ++ [ch] :=
        List.take_of_length_le hlen.le
      simp only [hall, hall', hcount text.length, List.take_length, htake, hset, List.append_assoc,
        List.singleton_append]
    · next hfull =>
      have hsame : min (text.length + 1) (outCapacity - 1) = min text.length (outCapacity - 1) := by
        omega
      simp only [hsame, hcount text.length, List.take_append_of_le_length (Nat.min_le_left _ _)]

theorem init_eq_holding : Builder.init outText outCapacity = Builder.holding outText outCapacity [] := by
  have hnone : kept outText outCapacity 0 = 0 := Nat.le_zero.1 (kept_le 0)
  cases outText <;> simp [Builder.init, Builder.holding, hnone]

theorem appendChars_init (hmem : ∀ mem ∈ outText, outCapacity ≤ mem.length)
    (hlength : text.length < 2 ^ 32) :
    (Builder.init outText outCapacity).appendChars text = Builder.holding outText outCapacity text := by
  induction text using List.reverseRecOn with
  | nil => exact init_eq_holding
  | append_singleton text ch ih =>
    rw [List.length_append, List.length_singleton] at hlength
    rw [Builder.appendChars_append, ih (by omega)]
    exact holding_appendChar hmem (by omega) ch

end

/-- The call renders one text, of which the capacity only decides how much is kept. -/
structure Truncates (text : List Char) (render : Option (List Char) → Nat → TextOut) : Prop where
  required : ∀ outText outCapacity, (∀ mem ∈ outText, outCapacity ≤ mem.length) →
    (render outText outCapacity).required.toNat = text.length
  stored : ∀ mem outCapacity, outCapacity ≤ mem.length → 0 < outCapacity →
    let out := render (some mem) outCapacity
    out.written.toNat = min text.length (outCapacity - 1) ∧
      out.outText = some (text.take out.written.toNat ++
        Char.ofNat 0 :: mem.drop (out.written.toNat + 1)) ∧
      out.status = if text.length < outCapacity then .ok else .outputTooSmall
  nowhere : ∀ outText outCapacity, outText = none ∨ outCapacity = 0 →
    (∀ mem ∈ outText, outCapacity ≤ mem.length) →
    let out := render outText outCapacity
    out.written = 0 ∧ out.outText = outText ∧ out.status = .outputTooSmall

theorem truncates_finish {text : List Char} (hlength : text.length < 2 ^ 32) :
    Truncates text fun outText outCapacity =>
      ((Builder.init outText outCapacity).appendChars text).finish := by
  have hnat : ∀ n ≤ text.length, (BitVec.ofNat 32 n).toNat = n := by
    intro n hn
    rw [BitVec.toNat_ofNat, Nat.mod_eq_of_lt (by omega)]
  constructor
  · intro outText outCapacity hmem
    rw [appendChars_init hmem hlength]
    exact hnat _ le_rfl
  · intro mem outCapacity hroom hpos
    have hmin : kept (some mem) outCapacity text.length = min text.length (outCapacity - 1) := rfl
    have hmem : ∀ mem' ∈ some mem, outCapacity ≤ mem'.length := by
      rintro _ ⟨⟩
      exact hroom
    have hless : BitVec.ofNat 32 (min text.length (outCapacity - 1)) < BitVec.ofNat 32 text.length ↔
        ¬ text.length < outCapacity := by
      rw [BitVec.lt_def, hnat _ (Nat.min_le_left _ _), hnat _ le_rfl]
      omega
    simp only [appendChars_init hmem hlength, Builder.finish, Builder.holding, Option.map_some,
      Option.isSome_some, Option.isNone_some, hmin, hnat _ (Nat.min_le_left text.length (outCapacity - 1)),
      hless]
    refine ⟨trivial, ?_, ?_⟩
    · have htake : (text.take (min text.length (outCapacity - 1))).length =
          min text.length (outCapacity - 1) := List.length_take_of_le (Nat.min_le_left _ _)
      have hset := set_append_drop (by rw [htake]; omega :
        (text.take (min text.length (outCapacity - 1))).length < mem.length) (Char.ofNat 0)
      rw [htake] at hset
      rw [if_pos ⟨trivial, hpos⟩, hset]
    · rw [if_neg (by simp; omega)]
      split <;> simp_all
  · intro outText outCapacity hnowhere hmem
    have hnone : kept outText outCapacity text.length = 0 := by
      rcases hnowhere with rfl | rfl
      · rfl
      · unfold kept
        split <;> simp
    have hout : outText.map (fun mem => text.take 0 ++ mem.drop 0) = outText := by
      simp
    simp only [appendChars_init hmem hlength, Builder.finish, Builder.holding, hnone, hout]
    rcases hnowhere with rfl | rfl <;> simp

end AsmKit.Text
