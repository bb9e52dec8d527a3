import Mathlib.Tactic.IntervalCases
import Mathlib.Tactic.Ring

/-!
# Little-endian words in byte memories

Words are `BitVec`, bytes are `BitVec 8`, and a memory is a function from addresses to bytes.
-/

abbrev Byte := BitVec 8

instance : LawfulBEq Byte := inferInstance

namespace LittleEndian

/-! ## Words as byte lists -/

/-- The low `n` bytes of a word, least significant first. -/
def bytesOf {w : Nat} (n : Nat) (v : BitVec w) : List Byte :=
  (List.range n).map fun k => (v >>> (8 * k)).setWidth 8

/-- The word whose bytes are given, least significant first. -/
def wordOf (w : Nat) : List Byte → BitVec w
  | [] => 0
  | b :: bs => b.setWidth w ||| wordOf w bs <<< 8

@[simp] theorem bytesOf_length {w : Nat} (n : Nat) (v : BitVec w) : (bytesOf n v).length = n := by
  simp [bytesOf]

theorem bytesOf_getElem? {w : Nat} (n : Nat) (v : BitVec w) (k : Nat) (hk : k < n) :
    (bytesOf n v)[k]? = some ((v >>> (8 * k)).setWidth 8) := by
  simp [bytesOf, hk]

theorem wordOf_getLsbD (w : Nat) (bs : List Byte) (i : Nat) :
    (wordOf w bs).getLsbD i = (decide (i < w) && (bs.getD (i / 8) 0).getLsbD (i % 8)) := by
  induction bs generalizing i with
  | nil => simp [wordOf]
  | cons b bs ih =>
    simp only [wordOf, BitVec.getLsbD_or, BitVec.getLsbD_setWidth, BitVec.getLsbD_shiftLeft, ih]
    rcases Nat.lt_or_ge i 8 with hi | hi
    · have hdiv : i / 8 = 0 := by omega
      have hmod : i % 8 = i := by omega
      simp [hdiv, hmod, hi]
    · -- The bit lies in a later byte.
      have hdiv : i / 8 = (i - 8) / 8 + 1 := by omega
      have hmod : i % 8 = (i - 8) % 8 := by omega
      have hout : b.getLsbD i = false := BitVec.getLsbD_of_ge b i hi
      by_cases hw : i < w
      · simp [hdiv, hmod, hout, hw, Nat.not_lt.2 hi, show i - 8 < w by omega]
      · simp [hw]

theorem wordOf_bytesOf {w : Nat} (n : Nat) (v : BitVec w) (h : w ≤ 8 * n) :
    wordOf w (bytesOf n v) = v := by
  apply BitVec.eq_of_getLsbD_eq
  intro i hi
  have hk : i / 8 < n := by omega
  have hb : 8 * (i / 8) + i % 8 = i := by omega
  rw [wordOf_getLsbD, List.getD_eq_getElem?_getD, bytesOf_getElem? n v _ hk]
  simp [hi, Nat.mod_lt, hb]

theorem bytesOf_wordOf {w : Nat} (n : Nat) (bs : List Byte) (hn : bs.length = n) (hw : 8 * n ≤ w) :
    bytesOf n (wordOf w bs) = bs := by
  apply List.ext_getElem (by simp [hn])
  intro k hk hk'
  have hbyte : (bytesOf n (wordOf w bs))[k] = (wordOf w bs >>> (8 * k)).setWidth 8 := by
    simp [bytesOf]
  rw [hbyte]
  apply BitVec.eq_of_getLsbD_eq
  intro i hi
  have hdiv : (8 * k + i) / 8 = k := by omega
  have hmod : (8 * k + i) % 8 = i := by omega
  have hlt : 8 * k + i < w := by omega
  rw [BitVec.getLsbD_setWidth, BitVec.getLsbD_ushiftRight, wordOf_getLsbD, hdiv, hmod,
    List.getD_eq_getElem?_getD, List.getElem?_eq_getElem hk']
  simp [hlt, hi]

/-! ## Bytes in memory -/

variable {a : Nat}

/-- The bytes `bs` lie in memory from address `p` on. -/
def Loaded (mem : BitVec a → Byte) (p : BitVec a) (bs : List Byte) : Prop :=
  ∀ k b, bs[k]? = some b → mem (p + BitVec.ofNat a k) = b

/-- The `n` bytes from address `p` on. -/
def fetch (mem : BitVec a → Byte) (p : BitVec a) (n : Nat) : List Byte :=
  (List.range n).map fun k => mem (p + BitVec.ofNat a k)

/-- The `w`-bit word at address `p`, read as `n` bytes. -/
def readWord (w : Nat) (mem : BitVec a → Byte) (p : BitVec a) (n : Nat) : BitVec w :=
  wordOf w (fetch mem p n)

theorem Loaded.fetch_eq {mem : BitVec a → Byte} {p : BitVec a} {bs : List Byte}
    (h : Loaded mem p bs) : fetch mem p bs.length = bs := by
  apply List.ext_getElem (by simp [fetch])
  intro k hk hk'
  have := h k bs[k] (List.getElem?_eq_getElem hk')
  simpa [fetch] using this

theorem fetch_add (mem : BitVec a → Byte) (p : BitVec a) (m n : Nat) :
    fetch mem p (m + n) = fetch mem p m ++ fetch mem (p + BitVec.ofNat a m) n := by
  simp [fetch, List.range_add, BitVec.ofNat_add, BitVec.add_assoc]

theorem Loaded.fetch_of_le {mem : BitVec a → Byte} {p : BitVec a} {bs : List Byte}
    (h : Loaded mem p bs) {n : Nat} (hn : bs.length ≤ n) :
    ∃ rest, fetch mem p n = bs ++ rest := by
  obtain ⟨m, rfl⟩ := Nat.exists_eq_add_of_le hn
  exact ⟨_, by rw [fetch_add, h.fetch_eq]⟩

theorem Loaded.left {mem : BitVec a → Byte} {p : BitVec a} {xs ys : List Byte}
    (h : Loaded mem p (xs ++ ys)) : Loaded mem p xs := by
  intro k b hb
  refine h k b ?_
  have hk : k < xs.length := (List.getElem?_eq_some_iff.1 hb).1
  rw [List.getElem?_append_left hk, hb]

theorem Loaded.right {mem : BitVec a → Byte} {p : BitVec a} {xs ys : List Byte}
    (h : Loaded mem p (xs ++ ys)) : Loaded mem (p + BitVec.ofNat a xs.length) ys := by
  intro k b hb
  have := h (xs.length + k) b (by rw [List.getElem?_append_right (by omega)]; simpa using hb)
  rw [BitVec.add_assoc, ← BitVec.ofNat_add]
  exact this

theorem Loaded.readWord_eq {w : Nat} {mem : BitVec a → Byte} {p : BitVec a} {n : Nat}
    {v : BitVec w} (h : Loaded mem p (bytesOf n v)) (hw : w ≤ 8 * n) : readWord w mem p n = v := by
  have := h.fetch_eq
  rw [bytesOf_length] at this
  rw [readWord, this, wordOf_bytesOf n v hw]

theorem readWord_setWidth {w k m n : Nat} (mem : BitVec a → Byte) (p : BitVec a) (hk : k ≤ w)
    (hn : m ≤ n) (hm : k ≤ 8 * m) : (readWord w mem p n).setWidth k = readWord k mem p m := by
  apply BitVec.eq_of_getLsbD_eq
  intro i hi
  have hdiv : i / 8 < m := by omega
  have hfetch : (fetch mem p n).getD (i / 8) 0 = (fetch mem p m).getD (i / 8) 0 := by
    simp [fetch, List.getD_eq_getElem?_getD, hdiv, show i / 8 < n by omega]
  rw [BitVec.getLsbD_setWidth, readWord, readWord, wordOf_getLsbD, wordOf_getLsbD, hfetch]
  simp [hi, show i < w by omega]

theorem readWord_one (mem : BitVec a → Byte) (p : BitVec a) : readWord 8 mem p 1 = mem p := by
  simp [readWord, fetch, wordOf]

/-! ## A memory that holds given bytes -/

/-- Memory `mem` with the bytes `bs` written from `p` on. -/
def store (mem : BitVec a → Byte) (p : BitVec a) (bs : List Byte) : BitVec a → Byte :=
  fun q => (bs[(q - p).toNat]?).getD (mem q)

theorem loaded_store (mem : BitVec a → Byte) (p : BitVec a) (bs : List Byte)
    (h : bs.length ≤ 2 ^ a) : Loaded (store mem p bs) p bs := by
  intro k b hb
  have hk : k < 2 ^ a := Nat.lt_of_lt_of_le (List.getElem?_eq_some_iff.1 hb).1 h
  have hoff : (p + BitVec.ofNat a k - p).toNat = k := by
    rw [BitVec.add_comm, BitVec.add_sub_cancel, BitVec.toNat_ofNat, Nat.mod_eq_of_lt hk]
  rw [store, hoff, hb, Option.getD_some]

theorem readWord_store {w : Nat} (mem : BitVec a → Byte) (p : BitVec a) (n : Nat) (v : BitVec w)
    (hw : w ≤ 8 * n) (hn : n ≤ 2 ^ a) : readWord w (store mem p (bytesOf n v)) p n = v :=
  (loaded_store mem p _ (by rwa [bytesOf_length])).readWord_eq hw

end LittleEndian
