import AsmKit.Decode.Written

/-!
# The layout of a decoded block

Each instruction of a block is decoded where the ones before it end.
-/

namespace AsmKit

/-- The offset of an instruction: the sizes of those before it. -/
def offsetOf (insts : List Inst) (k : Nat) : Nat := ((insts.take k).map (·.size)).sum

section

variable (tables : Tables) (engine : Engine) (code : List Byte) (address : BitVec 64)

/-- The instruction was decoded at the offset, into what the array held there. -/
structure DecodedAt (offset : Nat) (prior inst : Inst) : Prop where
  decoded : decodeOne tables engine (code.drop offset) (address + BitVec.ofNat 64 offset) prior = .ok inst
  pos : 0 < inst.size
  room : offset + inst.size ≤ code.length

/-- What the block decoder keeps. -/
structure Decoded (priors : Nat → Inst) (block : Block) : Prop where
  total : block.totalSize = (block.insts.map (·.size)).sum
  each : ∀ k inst, block.insts[k]? = some inst →
    DecodedAt tables engine code address (offsetOf block.insts k) (priors k) inst

end

variable {tables : Tables} {engine : Engine} {code : List Byte} {address : BitVec 64}
  {priors : Nat → Inst} {block block' : Block} {minSize capacity : Nat}

theorem decoded_nil : Decoded tables engine code address priors {} :=
  ⟨rfl, by simp⟩

theorem Decoded.push (h : Decoded tables engine code address priors block) {inst : Inst}
    (hinst : DecodedAt tables engine code address block.totalSize (priors block.insts.length) inst) :
    Decoded tables engine code address priors (block.push inst) := by
  constructor
  · simp [Block.push, h.total]
  · intro k other hk
    simp only [Block.push, offsetOf] at hk ⊢
    rcases Nat.lt_or_ge k block.insts.length with hlt | hge
    · rw [List.getElem?_append_left hlt] at hk
      rw [List.take_append_of_le_length hlt.le]
      exact h.each k other hk
    · rw [List.getElem?_append_right hge] at hk
      have hlast : k = block.insts.length := by
        have := (List.getElem?_eq_some_iff.1 hk).1
        simp at this
        omega
      subst hlast
      rw [List.take_left, ← h.total]
      simp only [Nat.sub_self, List.getElem?_cons_zero, Option.some.injEq] at hk
      exact hk ▸ hinst

theorem Decoded.totalSize_le (h : Decoded tables engine code address priors block) :
    block.totalSize ≤ code.length := by
  rw [h.total]
  rcases List.eq_nil_or_concat block.insts with hnil | ⟨insts, last, hlast⟩
  · simp [hnil]
  · have hroom := (h.each insts.length last (by simp [hlast])).room
    simpa [hlast, offsetOf] using hroom

theorem decodeBlockLoop_decoded {fuel : Nat}
    (hloop : decodeBlockLoop tables engine code address minSize priors fuel block = .ok block')
    (h : Decoded tables engine code address priors block) :
    Decoded tables engine code address priors block' ∧
      block'.insts.length ≤ block.insts.length + fuel := by
  induction fuel generalizing block with
  | zero =>
    cases hloop
    exact ⟨h, Nat.le_refl _⟩
  | succ fuel ih =>
    unfold decodeBlockLoop at hloop
    simp only at hloop
    split at hloop
    · cases hloop
      exact ⟨h, by omega⟩
    split at hloop
    · cases hloop
    next inst hdec =>
    split at hloop
    · cases hloop
    next hsize =>
    rw [not_or, List.length_drop] at hsize
    have hpush := h.push ⟨hdec, by omega, by omega⟩
    have hlength : (block.push inst).insts.length = block.insts.length + 1 := by simp [Block.push]
    split at hloop
    · cases hloop
      exact ⟨hpush, by omega⟩
    · obtain ⟨hdecoded, hle⟩ := ih hloop hpush
      exact ⟨hdecoded, by omega⟩

theorem decodeBlockUntil_decoded
    (h : decodeBlockUntil tables engine code address minSize capacity priors = .ok block) :
    Decoded tables engine code address priors block ∧
      block.insts.length ≤ min capacity maxBlockInstructions ∧ minSize ≤ block.totalSize := by
  unfold decodeBlockUntil at h
  split at h
  · cases h
  split at h
  · cases h
  next hloop =>
  split at h
  · cases h
  next hmin =>
  cases h
  obtain ⟨hdecoded, hle⟩ := decodeBlockLoop_decoded hloop decoded_nil
  exact ⟨hdecoded, by simpa using hle, not_lt.1 hmin⟩

/-! ## What the records say -/

theorem DecodedAt.bytes_length (hbpf : engine.target.arch ≠ .bpf) (hwasm : engine.target.arch ≠ .wasm)
    {offset : Nat} {prior inst : Inst} (h : DecodedAt tables engine code address offset prior inst)
    (hprior : prior.bytes.length = prior.size) : inst.bytes.length = inst.size := by
  have hdec : WritesUnless (leavesRecord tables engine (code.drop offset))
      (decodeOne tables engine (code.drop offset) (address + BitVec.ofNat 64 offset)) (code.drop offset)
      (address + BitVec.ofNat 64 offset) := decodeOne_writesUnless hbpf hwasm
  cases hleft : leavesRecord tables engine (code.drop offset) with
  | false =>
    rw [(hdec.writes hleft prior inst h.decoded).bytes, List.length_take, List.length_drop]
    have := h.room
    omega
  | true =>
    obtain ⟨mnemonicId, operands, heq⟩ := hdec.leaves hleft prior
    rw [h.decoded] at heq
    cases heq
    exact hprior

theorem DecodedAt.address_eq (hbpf : engine.target.arch ≠ .bpf) (hwasm : engine.target.arch ≠ .wasm)
    {offset : Nat} {prior inst : Inst} (h : DecodedAt tables engine code address offset prior inst) :
    inst.address = if leavesRecord tables engine (code.drop offset) then prior.address
      else address + BitVec.ofNat 64 offset := by
  have hdec : WritesUnless (leavesRecord tables engine (code.drop offset))
      (decodeOne tables engine (code.drop offset) (address + BitVec.ofNat 64 offset)) (code.drop offset)
      (address + BitVec.ofNat 64 offset) := decodeOne_writesUnless hbpf hwasm
  cases hleft : leavesRecord tables engine (code.drop offset) with
  | false => exact (hdec.writes hleft prior inst h.decoded).address
  | true =>
    obtain ⟨mnemonicId, operands, heq⟩ := hdec.leaves hleft prior
    rw [h.decoded] at heq
    cases heq
    rfl

end AsmKit
