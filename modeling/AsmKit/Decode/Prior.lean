import AsmKit.Decode.Layout

/-!
# What the array held before

A record that is written does not depend on what was there. So a block is decoded the same into any
array, but for the records that are left as they were.
-/

namespace AsmKit

/-- A decoder that does not look at what the record held. -/
def Overwrites (decode : Inst → Except Status Inst) : Prop := ∀ prior prior', decode prior = decode prior'

theorem overwrites_const (r : Except Status Inst) : Overwrites fun _ => r := fun _ _ => rfl

/-! ## x86 -/

namespace X86

variable {engine : Engine} {tables : Tables} {code : List Byte} {address : BitVec 64}

theorem finish_getD {size : Nat} (hpos : 0 < size) (hmax : size ≤ maxInstructionBytes)
    (hlen : size ≤ code.length) (id mnemonicId : Nat) (instClass : InstClass) (flags : BitVec 32)
    (prior prior' : Inst) :
    (finish engine code address size id mnemonicId instClass flags).getD prior =
      (finish engine code address size id mnemonicId instClass flags).getD prior' := by
  rw [finish_of_size hpos hmax hlen, Option.getD_some, Option.getD_some]

theorem decodeRelBranch_overwrites {h : Head} (hnext : 0 < h.next) {immSize : Nat}
    (hleft : overlong code (h.next + immSize) = false) :
    Overwrites fun prior => decodeRelBranch engine code address prior h immSize := by
  intro prior prior'
  simp only [decodeRelBranch]
  split
  · rfl
  · next hlen =>
    rw [finish_getD (by omega) (le_max_of_not_overlong hleft hlen) (not_lt.1 hlen) _ _ _ _ _
      (if (relBranch h.opcodeMap h.opcode).instClass = .condBranch then
        { prior' with mnemonicId := (relBranch h.opcodeMap h.opcode).mnemonicId } else prior')]

theorem decodeIo_overwrites {h : Head} (hnext : 0 < h.next)
    (hleft : overlong code (h.next + if isIoImm h.opcode then 1 else 0) = false) :
    Overwrites fun prior => decodeIo engine code address prior h := by
  intro prior prior'
  simp only [decodeIo]
  generalize (if isIoImm h.opcode = true then 1 else 0) = immSize at hleft ⊢
  split
  · rfl
  · next hlen =>
    rw [finish_getD (by omega) (le_max_of_not_overlong hleft hlen) (not_lt.1 hlen) _ _ _ _ _ prior']

theorem decodeTdNoModrm_overwrites {h : Head} (hnext : 0 < h.next) (record : Record) :
    Overwrites fun prior => decodeTdNoModrm engine code address prior h record := by
  intro prior prior'
  simp only [decodeTdNoModrm]
  split
  · rfl
  · next hlen =>
    rw [not_or, not_lt, not_lt] at hlen
    rw [finish_getD (by omega) hlen.2 hlen.1 _ _ _ _ _ prior']

section

variable {f : ModrmForm} {prior prior' : Inst}

theorem ModrmForm.Checked.finish_getD (hf : f.Checked code) (id mnemonicId : Nat)
    (instClass : InstClass) (flags : BitVec 32) (prior prior' : Inst) :
    (X86.finish engine code address f.len id mnemonicId instClass flags).getD prior =
      (X86.finish engine code address f.len id mnemonicId instClass flags).getD prior' :=
  X86.finish_getD hf.pos hf.le_max hf.le_length _ _ _ _ _ _

theorem decodeTdModrm_prior (hf : f.Checked code) (record : Record) :
    decodeTdModrm engine code address prior f record =
      decodeTdModrm engine code address prior' f record := by
  simp only [decodeTdModrm, hf.finish_getD _ _ _ _ prior prior']

theorem decodeModrmFallback_prior (hf : f.Checked code) :
    decodeModrmFallback engine code address prior f =
      decodeModrmFallback engine code address prior' f := by
  unfold decodeModrmFallback
  simp only
  split
  · simp only [decodeMovsxd, hf.finish_getD _ _ _ _ prior prior']
  split
  · simp only [decodeCmovcc, hf.finish_getD _ _ _ _ prior prior']
  split
  · simp only [decodeSetcc, hf.finish_getD _ _ _ _ prior prior']
  · simp only [decodeUnknown, hf.finish_getD _ _ _ _ prior prior']

end

theorem decodeModrm_overwrites (h : Head) :
    Overwrites fun prior => decodeModrm engine tables code address prior h := by
  intro prior prior'
  simp only [decodeModrm]
  split
  · rfl
  rename_i m hm
  have hnext := parseModrm_next hm
  simp only [decodeWithModrm]
  split
  · rfl
  split
  · rfl
  rename_i record _
  cases record with
  | some record =>
    simp only
    generalize (if h.is3DNow = true then 1 else 0) + record.immSize + record.extraImmSize = immSize
    split
    · rfl
    · next hlen =>
      rw [not_or, not_lt, not_lt] at hlen
      rw [decodeTdModrm_prior ⟨by dsimp only; omega, hlen.2, hlen.1⟩]
  | none =>
    simp only
    split
    · rfl
    · next hlen =>
      rw [not_or, not_lt, not_lt] at hlen
      rw [decodeModrmFallback_prior ⟨by dsimp only; omega, hlen.2, hlen.1⟩]

theorem decodeTd_overwrites {h : Head} (hnext : 0 < h.next)
    (hhand : ¬ (isEndbr code h ∨ isNop h)) (hrel : ¬ h.isRel)
    (hleft : (uncheckedLength engine tables code h).any (overlong code) = false) :
    Overwrites fun prior => decodeTd engine tables code address prior h := by
  unfold uncheckedLength at hleft
  rw [if_neg hhand, if_neg hrel] at hleft
  unfold decodeTd
  cases hlookup : lookupNoModrm engine tables h with
  | error status => exact overwrites_const _
  | ok record =>
    rw [hlookup] at hleft
    simp only at hleft ⊢
    cases hrecord : record.filter (·.modrmKind = .none) with
    | some row => exact decodeTdNoModrm_overwrites hnext row
    | none =>
      simp only [hrecord, Option.isSome_none, Bool.false_eq_true, if_false] at hleft ⊢
      split at hleft
      · next hnear =>
        simp only [if_pos hnear]
        exact decodeRelBranch_overwrites hnext hleft
      next hnear =>
      simp only [if_neg hnear]
      split at hleft
      · next hio =>
        simp only [if_pos hio]
        exact decodeIo_overwrites hnext hleft
      next hio =>
      simp only [if_neg hio]
      cases endsWithoutModrm engine tables h with
      | true => exact overwrites_const _
      | false => exact decodeModrm_overwrites h

theorem decodeHead_overwrites {h : Head} (hnext : 0 < h.next)
    (hleft : (uncheckedLength engine tables code h).any (overlong code) = false) :
    Overwrites fun prior => decodeHead engine tables code address prior h := by
  unfold decodeHead
  simp only
  by_cases hendbr : isEndbr code h = true
  · simp only [if_pos hendbr]
    exact overwrites_const _
  by_cases hnop : isNop h = true
  · simp only [if_neg hendbr, if_pos hnop]
    exact overwrites_const _
  have hhand : ¬ (isEndbr code h ∨ isNop h) := not_or.2 ⟨hendbr, hnop⟩
  simp only [if_neg hendbr, if_neg hnop]
  by_cases hrel : h.isRel = true
  · simp only [if_pos hrel]
    rw [uncheckedLength, if_neg hhand, if_pos hrel] at hleft
    exact decodeRelBranch_overwrites hnext hleft
  · simp only [if_neg hrel]
    exact decodeTd_overwrites hnext hhand hrel hleft

theorem decodeOne_overwrites (hleft : leavesRecord engine tables code = false) :
    Overwrites fun prior => decodeOne engine tables code address prior := by
  unfold leavesRecord at hleft
  unfold decodeOne
  simp only
  split
  · exact overwrites_const _
  split
  · exact overwrites_const _
  split
  · exact overwrites_const _
  · next h hhead =>
    rw [hhead, Option.bind_some] at hleft
    exact decodeHead_overwrites (parseHead_next hhead) hleft

end X86

/-! ## Any target -/

variable {tables : Tables} {engine : Engine} {code : List Byte} {address : BitVec 64}

theorem decodeOne_overwrites (hbpf : engine.target.arch ≠ .bpf) (hwasm : engine.target.arch ≠ .wasm)
    (hleft : leavesRecord tables engine code = false) :
    Overwrites (decodeOne tables engine code address) := by
  intro prior prior'
  unfold leavesRecord at hleft
  unfold decodeOne targetDecodeOne
  cases harch : engine.target.arch with
  | x86 =>
    rw [harch, beq_self_eq_true, Bool.true_and] at hleft
    simp only
    exact congrArg _ (X86.decodeOne_overwrites hleft prior prior')
  | arm | aarch64 => rfl
  | bpf => exact absurd harch hbpf
  | wasm => exact absurd harch hwasm

/-! ## A block decoded again -/

variable {priors priors' : Nat → Inst} {block block' : Block} {minSize capacity : Nat}

/-- Two arrays hold the same wherever a block leaves a record as it was. -/
def SameRecords (tables : Tables) (engine : Engine) (code : List Byte) (block : Block)
    (priors priors' : Nat → Inst) : Prop :=
  ∀ k < block.insts.length, leavesRecord tables engine (code.drop (offsetOf block.insts k)) = true →
    priors' k = priors k

/-- No record of a block is left as it was. -/
def AllWritten (tables : Tables) (engine : Engine) (code : List Byte) (block : Block) : Prop :=
  ∀ k < block.insts.length, leavesRecord tables engine (code.drop (offsetOf block.insts k)) = false

instance : Decidable (AllWritten tables engine code block) := inferInstanceAs (Decidable (∀ k < _, _))

theorem AllWritten.sameRecords (h : AllWritten tables engine code block) :
    SameRecords tables engine code block priors priors' := by
  intro k hk hleft
  rw [h k hk] at hleft
  cases hleft

theorem Decoded.bytes_length_of_written (hbpf : engine.target.arch ≠ .bpf)
    (hwasm : engine.target.arch ≠ .wasm) (hdecoded : Decoded tables engine code address priors block)
    (h : AllWritten tables engine code block) : ∀ inst ∈ block.insts, inst.bytes.length = inst.size := by
  intro inst hinst
  obtain ⟨k, hk, rfl⟩ := List.getElem_of_mem hinst
  have hat := hdecoded.each k _ (List.getElem?_eq_getElem hk)
  have hwrites : WritesUnless (leavesRecord tables engine (code.drop (offsetOf block.insts k)))
      (decodeOne tables engine (code.drop (offsetOf block.insts k))
        (address + BitVec.ofNat 64 (offsetOf block.insts k))) (code.drop (offsetOf block.insts k))
      (address + BitVec.ofNat 64 (offsetOf block.insts k)) := decodeOne_writesUnless hbpf hwasm
  rw [(hwrites.writes (h k hk) _ _ hat.decoded).bytes, List.length_take, List.length_drop]
  have hroom := hat.room
  omega

theorem Decoded.of_sameRecords (hbpf : engine.target.arch ≠ .bpf) (hwasm : engine.target.arch ≠ .wasm)
    (h : Decoded tables engine code address priors block)
    (hsame : SameRecords tables engine code block priors priors') :
    Decoded tables engine code address priors' block := by
  refine ⟨h.total, fun k inst hinst => ?_⟩
  obtain ⟨hdecoded, hpos, hroom⟩ := h.each k inst hinst
  refine ⟨?_, hpos, hroom⟩
  by_cases hleft : leavesRecord tables engine (code.drop (offsetOf block.insts k)) = true
  · rwa [hsame k (List.getElem?_eq_some_iff.1 hinst).1 hleft]
  · rw [← hdecoded]
    exact decodeOne_overwrites hbpf hwasm (eq_false_of_ne_true hleft) _ _

theorem decodeBlockLoop_again {fuel : Nat}
    (hloop : decodeBlockLoop tables engine code address minSize priors fuel block = .ok block')
    (hdecoded : Decoded tables engine code address priors' block')
    (htotal : block.totalSize = (block.insts.map (·.size)).sum) :
    decodeBlockLoop tables engine code address block'.totalSize priors' fuel block = .ok block' ∧
      block.totalSize ≤ block'.totalSize ∧ block.insts <+: block'.insts := by
  induction fuel generalizing block with
  | zero =>
    cases hloop
    exact ⟨rfl, le_rfl, List.prefix_rfl⟩
  | succ fuel ih =>
    unfold decodeBlockLoop at hloop ⊢
    simp only at hloop ⊢
    split at hloop
    · cases hloop
      exact ⟨if_pos le_rfl, le_rfl, List.prefix_rfl⟩
    split at hloop
    · cases hloop
    next inst hdec =>
    split at hloop
    · cases hloop
    next hsize =>
    have hpush : (block.push inst).totalSize = ((block.push inst).insts.map (·.size)).sum := by
      simp [Block.push, htotal]
    -- What the loop decodes next is what the block holds at that place.
    have hagain (hlast : (block.push inst).totalSize ≤ block'.totalSize)
        (hbegins : (block.push inst).insts <+: block'.insts) :
        ¬ block'.totalSize ≤ block.totalSize ∧
          decodeOne tables engine (code.drop block.totalSize)
            (address + BitVec.ofNat 64 block.totalSize) (priors' block.insts.length) = .ok inst := by
      obtain ⟨rest, hrest⟩ := hbegins
      have hoffset : offsetOf block'.insts block.insts.length = block.totalSize := by
        rw [offsetOf, ← hrest, Block.push, List.append_assoc, List.take_left, htotal]
      have hinst : block'.insts[block.insts.length]? = some inst := by
        rw [← hrest]
        simp [Block.push]
      have hat := hdecoded.each _ _ hinst
      have hpos := hat.pos
      rw [hoffset] at hat
      have hsum : (block.push inst).totalSize = block.totalSize + inst.size := rfl
      exact ⟨by omega, hat.decoded⟩
    have hbefore : block.insts <+: (block.push inst).insts := List.prefix_append _ _
    have hle : block.totalSize ≤ (block.push inst).totalSize := Nat.le_add_right _ _
    split at hloop
    · next hterminator =>
      cases hloop
      obtain ⟨hmore, hdec'⟩ := hagain le_rfl List.prefix_rfl
      rw [if_neg hmore, hdec']
      simp only [if_neg hsize, if_pos hterminator]
      exact ⟨trivial, hle, hbefore⟩
    · next hterminator =>
      obtain ⟨hloop', hlast, hbegins⟩ := ih hloop hpush
      obtain ⟨hmore, hdec'⟩ := hagain hlast hbegins
      rw [if_neg hmore, hdec']
      simp only [if_neg hsize, if_neg hterminator]
      exact ⟨hloop', hle.trans hlast, hbefore.trans hbegins⟩

/-- A block is decoded again from its own size, into an array that holds the same where it matters. -/
theorem decodeBlockUntil_again (hbpf : engine.target.arch ≠ .bpf) (hwasm : engine.target.arch ≠ .wasm)
    (h : decodeBlockUntil tables engine code address minSize capacity priors = .ok block)
    (hsame : SameRecords tables engine code block priors priors') :
    decodeBlockUntil tables engine code address block.totalSize capacity priors' = .ok block := by
  have hdecoded := (decodeBlockUntil_decoded h).1.of_sameRecords hbpf hwasm hsame
  unfold decodeBlockUntil at h ⊢
  split at h
  · cases h
  next hcapacity =>
  rw [if_neg hcapacity]
  split at h
  · cases h
  next hloop =>
  split at h
  · cases h
  cases h
  rw [(decodeBlockLoop_again hloop hdecoded rfl).1]
  exact if_neg (lt_irrefl _)

end AsmKit
