import AsmKit.Analysis.State
import AsmKit.Decode.Block
import AsmKit.Encode.Inst

/-!
# Decoding what was encoded

What an instruction and its copy have to agree in, and the plain forms that the overlays emit.
-/

namespace AsmKit

/-! ## Agreement -/

/-- The register and the immediate operands. -/
def Inst.plainOperands (inst : Inst) : List Operand :=
  inst.operands.filter fun o => o.kind == .reg || o.kind == .imm

def Inst.targetOperands (inst : Inst) : List Operand := inst.operands.filter (·.kind == .pcRel)

/-- The condition the instruction is executed under in a state. -/
def Inst.predicateIn (inst : Inst) (state : DecodeState) : ExecutionPredicate :=
  if inst.arch = .arm then armApplyPredicate inst state else {}

theorem Inst.predicateIn_of_ne_arm {inst : Inst} (h : inst.arch ≠ .arm) (state : DecodeState) :
    inst.predicateIn state = {} := if_neg h

structure Inst.Agrees (inst inst' : Inst) : Prop where
  mnemonic : inst'.mnemonicId = inst.mnemonicId
  instClass : inst'.instClass = inst.instClass
  predicate : ∀ state, inst'.predicateIn state = inst.predicateIn state
  operands : inst'.plainOperands = inst.plainOperands
  targets : inst'.targetOperands.map (·.absTarget) = inst.targetOperands.map (·.absTarget)

/-- The code is decoded, at the address of the instruction, to one that agrees with it. -/
def Inst.DecodesBack (tables : Tables) (engine : Engine) (inst : Inst) (code : List Byte)
    (prior : Inst) : Prop :=
  ∃ inst', decodeOne tables engine code inst.address prior = .ok inst' ∧ inst.Agrees inst'

theorem Inst.decodesBack_iff {tables : Tables} {engine : Engine} {inst inst' prior : Inst}
    {code : List Byte} (h : decodeOne tables engine code inst.address prior = .ok inst') :
    inst.DecodesBack tables engine code prior ↔ inst.Agrees inst' := by
  constructor
  · rintro ⟨inst'', hdec, hagrees⟩
    rw [h] at hdec
    cases hdec
    exact hagrees
  · intro hagrees
    exact ⟨inst', h, hagrees⟩

/-! ## What the metadata leaves alone -/

theorem applyOperandMetadata_filter (tables : Tables) (inst : Inst) (p : OperandKind → Bool) :
    (applyOperandMetadata tables inst).operands.filter (fun o => p o.kind) =
      (inst.operands.filter fun o => p o.kind).map
        (Operand.withInfos (tables.operandInfos inst.arch inst.id)) := by
  rw [applyOperandMetadata, List.filter_map]
  congr 1
  refine List.filter_congr fun o _ => ?_
  rw [Function.comp_apply, Operand.withInfos_kind]

/-! ## Plain forms -/

/-- An instruction without register and immediate operands. -/
structure Inst.PlainForm (inst : Inst) (mnemonic : Nat) (instClass : InstClass)
    (targets : List (BitVec 64)) : Prop where
  mnemonic : inst.mnemonicId = mnemonic
  instClass : inst.instClass = instClass
  operands : inst.plainOperands = []
  targets : inst.targetOperands.map (·.absTarget) = targets

theorem Inst.PlainForm.withMetadata {inst : Inst} {mnemonic : Nat} {instClass : InstClass}
    {targets : List (BitVec 64)} (h : inst.PlainForm mnemonic instClass targets) (tables : Tables) :
    (applyOperandMetadata tables inst).PlainForm mnemonic instClass targets := by
  refine ⟨h.mnemonic, h.instClass, ?_, ?_⟩
  · have hoperands := h.operands
    unfold Inst.plainOperands at hoperands ⊢
    rw [applyOperandMetadata_filter tables inst fun kind => kind == .reg || kind == .imm, hoperands]
    rfl
  · have htargets := h.targets
    unfold Inst.targetOperands at htargets ⊢
    rw [applyOperandMetadata_filter tables inst fun kind => kind == .pcRel, List.map_map, ← htargets]
    refine List.map_congr_left fun o _ => ?_
    rw [Function.comp_apply, Operand.withInfos_absTarget]

theorem Inst.PlainForm.agrees_iff {inst inst' : Inst} {mnemonic : Nat} {instClass : InstClass}
    {targets : List (BitVec 64)} (h : inst'.PlainForm mnemonic instClass targets) :
    inst.Agrees inst' ↔ inst.PlainForm mnemonic instClass targets ∧
      ∀ state, inst'.predicateIn state = inst.predicateIn state := by
  constructor
  · intro hagrees
    exact ⟨⟨hagrees.mnemonic ▸ h.mnemonic, hagrees.instClass ▸ h.instClass,
      hagrees.operands ▸ h.operands, hagrees.targets ▸ h.targets⟩, hagrees.predicate⟩
  · rintro ⟨hform, hpredicate⟩
    exact ⟨h.mnemonic.trans hform.mnemonic.symm, h.instClass.trans hform.instClass.symm, hpredicate,
      h.operands.trans hform.operands.symm, h.targets.trans hform.targets.symm⟩

/-! ## The displacement of a branch -/

/-- The first operand is a relative one with the displacement. -/
def Inst.LeadsWith (inst : Inst) (disp : BitVec 64) : Prop :=
  ∃ o, inst.leadingTarget = some o ∧ o.imm = disp

theorem Inst.leadsWith_iff {inst : Inst} {disp disp' : BitVec 64} (h : inst.LeadsWith disp) :
    inst.LeadsWith disp' ↔ disp = disp' := by
  obtain ⟨o, hlead, rfl⟩ := h
  constructor
  · rintro ⟨o', hlead', rfl⟩
    rw [hlead] at hlead'
    cases hlead'
    rfl
  · rintro rfl
    exact ⟨o, hlead, rfl⟩

theorem Inst.LeadsWith.withMetadata {inst : Inst} {disp : BitVec 64} (h : inst.LeadsWith disp)
    (tables : Tables) : (applyOperandMetadata tables inst).LeadsWith disp := by
  obtain ⟨o, hlead, rfl⟩ := h
  obtain ⟨hhead, hkind⟩ := Option.filter_eq_some_iff.1 hlead
  refine ⟨o.withInfos (tables.operandInfos inst.arch inst.id), ?_, Operand.withInfos_imm _ _⟩
  rw [Inst.leadingTarget, applyOperandMetadata, List.head?_map, hhead, Option.map_some,
    Option.filter_some, if_pos (by rwa [Operand.withInfos_kind])]

/-! ## The target of a branch -/

/-- The one target of a branch is recorded. A 0 also stands for none: then the displacement counts,
from the given number of bytes behind the start of the instruction on. -/
def Inst.HoldsTarget (inst : Inst) (size : Nat) : Prop :=
  ∃ o, inst.targetOperands = [o] ∧
    (o.absTarget = 0 → o.imm = 0 ∨ inst.address + BitVec.ofNat 64 size + o.imm = 0)

theorem targetOperands_of_leadingTarget {inst : Inst} {o : Operand}
    (h : inst.leadingTarget = some o) :
    ∃ rest, inst.targetOperands = o :: rest := by
  obtain ⟨hhead, hkind⟩ := Option.filter_eq_some_iff.1 h
  obtain ⟨rest, hops⟩ := List.head?_eq_some_iff.1 hhead
  refine ⟨rest.filter (·.kind == .pcRel), ?_⟩
  rw [Inst.targetOperands, hops, List.filter_cons, if_pos hkind]

theorem holdsTarget_iff {inst : Inst} {o : Operand} {target : BitVec 64} {size : Nat}
    (hlead : inst.leadingTarget = some o)
    (htarget : target = if o.absTarget ≠ 0 ∨ o.imm = 0 then o.absTarget
      else inst.address + BitVec.ofNat 64 size + o.imm) :
    inst.targetOperands.map (·.absTarget) = [target] ↔ inst.HoldsTarget size := by
  obtain ⟨rest, hops⟩ := targetOperands_of_leadingTarget hlead
  have hone : (o :: rest).map (·.absTarget) = [target] ↔ rest = [] ∧ o.absTarget = target := by
    rw [List.map_cons, List.cons_eq_cons, List.map_eq_nil_iff, and_comm]
  have htakes : o.absTarget = target ↔
      (o.absTarget = 0 → o.imm = 0 ∨ inst.address + BitVec.ofNat 64 size + o.imm = 0) := by
    rw [htarget]
    split
    · rename_i hrecorded
      refine iff_of_true rfl fun hzero => ?_
      exact .inl (hrecorded.resolve_left fun hne => hne hzero)
    · rename_i hnone
      rw [not_or, not_not] at hnone
      rw [hnone.1]
      constructor
      · intro heq _
        exact .inr heq.symm
      · intro h
        exact ((h rfl).resolve_left hnone.2).symm
  unfold Inst.HoldsTarget
  rw [hops, hone, htakes]
  constructor
  · rintro ⟨hnil, hheld⟩
    exact ⟨o, by rw [hnil], hheld⟩
  · rintro ⟨o', heq, hheld⟩
    cases heq
    exact ⟨rfl, hheld⟩

end AsmKit
