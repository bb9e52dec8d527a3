import AsmKit.Analysis.Relations
import AsmKit.Isa.A32
import AsmKit.Isa.A64
import AsmKit.Lib.Widths

/-!
# The effects of the value analysis, carried out

A list of effects as a program: every reference is a place or a constant of a stated width, and the
effects are carried out in order.
-/

namespace AsmKit

open LittleEndian Widths

/-! ## Places -/

inductive Place where
  | operand (i : Nat)
  | register (id : Nat)
  | pc
  | temporary (i : Nat)
  | controlTarget
deriving DecidableEq, Repr

/-- What every place holds. -/
abbrev Values := Place → BitVec 64

/-- The registers by their id, and the memory an operand names, from its first byte on. -/
structure Context where
  reg : Nat → BitVec 64
  mem : MemoryOperand → BitVec 64

def Operand.holds (context : Context) (o : Operand) : BitVec 64 :=
  match o.kind with
  | .reg => context.reg o.reg
  | .mem => context.mem o.mem
  | _ => o.imm

theorem Operand.holds_reg {o : Operand} (h : o.kind = .reg) (context : Context) :
    o.holds context = context.reg o.reg := by
  simp only [holds, h]

/-- The values before the instruction. -/
def Inst.values (inst : Inst) (context : Context) : Values
  | .operand i => (inst.operands.getD i .empty).holds context
  | .register id => context.reg id
  | .pc => inst.address
  | .temporary _ | .controlTarget => 0

theorem Inst.values_operand {inst : Inst} {i : Nat} {o : Operand} (h : inst.operands[i]? = some o)
    (context : Context) : inst.values context (.operand i) = o.holds context := by
  rw [Inst.values, List.getD_eq_getElem?_getD, h]
  rfl

theorem Inst.values_operand0 {inst : Inst} {o : Operand} {rest : List Operand}
    (hops : inst.operands = o :: rest) (context : Context) :
    inst.values context (.operand 0) = o.holds context :=
  Inst.values_operand (by rw [hops]; rfl) context

/-! ## Processors -/

/-- What a processor has in the registers and the memory an operand names. -/
def Arm.context (s : Isa.A32.Cpu) : Context :=
  let reg (id : Nat) : BitVec 32 := if id = 0 then 0 else s.get (BitVec.ofNat 4 (id - Arm.Reg.r0))
  { reg := fun id => (reg id).setWidth 64
    mem := fun m => readWord 64 s.mem
      (reg m.base + reg m.index * m.scale.setWidth 32 + m.displacement.setWidth 32) 8 }

theorem Arm.context_reg (s : Isa.A32.Cpu) (n : BitVec 32) :
    (if Arm.Reg.r0 + n.toNat = 0 then 0 else s.get (BitVec.ofNat 4 (Arm.Reg.r0 + n.toNat - Arm.Reg.r0))) =
      s.get (n.setWidth 4) := by
  rw [if_neg (by simp [Arm.Reg.r0]), Nat.add_sub_cancel_left, BitVec.ofNat_toNat]

/-- The register of an id at its full width. Place 31 is the stack pointer, unless the id is the
one of a zero register. -/
def A64.registers (s : Isa.A64.Cpu) (id : Nat) : BitVec 64 :=
  if id = Reg.wzr ∨ id = Reg.xzr then 0
  else if id ≤ Reg.wsp then s.x (BitVec.ofNat 5 (id - Reg.w0))
  else s.x (BitVec.ofNat 5 (id - Reg.x0))

theorem A64.registers_tdGprId (s : Isa.A64.Cpu) (n : BitVec 5) {width : Nat}
    (hwidth : width = 32 ∨ width = 64) :
    A64.registers s (tdGprId n.toNat width false) = s.get n := by
  have hlt : n.toNat < 32 := n.isLt
  have hof : BitVec.ofNat 5 n.toNat = n := by rw [BitVec.ofNat_toNat, BitVec.setWidth_eq]
  rw [Isa.A64.Cpu.get]
  split
  · -- Register 31 is a zero register at either width.
    rename_i hn
    subst hn
    rcases hwidth with rfl | rfl <;> rfl
  · rename_i hn
    have hne : n.toNat ≠ 31 := fun h => hn (BitVec.eq_of_toNat_eq h)
    rcases hwidth with rfl | rfl
    · have hid : tdGprId n.toNat 32 false = Reg.w0 + n.toNat := by
        rw [tdGprId, if_neg (by omega), if_pos rfl, if_pos (by omega)]
      rw [hid, registers, if_neg (by simp only [Reg.w0, Reg.wzr, Reg.xzr]; omega),
        if_pos (by simp only [Reg.w0, Reg.wsp]; omega), Nat.add_sub_cancel_left, hof]
    · have hid : tdGprId n.toNat 64 false = Reg.x0 + n.toNat := by
        simp only [tdGprId, Reg.x0, Reg.fp, Reg.lr, Reg.sp, Reg.xzr]
        split_ifs <;> omega
      rw [hid, registers, if_neg (by simp only [Reg.x0, Reg.wzr, Reg.xzr]; omega),
        if_neg (by simp only [Reg.x0, Reg.wsp]; omega), Nat.add_sub_cancel_left, hof]

/-! ## References -/

def ValueRef.place? (ref : ValueRef) : Option Place :=
  match ref.kind with
  | .operand => some (.operand ref.operandIndex)
  | .register => some (.register ref.registerId)
  | .pc => some .pc
  | .temporary => some (.temporary ref.operandIndex)
  | .controlTarget => some .controlTarget
  | .none | .immediate => none

/-- What a reference stands for, before it is cut to a width. -/
def ValueRef.contents (ref : ValueRef) (σ : Values) : BitVec 64 :=
  match ref.place? with
  | some place => σ place
  | none => ref.immediate

def ValueRef.read (ref : ValueRef) (σ : Values) : BitVec 64 := low ref.width (ref.contents σ)

def ValueRef.write (ref : ValueRef) (value : BitVec 64) (σ : Values) : Values :=
  match ref.place? with
  | some place => Function.update σ place (low ref.width value)
  | none => σ

section

variable {inst : Inst} {i : Nat} {o : Operand} (h : inst.operands[i]? = some o)

include h

theorem valueOperand_width : (valueOperand inst (some i)).width = o.width := by
  simp [valueOperand, h]

theorem valueOperand_contents (σ : Values) :
    (valueOperand inst (some i)).contents σ = σ (.operand i) := by
  simp [valueOperand, h, ValueRef.contents, ValueRef.place?]

theorem valueOperand_write (value : BitVec 64) (σ : Values) :
    (valueOperand inst (some i)).write value σ =
      Function.update σ (.operand i) (low o.width value) := by
  simp [valueOperand, h, ValueRef.write, ValueRef.place?]

end

/-! ## Effects -/

/-- A source without a width is read at the width of the destination. -/
def ValueEffect.source (effect : ValueEffect) (k : Nat) : ValueRef :=
  let ref := effect.sources.getD k {}
  { ref with width := if ref.width = 0 then effect.destination.width else ref.width }

/-- The value an effect gives its destination. The counts of shifts and rotates are taken as the
target takes them, so these have none here. -/
def ValueEffect.result (effect : ValueEffect) (σ : Values) : Option (BitVec 64) :=
  let x := (effect.source 0).read σ
  let y := (effect.source 1).read σ
  match effect.kind with
  | .copy | .load | .store | .address | .zeroExtend => some x
  | .signExtend => some (signed (effect.source 0).width effect.destination.width x)
  | .add => some (x + y)
  | .sub => some (x - y)
  | .mul => some (x * y)
  | .and => some (x &&& y)
  | .or => some (x ||| y)
  | .xor => some (x ^^^ y)
  | _ => none

/-- A comparison writes nothing. -/
def ValueEffect.step (σ : Values) (effect : ValueEffect) : Option Values :=
  match effect.kind with
  | .compare | .conditionUse => some σ
  | _ => (effect.result σ).map (effect.destination.write · σ)

def evalEffects (effects : List ValueEffect) (σ : Values) : Option Values :=
  effects.foldlM ValueEffect.step σ

/-- The relation of a condition between its two references. -/
def ConditionInfo.taken (condition : ConditionInfo) (σ : Values) : Bool :=
  condition.takenRelation.holds ((condition.left.read σ).setWidth condition.left.width)
    ((condition.right.read σ).setWidth condition.left.width)

/-! ## Reading and writing -/

@[simp] theorem evalEffects_nil (σ : Values) : evalEffects [] σ = some σ := rfl

theorem evalEffects_cons (effect : ValueEffect) (effects : List ValueEffect) (σ : Values) :
    evalEffects (effect :: effects) σ = (effect.step σ).bind (evalEffects effects) := rfl

/-! ## The analysis of a target -/

theorem analyzeInstValues_matches {engine : Engine} {inst : Inst} {control : ControlAnalysis}
    {va : ValueAnalysis} (h : analyzeInstValues engine inst control = .ok va) :
    inst.arch = engine.target.arch ∧ engine.config.mode = inst.mode := by
  unfold analyzeInstValues at h
  split at h
  · cases h
  · rename_i hmatch
    rw [not_or, not_not, not_not] at hmatch
    exact ⟨by rw [engine.target_arch, hmatch.1], hmatch.2⟩

section

variable {engine : Engine} {inst : Inst} (control : ControlAnalysis)
  (hmode : engine.config.mode = inst.mode)

include hmode

theorem analyzeInstValues_eq_x86 (harch : engine.target.arch = .x86) (hinst : inst.arch = .x86) :
    analyzeInstValues engine inst control = .ok (X86.values inst control
      (if inst.instClass = .load ∨ inst.instClass = .store then emitMemoryEffect inst {} else {})) := by
  simp [analyzeInstValues, ← engine.target_arch, harch, hinst, hmode]

theorem analyzeInstValues_eq_arm (harch : engine.target.arch = .arm) (hinst : inst.arch = .arm) :
    analyzeInstValues engine inst control = .ok (Arm.values inst control
      (if inst.instClass = .load ∨ inst.instClass = .store then emitMemoryEffect inst {} else {})) := by
  simp [analyzeInstValues, ← engine.target_arch, harch, hinst, hmode]

theorem analyzeInstValues_eq_aarch64 (harch : engine.target.arch = .aarch64)
    (hinst : inst.arch = .aarch64) :
    analyzeInstValues engine inst control = .ok (A64.values inst control
      (if inst.instClass = .load ∨ inst.instClass = .store then emitMemoryEffect inst {} else {})) := by
  simp [analyzeInstValues, ← engine.target_arch, harch, hinst, hmode]

end

end AsmKit
