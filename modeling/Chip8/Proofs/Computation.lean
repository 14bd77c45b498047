import Chip8.Host.Random
import Chip8.Proofs.Bounds
import Chip8.Proofs.Changes

/-!
Computations on registers, told by integers.

An instruction that computes reads its operands, gives a number, and leaves the remainder of that
number by 256 in a register. Five of the nine computations on two registers write a flag after
that, which says what the remainder does not: that a sum is more than a byte holds, that a
difference is not negative, or which bit was shifted out. So a result for the flag register is
lost. Nothing else about the operands matters: they may be one register, and either may be the flag
register.

* `Arithmetic.integer`, `Arithmetic.Raises`: what is computed, and when the flag is set;
* `toNat_result`, `flag?_eq`: the bytes that the machine works with agree with these;
* `toNat_register_compute`: every register after a computation;
* `computes_over_integers`: the instructions that compute.
-/

namespace Chip8

/-! ### Numbers -/

lemma toNat_flag (p : Prop) [Decidable p] : (flag p).toNat = if p then 1 else 0 := by
  rw [flag]
  split <;> rfl

namespace Arithmetic

/-- The number that a computation gives, from the numbers in `VX` and `VY`. -/
def integer (op : Arithmetic) (x y : Nat) : Int :=
  match op with
  | .assign => y
  | .or => (x ||| y : Nat)
  | .and => (x &&& y : Nat)
  | .xor => (x ^^^ y : Nat)
  | .add => x + y
  | .sub => x - y
  | .shiftRight => x / 2
  | .subFrom => y - x
  | .shiftLeft => 2 * x

/-- The computation writes a flag. -/
def WritesFlag : Arithmetic → Prop
  | .add | .sub | .shiftRight | .subFrom | .shiftLeft => True
  | .assign | .or | .and | .xor => False

instance : DecidablePred WritesFlag
  | .add | .sub | .shiftRight | .subFrom | .shiftLeft => isTrue trivial
  | .assign | .or | .and | .xor => isFalse id

/-- The flag is set: a sum is more than a byte holds, a difference is not negative, or the bit that
is shifted out is a one. -/
def Raises (op : Arithmetic) (x y : Nat) : Prop :=
  match op with
  | .add => 255 < x + y
  | .sub => y ≤ x
  | .shiftRight => x % 2 = 1
  | .subFrom => x ≤ y
  | .shiftLeft => 128 ≤ x
  | .assign | .or | .and | .xor => False

instance (op : Arithmetic) (x y : Nat) : Decidable (op.Raises x y) :=
  match op with
  | .add => inferInstanceAs (Decidable (255 < x + y))
  | .sub => inferInstanceAs (Decidable (y ≤ x))
  | .shiftRight => inferInstanceAs (Decidable (x % 2 = 1))
  | .subFrom => inferInstanceAs (Decidable (x ≤ y))
  | .shiftLeft => inferInstanceAs (Decidable (128 ≤ x))
  | .assign | .or | .and | .xor => isFalse id

lemma toNat_emod (v : UInt8) : (v.toNat : Int) % 256 = v.toNat := by
  have hv := v.toNat_lt
  omega

/-- **A result is the number that is computed, up to multiples of 256.** -/
theorem toNat_result (op : Arithmetic) (x y : UInt8) :
    ((op.result x y).toNat : Int) = op.integer x.toNat y.toNat % 256 := by
  have hx := x.toNat_lt
  have hy := y.toNat_lt
  -- assigning and the bitwise operations stay below 256, so the remainder changes nothing;
  -- the others wrap around just as it does
  cases op with
  | assign => exact (toNat_emod y).symm
  | or =>
    show ((x ||| y).toNat : Int) = ((x.toNat ||| y.toNat : Nat) : Int) % 256
    rw [← UInt8.toNat_or, toNat_emod]
  | and =>
    show ((x &&& y).toNat : Int) = ((x.toNat &&& y.toNat : Nat) : Int) % 256
    rw [← UInt8.toNat_and, toNat_emod]
  | xor =>
    show ((x ^^^ y).toNat : Int) = ((x.toNat ^^^ y.toNat : Nat) : Int) % 256
    rw [← UInt8.toNat_xor, toNat_emod]
  | add =>
    show ((x + y).toNat : Int) = (x.toNat + y.toNat : Int) % 256
    rw [UInt8.toNat_add]
    omega
  | sub =>
    show ((x - y).toNat : Int) = (x.toNat - y.toNat : Int) % 256
    rw [UInt8.toNat_sub]
    omega
  | shiftRight =>
    show ((x >>> 1).toNat : Int) = (x.toNat : Int) / 2 % 256
    rw [UInt8.toNat_shiftRight]
    show ((x.toNat >>> 1 : Nat) : Int) = _
    rw [Nat.shiftRight_eq_div_pow]
    omega
  | subFrom =>
    show ((y - x).toNat : Int) = (y.toNat - x.toNat : Int) % 256
    rw [UInt8.toNat_sub]
    omega
  | shiftLeft =>
    show ((x <<< 1).toNat : Int) = 2 * (x.toNat : Int) % 256
    rw [UInt8.toNat_shiftLeft]
    show ((x.toNat <<< 1 % 256 : Nat) : Int) = _
    rw [Nat.shiftLeft_eq]
    omega

lemma and_one_eq_flag (x : UInt8) : x &&& 1 = flag (x.toNat % 2 = 1) := by
  apply UInt8.toNat_inj.1
  rw [UInt8.toNat_and, toNat_flag]
  show x.toNat &&& 1 = _
  rw [Nat.and_one_is_mod]
  split <;> omega

lemma shiftRight_seven_eq_flag (x : UInt8) : x >>> 7 = flag (128 ≤ x.toNat) := by
  have hx := x.toNat_lt
  apply UInt8.toNat_inj.1
  rw [UInt8.toNat_shiftRight, toNat_flag]
  show x.toNat >>> 7 = _
  rw [Nat.shiftRight_eq_div_pow]
  split <;> omega

/-- **The flags of the five computations that write one.** -/
theorem flag?_eq (op : Arithmetic) (x y : UInt8) :
    op.flag? x y = if op.WritesFlag then some (flag (op.Raises x.toNat y.toNat)) else none := by
  cases op with
  | shiftRight => exact congrArg some (and_one_eq_flag x)
  | shiftLeft => exact congrArg some (shiftRight_seven_eq_flag x)
  | assign | or | and | xor | add | sub | subFrom => rfl

end Arithmetic

namespace Machine

section Source

variable [RandomSource] {m : Machine} {i : Instruction}

/-! ### Registers -/

/-- **Every register after a computation**: the flag register has the flag if there is one, and the
register of the result has the result if it is not the flag register then. -/
theorem toNat_register_compute (m : Machine) (op : Arithmetic) (x y r : Fin registerCount) :
    (((m.compute op x y).register r).toNat : Int) =
      if op.WritesFlag ∧ r = flagRegister then
        if op.Raises (m.register x).toNat (m.register y).toNat then 1 else 0
      else if r = x then op.integer (m.register x).toNat (m.register y).toNat % 256
      else (m.register r).toNat := by
  have hresult := op.toNat_result (m.register x) (m.register y)
  by_cases hflag : op.WritesFlag
  · rw [compute, Arithmetic.flag?_eq, if_pos hflag]
    show (((setRegister _ _ _).register r).toNat : Int) = _
    rw [register_setRegister, register_setRegister]
    by_cases hr : r = flagRegister
    · -- the flag is written last, so it stays also where the result went
      rw [if_pos hr, if_pos ⟨hflag, hr⟩, toNat_flag]
      split <;> rfl
    · have hno : ¬ (op.WritesFlag ∧ r = flagRegister) := fun h => hr h.2
      rw [if_neg hr, if_neg hno]
      split
      · exact hresult
      · rfl
  · rw [compute, Arithmetic.flag?_eq, if_neg hflag, if_neg fun h => hflag h.1]
    show (((setRegister _ _ _).register r).toNat : Int) = _
    rw [register_setRegister]
    split
    · exact hresult
    · rfl

/-! ### Cycles -/

lemma step_of_arithmetic (hf : m.fetch = .ok i) {op : Arithmetic}
    (hop : i.opcode = .arithmetic op) :
    m.step = (.ok .ran, { m.compute op i.x i.y with pc := m.pc + 2 }) := by
  have hx : m.execute i = (.ok .next, m.compute op i.x i.y) := by
    rw [execute, hop]
  rw [step_of_execute hf hx, hop]
  rfl

lemma step_of_addByte (hf : m.fetch = .ok i) (hop : i.opcode = .addByte) :
    m.step = (.ok .ran, { m.setRegister i.x (m.register i.x + i.nn) with pc := m.pc + 2 }) := by
  have hx : m.execute i = (.ok .next, m.setRegister i.x (m.register i.x + i.nn)) := by
    rw [execute, hop]
  rw [step_of_execute hf hx, hop]
  rfl

lemma step_of_advanceIndex (hf : m.fetch = .ok i) (hop : i.opcode = .advanceIndex) :
    m.step = (.ok .ran, { m.indexAdvanced (m.register i.x) with pc := m.pc + 2 }) := by
  have hx : m.execute i = (.ok .next, m.indexAdvanced (m.register i.x)) := by
    rw [execute, hop]
  rw [step_of_execute hf hx, hop]
  rfl

/-- **Instructions that compute, over the integers.** A cycle with one of them succeeds. Of the
registers it changes that of the result, which gets the remainder of the number by 256, and then the
flag register, for those that write a flag, which gets one or zero; the operands are those from
before the cycle. Adding a byte writes no flag. The index counts up to 65536, and its flag tells
that it has left the address space, which is sooner. Nothing else changes. -/
theorem computes_over_integers (m : Machine) (i : Instruction) (hf : m.fetch = .ok i) :
    (∀ op, i.opcode = .arithmetic op →
      m.step.1 = .ok .ran ∧
      m.step.2 = { m with registers := m.step.2.registers, pc := m.pc + 2 } ∧
      ∀ r, ((m.step.2.register r).toNat : Int) =
        if op.WritesFlag ∧ r = flagRegister then
          if op.Raises (m.register i.x).toNat (m.register i.y).toNat then 1 else 0
        else if r = i.x then op.integer (m.register i.x).toNat (m.register i.y).toNat % 256
        else (m.register r).toNat) ∧
    (i.opcode = .addByte →
      m.step.1 = .ok .ran ∧
      m.step.2 = { m with registers := m.step.2.registers, pc := m.pc + 2 } ∧
      ∀ r, (m.step.2.register r).toNat =
        if r = i.x then ((m.register i.x).toNat + i.nn.toNat) % 256 else (m.register r).toNat) ∧
    (i.opcode = .advanceIndex →
      m.step.1 = .ok .ran ∧
      m.step.2 =
        { m with
          registers := m.step.2.registers, index := m.step.2.index, pc := m.pc + 2 } ∧
      m.step.2.index.toNat = (m.index.toNat + (m.register i.x).toNat) % 65536 ∧
      ∀ r, (m.step.2.register r).toNat =
        if r = flagRegister then
          if 0xFFF < m.index.toNat + (m.register i.x).toNat then 1 else 0
        else (m.register r).toNat) := by
  refine ⟨?_, ?_, ?_⟩
  · intro op hop
    -- the registers are settled one by one, and all else is the same whatever they are
    obtain ⟨registers, hframe⟩ := exists_compute_eq m op i.x i.y
    rw [step_of_arithmetic hf hop]
    refine ⟨rfl, ?_, toNat_register_compute m op i.x i.y⟩
    rw [hframe]
  · intro hop
    rw [step_of_addByte hf hop]
    refine ⟨rfl, rfl, ?_⟩
    intro r
    show ((m.setRegister i.x (m.register i.x + i.nn)).register r).toNat = _
    rw [register_setRegister]
    split
    · exact UInt8.toNat_add ..
    · rfl
  · intro hop
    rw [step_of_advanceIndex hf hop]
    refine ⟨rfl, rfl, ?_, ?_⟩
    · show (m.index + (m.register i.x).toUInt16).toNat = _
      rw [UInt16.toNat_add, UInt8.toNat_toUInt16]
    · intro r
      show ((setRegister _ _ _).register r).toNat = _
      rw [register_setRegister]
      split
      · exact toNat_flag _
      · rfl

end Source

/-- A machine with a program at its first address, after some cycles. -/
def running (program : List UInt8) (cycles : Nat) : Machine :=
  { blank (some 7) (.ofSeed 7) with
    pc := 0, memory := Memory.blank.overwrite 0 program }.after (.replicate cycles .step)

/-- A program that computes on the flag register: a sum, a difference with itself, a byte, and the
index. -/
def flagging : List UInt8 :=
  [0x6F, 0xC8, 0x61, 0x64, 0x8F, 0x14, 0x8F, 0xF5, 0x7F, 0xFE, 0xAF, 0xFF, 0xFF, 0x1E]

/-- The sum 300 and the difference 0 are lost to their flags, and the other operand stays. A byte is
added to the flag without a new one, and the index is moved on by the register that its flag goes to
afterwards. -/
theorem computes_over_integers_flagging :
    (((running flagging 2).step.2.register flagRegister).toNat : Int) = 1 ∧
    (((running flagging 2).step.2.register 1).toNat : Int) = 100 ∧
    (((running flagging 3).step.2.register flagRegister).toNat : Int) = 1 ∧
    ((running flagging 4).step.2.register flagRegister).toNat = 255 ∧
    (running flagging 6).step.2.index.toNat = 0x10FE ∧
    ((running flagging 6).step.2.register flagRegister).toNat = 1 := by
  obtain ⟨hsum, hdifference, hbyte, hindex⟩ :
      (running flagging 2).fetch = .ok ⟨.arithmetic .add, 0x8F14, by decide⟩ ∧
      (running flagging 3).fetch = .ok ⟨.arithmetic .sub, 0x8FF5, by decide⟩ ∧
      (running flagging 4).fetch = .ok ⟨.addByte, 0x7FFE, by decide⟩ ∧
      (running flagging 6).fetch = .ok ⟨.advanceIndex, 0xFF1E, by decide⟩ := by
    decide +kernel
  obtain ⟨-, -, hadd⟩ := (computes_over_integers _ _ hsum).1 .add rfl
  obtain ⟨-, -, hsub⟩ := (computes_over_integers _ _ hdifference).1 .sub rfl
  obtain ⟨-, -, hplus⟩ := (computes_over_integers _ _ hbyte).2.1 rfl
  obtain ⟨-, -, hmoved, hflag⟩ := (computes_over_integers _ _ hindex).2.2 rfl
  refine ⟨(hadd _).trans ?_, (hadd _).trans ?_, (hsub _).trans ?_, (hplus _).trans ?_,
    hmoved.trans ?_, (hflag _).trans ?_⟩ <;> decide +kernel

end Machine

end Chip8
