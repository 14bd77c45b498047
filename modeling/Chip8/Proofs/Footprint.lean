import Mathlib.Tactic.Common
import Chip8.Machine.Cycle

/-!
What an instruction leaves alone.

* `Instruction.Keeps`: the parts of the machine that an instruction does not work on;
* `execute_keeps`: an instruction keeps them, also when it fails;
* `exists_perform_eq`: performing it moves the program counter on top of that.
-/

namespace Chip8

variable [RandomSource]

/-- The second machine agrees with the first in every part that the instruction does not
work on. -/
structure Instruction.Keeps (i : Instruction) (m m' : Machine) : Prop where
  pc : m'.pc = m.pc
  index : i.opcode ≠ .setIndex → i.opcode ≠ .advanceIndex → i.opcode ≠ .locateDigit →
    m'.index = m.index
  memory : i.opcode ≠ .storeDecimal → i.opcode ≠ .storeRegisters → m'.memory = m.memory
  stack : i.opcode ≠ .leave → i.opcode ≠ .call → m'.stack = m.stack
  screen : i.opcode ≠ .clearScreen → i.opcode ≠ .drawSprite → m'.screen = m.screen
  delay : i.opcode ≠ .startDelay → m'.timers.delay = m.timers.delay
  sound : i.opcode ≠ .startSound → m'.timers.sound = m.timers.sound
  key : m'.key = m.key
  random : i.opcode ≠ .randomByte → m'.random = m.random
  seed : m'.seed = m.seed

namespace Machine

lemma exists_compute_eq (m : Machine) (op : Arithmetic) (x y : Fin registerCount) :
    ∃ registers, m.compute op x y = { m with registers } := by
  rw [compute]
  cases op.flag? (m.register x) (m.register y) <;> exact ⟨_, rfl⟩

/-- A store changes memory only, which is what the two storing instructions work on. -/
lemma store_keeps (m : Machine) {i : Instruction} (a : Nat) (data : List UInt8)
    (op : i.opcode = .storeDecimal ∨ i.opcode = .storeRegisters) :
    i.Keeps m (m.store a data).2 := by
  rw [store]
  cases m.memory.writeSlice a data with
  | error f => constructor <;> simp
  | ok memory =>
    constructor
    case memory => exact fun hd hr => absurd op (by simp [hd, hr])
    all_goals simp

/-- **An instruction keeps what it does not work on**, also when it fails. -/
theorem execute_keeps (m : Machine) (i : Instruction) : i.Keeps m (m.execute i).2 := by
  rw [execute]
  cases op : i.opcode
  case arithmetic a =>
    obtain ⟨registers, h⟩ := exists_compute_eq m a i.x i.y
    simp only [h]
    constructor <;> simp
  case storeDecimal => exact store_keeps m _ _ (.inl op)
  case storeRegisters => exact store_keeps m _ _ (.inr op)
  case leave => cases m.stack.pop <;> constructor <;> simp [op]
  case call => cases m.stack.push (m.pc + 2) <;> constructor <;> simp [op]
  case drawSprite =>
    cases m.memory.slice m.index.toNat i.n <;> constructor <;>
      simp [op, drawn, setRegister, Processor.setRegister]
  case fetchRegisters =>
    cases m.memory.slice m.index.toNat (i.x.val + 1) <;> constructor <;>
      simp [op, setFirstRegisters]
  case awaitKey => cases m.key <;> constructor <;> simp [op, setRegister, Processor.setRegister]
  all_goals constructor <;> simp [op, setRegister, Processor.setRegister, indexAdvanced]

/-- Performing an instruction leaves what executing it leaves, the program counter apart. -/
lemma exists_perform_eq (m : Machine) (i : Instruction) :
    ∃ pc, (m.perform i).2 = { (m.execute i).2 with pc } := by
  rw [perform]
  rcases m.execute i with ⟨_ | motion, m'⟩
  · exact ⟨m'.pc, rfl⟩
  · exact ⟨motion.target m.pc, rfl⟩

end Machine

end Chip8
