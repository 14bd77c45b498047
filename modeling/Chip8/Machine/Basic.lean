import Chip8.Font
import Chip8.Key
import Chip8.Instruction.Basic
import Chip8.Memory
import Chip8.Random
import Chip8.ReturnStack
import Chip8.Screen
import Chip8.Timers

/-!
The state of the machine.

The processor is what a program works on with most of its instructions: program
counter, registers, index, memory, return stack and screen. The machine adds what
reaches a program through a few instructions only: the timers, the key that is
held down, and the random bytes of a source that stays open.
-/

namespace Chip8

/-- The part of the machine that a program works on. -/
structure Processor where
  /-- The address of the next instruction. -/
  pc : UInt16
  registers : Vector UInt8 registerCount
  /-- The address that memory instructions refer to. -/
  index : UInt16
  memory : Memory
  stack : ReturnStack
  screen : Screen
  deriving DecidableEq

namespace Processor

/-- Everything zero, ready to start at the program area. -/
def blank : Processor where
  pc := UInt16.ofNat programStart
  registers := Vector.replicate registerCount 0
  index := 0
  memory := .blank
  stack := .blank
  screen := .blank

/-- The value of a register. -/
def register (p : Processor) (r : Fin registerCount) : UInt8 :=
  p.registers[r]

/-- Sets a register. -/
def setRegister (p : Processor) (r : Fin registerCount) (v : UInt8) : Processor :=
  { p with registers := p.registers.set r v }

/-- A register that is set has its new value, and the others keep theirs. -/
theorem register_setRegister (p : Processor) (r s : Fin registerCount) (v : UInt8) :
    (p.setRegister r v).register s = if s = r then v else p.register s := by
  simp only [register, setRegister, Fin.getElem_fin, Vector.getElem_set]
  by_cases h : s = r
  · simp [h]
  · have : (r : Nat) ≠ s := fun h' => h (Fin.ext h'.symm)
    simp [h, this]

end Processor

variable [RandomSource]

/-- The machine. -/
structure Machine extends Processor where
  timers : Timers
  /-- The key that is held down; at most one counts. -/
  key : Option Key
  random : Generator
  /-- The seed from which every load starts the random bytes anew. -/
  seed : Option UInt64

namespace Machine

/-- The random bytes of a machine that starts: those of its seed, or the given
ones if it has none. -/
def freshRandom (seed : Option UInt64) (given : Generator) : Generator :=
  seed.elim given .ofSeed

/-- A machine with nothing in it. The generator counts only without a seed. -/
def blank (seed : Option UInt64) (given : Generator) : Machine where
  toProcessor := .blank
  timers := .stopped
  key := none
  random := freshRandom seed given
  seed := seed

/-- Holds a key down, or none. -/
def press (m : Machine) (key : Option Key) : Machine :=
  { m with key := key }

/-- Counts both timers down. -/
def tick (m : Machine) : Machine :=
  { m with timers := m.timers.tick }

/-- Sets a register. -/
def setRegister (m : Machine) (r : Fin registerCount) (v : UInt8) : Machine :=
  { m with toProcessor := m.toProcessor.setRegister r v }

/-- Stores a run of bytes in the memory of the machine. -/
def store (m : Machine) (a : Nat) (data : List UInt8) : Except Fault Unit × Machine :=
  match m.memory.writeSlice a data with
  | .ok memory => (.ok (), { m with memory })
  | .error f => (.error f, m)

end Machine

end Chip8
