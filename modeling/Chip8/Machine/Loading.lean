import Chip8.Machine.Basic

/-!
Loading a program: the whole machine starts afresh, with the font at the start of
memory and the program at the start of the program area. A program that does not
fit is refused before anything else is done.

* `Machine.load`: the font and the program are stored in a machine that was reset;
* `loadedMemory`: the memory that a program finds, and `byte_loadedMemory`, its
  bytes.
-/

namespace Chip8

/-- The memory that a program finds: the font, the program, and zeros. -/
def loadedMemory (program : List UInt8) : Memory :=
  (Memory.blank.overwrite Font.start Font.bytes).overwrite programStart program

theorem byte_loadedMemory (program : List UInt8) (h : program.length ≤ programCapacity)
    (a : Nat) :
    (loadedMemory program).byte a =
      if a < 80 then Font.bytes.getD a 0
      else if programStart ≤ a ∧ a < programStart + program.length then
        program.getD (a - programStart) 0
      else 0 := by
  have hp : programStart + program.length ≤ memorySize :=
    programCapacity_add ▸ Nat.add_le_add_left h programStart
  have hf : Font.start + Font.bytes.length ≤ memorySize := by decide
  rw [loadedMemory, Memory.byte_overwrite _ _ _ _ hp, Memory.byte_overwrite _ _ _ _ hf,
    Memory.byte_blank]
  have hl : Font.bytes.length = 80 := rfl
  have hs : Font.start = 0 := rfl
  have hq : programStart = 512 := rfl
  simp only [hl, hs, hq, Nat.zero_add, Nat.zero_le, true_and, Nat.sub_zero]
  split
  · next h1 =>
    rw [if_neg (show ¬ a < 80 by omega)]
  · next h1 => rfl

namespace Machine

variable [RandomSource]

/-- Everything as at the start, with nothing in memory. The random bytes and their
seed stay. -/
def reset (m : Machine) : Machine :=
  { m with
    pc := UInt16.ofNat programStart
    registers := Vector.replicate registerCount 0
    index := 0
    memory := .blank
    stack := .blank
    screen := .blank
    timers := .stopped
    key := none }

/-- Starts the random bytes anew if they have a seed. -/
def reseed (m : Machine) : Machine :=
  { m with random := freshRandom m.seed m.random }

/-- Loads a program into the machine, ready to run. -/
def load (m : Machine) (program : List UInt8) : Except Fault Unit × Machine :=
  if programCapacity < program.length then (.error (.oversizedProgram program.length), m)
  else
    match m.reset.store Font.start Font.bytes with
    | (.error f, m) => (.error f, m)
    | (.ok (), m) =>
      match m.store programStart program with
      | (.error f, m) => (.error f, m)
      | (.ok (), m) => (.ok (), m.reseed)

/-- Loads a program that is given as words. -/
def loadWords (m : Machine) (words : List UInt16) : Except Fault Unit × Machine :=
  m.load (Memory.bytesOfWords words)

end Machine

end Chip8
