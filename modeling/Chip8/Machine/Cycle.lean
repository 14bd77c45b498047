import Chip8.Machine.Execution

/-!
The instruction cycle: fetch the word at the program counter, decode it, execute
the instruction, move the program counter, and report to whoever drives the
machine what kind of thing has happened.

A cycle works on the machine in place, and so its report, or its fault, comes with
the machine that it leaves.

* `Machine.step`: one cycle;
* `Machine.run`: a number of cycles, or as many as succeed;
* `runFrom_add`: a run is a run of its first part, followed by a run of the rest.
-/

namespace Chip8

/-- What a cycle reports. -/
inductive Signal where
  /-- Nothing that concerns the driver. -/
  | ran
  /-- The program continues at another address. -/
  | jumped
  /-- The screen may have changed. -/
  | drew
  /-- The sound timer was set. -/
  | sounded
  /-- The program waits for a key. -/
  | awaiting
  deriving DecidableEq, Repr

/-- The report on an executed instruction. -/
def Signal.of (op : Opcode) : Motion → Signal
  | .jump _ => jumped
  | .hold => awaiting
  | .next | .skip =>
    match op with
    | .clearScreen | .drawSprite => drew
    | .startSound => sounded
    | _ => ran

namespace Machine

variable [RandomSource]

/-- The instruction at the program counter. -/
def fetch (m : Machine) : Except Fault Instruction :=
  match m.memory.readWord m.pc.toNat with
  | .ok word => Instruction.decode word
  | .error f => .error f

/-- What is fetched is an instruction whose word lies at the program counter, within
memory. -/
theorem fetch_eq_ok_iff {m : Machine} {i : Instruction} :
    m.fetch = .ok i ↔ m.pc.toNat + 2 ≤ memorySize ∧
      Memory.wordOf (m.memory.byte m.pc.toNat) (m.memory.byte (m.pc.toNat + 1)) = i.word := by
  rw [← Memory.readWord_eq_ok_iff, fetch]
  cases m.memory.readWord m.pc.toNat with
  | error f => simp
  | ok w =>
    rw [Except.ok.injEq, eq_comm (a := w)]
    exact Instruction.decode_eq_ok_iff

/-- The address behind an instruction that was fetched does not wrap around. -/
theorem toNat_pc_add_two {m : Machine} {i : Instruction} (h : m.fetch = .ok i) :
    (m.pc + 2).toNat = m.pc.toNat + 2 := by
  have hle : m.pc.toNat + 2 ≤ 4096 := (fetch_eq_ok_iff.1 h).1
  rw [UInt16.toNat_add]
  show (m.pc.toNat + 2) % 65536 = m.pc.toNat + 2
  omega

/-- Executes an instruction that was fetched, and moves the program counter unless
the instruction failed. -/
def perform (m : Machine) (i : Instruction) : Except Fault Signal × Machine :=
  match m.execute i with
  | (.ok motion, m') => (.ok (.of i.opcode motion), { m' with pc := motion.target m.pc })
  | (.error f, m') => (.error f, m')

/-- One instruction cycle. -/
def step (m : Machine) : Except Fault Signal × Machine :=
  match m.fetch with
  | .ok i => m.perform i
  | .error f => (.error f, m)

/-- A number of cycles after one that reported `last`: the report of the last
cycle, or the first fault, and the state that is reached. -/
def runFrom (last : Signal) : Nat → Machine → Except Fault Signal × Machine
  | 0, m => (.ok last, m)
  | n + 1, m =>
    match m.step with
    | (.ok signal, m') => runFrom signal n m'
    | (.error f, m') => (.error f, m')

/-- A number of cycles, up to the first that fails. -/
def run (m : Machine) (n : Nat) : Except Fault Signal × Machine :=
  runFrom .ran n m

/-- A run is a run of its first part, followed by a run of the rest unless the
first part failed. -/
theorem runFrom_add (last : Signal) (k n : Nat) (m : Machine) :
    runFrom last (k + n) m =
      match runFrom last k m with
      | (.ok signal, m') => runFrom signal n m'
      | (.error f, m') => (.error f, m') := by
  induction k generalizing last m with
  | zero => simp [runFrom]
  | succ k ih =>
    rw [show k + 1 + n = (k + n) + 1 by omega, runFrom, runFrom]
    rcases m.step with ⟨_ | signal, m'⟩
    · rfl
    · exact ih signal m'

end Machine

end Chip8
