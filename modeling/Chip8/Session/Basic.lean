import Chip8.Log
import Chip8.Machine.Cycle
import Chip8.Machine.Loading

/-!
A machine that is watched: whatever is done with it leaves its events in a log.

An instruction is noted once it is decoded, before it is executed, so also when
it then fails. The log never influences the machine. Main statements:

* `result_step`, `machine_step`: a watched cycle is a cycle;
* `result_run`, `machine_run`: a watched run is a run.
-/

namespace Chip8

variable [RandomSource]

/-- A machine and what has been noted about it. -/
structure Session where
  machine : Machine
  log : Log

namespace Session

/-- Notes an event. -/
def note (s : Session) (e : Event) : Session :=
  { s with log := s.log.record e }

/-- What is noted about a program of `size` bytes that was loaded. -/
def loadEvents (size : Nat) : List Event :=
  (if size % 2 = 1 then [.halfInstruction size] else []) ++ [.loaded size]

/-- Loads a program. -/
def load (s : Session) (program : List UInt8) : Except Fault Unit × Session :=
  match s.machine.load program with
  | (.ok (), machine) => (.ok (), ⟨machine, s.log.recordAll (loadEvents program.length)⟩)
  | (.error f, machine) => (.error f, { s with machine })

/-- Loads a program that is given as words. -/
def loadWords (s : Session) (words : List UInt16) : Except Fault Unit × Session :=
  s.load (Memory.bytesOfWords words)

/-- One instruction cycle. -/
def step (s : Session) : Except Fault Signal × Session :=
  match s.machine.fetch with
  | .error f => (.error f, s)
  | .ok i =>
    let (result, machine) := s.machine.perform i
    (result, ⟨machine, s.log.record (.executing s.machine.pc i)⟩)

/-- A number of cycles after one that reported `last`, up to the first that fails. -/
def runFrom (last : Signal) : Nat → Session → Except Fault Signal × Session
  | 0, s => (.ok last, s)
  | n + 1, s =>
    match s.step with
    | (.ok signal, s') => runFrom signal n s'
    | (.error f, s') => (.error f, s')

/-- A number of cycles, up to the first that fails. -/
def run (s : Session) (n : Nat) : Except Fault Signal × Session :=
  runFrom .ran n s

/-! ### Watching changes nothing -/

/-- A watched cycle reports what the cycle reports. -/
theorem result_step (s : Session) : s.step.1 = s.machine.step.1 := by
  rw [step, Machine.step]
  cases s.machine.fetch <;> rfl

/-- A watched cycle reaches the state that the cycle reaches. -/
theorem machine_step (s : Session) : s.step.2.machine = s.machine.step.2 := by
  rw [step, Machine.step]
  cases s.machine.fetch <;> rfl

theorem result_runFrom (last : Signal) (n : Nat) (s : Session) :
    (runFrom last n s).1 = (Machine.runFrom last n s.machine).1 := by
  induction n generalizing last s with
  | zero => rfl
  | succ n ih =>
    have hr := result_step s
    have hm := machine_step s
    rw [runFrom, Machine.runFrom]
    rcases hs : s.step with ⟨_ | signal, s'⟩ <;> rcases hs' : s.machine.step with ⟨_ | signal', m'⟩
      <;> simp_all

theorem machine_runFrom (last : Signal) (n : Nat) (s : Session) :
    (runFrom last n s).2.machine = (Machine.runFrom last n s.machine).2 := by
  induction n generalizing last s with
  | zero => rfl
  | succ n ih =>
    have hr := result_step s
    have hm := machine_step s
    rw [runFrom, Machine.runFrom]
    rcases hs : s.step with ⟨_ | signal, s'⟩ <;> rcases hs' : s.machine.step with ⟨_ | signal', m'⟩
      <;> simp_all

theorem result_run (s : Session) (n : Nat) : (s.run n).1 = (s.machine.run n).1 :=
  result_runFrom .ran n s

theorem machine_run (s : Session) (n : Nat) : (s.run n).2.machine = (s.machine.run n).2 :=
  machine_runFrom .ran n s

end Session

end Chip8
