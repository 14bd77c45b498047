import Chip8.Proofs.Guarded.Execution
import Chip8.Proofs.History

/-!
The machine on a host that checks every access.

* `step_eq_some`, `runFrom_eq_some`, `load_eq_some`: neither cycles nor runs nor loads make the
  host break down, whatever state the machine is in;
* `operateAll_eq_some`: nor does any history, as long as the host can count to the end of the
  accesses that are asked for from outside.
-/

namespace Chip8.Guarded

variable [RandomSource]

/-! ### Cycles -/

/-- One instruction cycle; the instruction is told to the log before it is executed. -/
def step (m : Machine) : Option (Except Fault Signal × Machine) := do
  match ← readWord m.memory m.pc.toNat with
  | .error f => some (.error f, m)
  | .ok word =>
    match ← decode word with
    | .error f => some (.error f, m)
    | .ok i =>
      let _ ← text i
      match ← execute m i with
      | (.ok motion, m') =>
        some (.ok (.of i.opcode motion), { m' with pc := motion.target m.pc })
      | (.error f, m') => some (.error f, m')

/-- A number of cycles after one that reported `last`, up to the first that fails. -/
def runFrom (last : Signal) : Nat → Machine → Option (Except Fault Signal × Machine)
  | 0, m => some (.ok last, m)
  | n + 1, m => do
    match ← step m with
    | (.ok signal, m') => runFrom signal n m'
    | (.error f, m') => some (.error f, m')

/-- **No cycle makes the host break down**, whatever state the machine is in. -/
theorem step_eq_some (m : Machine) : step m = some m.step := by
  have hpc : m.pc.toNat + 2 < hostLimit := by
    have : m.pc.toNat < 65536 := m.pc.toNat_lt
    exact lt_hostLimit (by omega)
  rw [step, readWord_eq_some hpc, Machine.step, Machine.fetch]
  cases m.memory.readWord m.pc.toNat with
  | error f => rfl
  | ok word =>
    simp only [decode_eq_some, Option.bind_eq_bind, Option.bind_some]
    cases Instruction.decode word with
    | error f => rfl
    | ok i =>
      simp only [text_eq_some, execute_eq_some, Option.bind_some, Machine.perform]
      rcases m.execute i with ⟨f | motion, m'⟩ <;> rfl

lemma runFrom_eq_some (last : Signal) (n : Nat) (m : Machine) :
    runFrom last n m = some (Machine.runFrom last n m) := by
  induction n generalizing last m with
  | zero => rfl
  | succ n ih =>
    rw [runFrom, step_eq_some, Machine.runFrom]
    rcases m.step with ⟨f | signal, m'⟩
    · rfl
    · exact ih signal m'

/-! ### Loading -/

/-- Loads a program; the number of its words is told to the log. -/
def load (m : Machine) (program : List UInt8) : Option (Except Fault Unit × Machine) :=
  if programCapacity < program.length then some (.error (.oversizedProgram program.length), m)
  else do
    match ← store m.reset Font.start Font.bytes with
    | (.error f, m) => some (.error f, m)
    | (.ok (), m) =>
      match ← store m programStart program with
      | (.error f, m) => some (.error f, m)
      | (.ok (), m) => do
        let _ ← sum hostLimit program.length 1
        some (.ok (), m.reseed)

/-- **No load makes the host break down**, whatever the size of the program. -/
theorem load_eq_some (m : Machine) (program : List UInt8) :
    load m program = some (m.load program) := by
  rw [load, Machine.load]
  by_cases h : programCapacity < program.length
  · rw [if_pos h, if_pos h]
  have hfont : Font.start + Font.bytes.length < hostLimit := by decide
  have hsize : program.length ≤ 3584 := Nat.not_lt.1 h
  have hprogram : programStart + program.length < hostLimit := by
    show 512 + program.length < hostLimit
    exact lt_hostLimit (by omega)
  have hwords : program.length + 1 < hostLimit := lt_hostLimit (by omega)
  rw [if_neg h, if_neg h, store_eq_some hfont]
  simp only [Option.bind_eq_bind, Option.bind_some]
  rcases m.reset.store Font.start Font.bytes with ⟨f | _, m⟩
  · rfl
  simp only [store_eq_some hprogram, Option.bind_some]
  rcases m.store programStart program with ⟨f | _, m⟩
  · rfl
  · simp only [sum_eq_some hwords, Option.bind_some]

/-! ### Operations -/

/-- Changes a part of the machine. -/
def edit (m : Machine) : Edit → Option (Except Fault Answer × Machine)
  | .setPc a => some (.ok .done, { m with pc := a })
  | .setIndex a => some (.ok .done, { m with index := a })
  | .setRegister r v => do
    let m ← setRegister m r v
    some (.ok .done, m)
  | .setTimers timers => some (.ok .done, { m with timers })
  | .write a b => do
    let r ← write m.memory a b
    some (Machine.completed (stored m r))
  | .writeWord a w => do
    let r ← writeWord m.memory a w
    some (Machine.completed (stored m r))
  | .writeSlice a data => do
    let r ← writeSlice m.memory a data
    some (Machine.completed (stored m r))
  | .push a => do
    match ← push m.stack a with
    | .ok stack => some (.ok .done, { m with stack })
    | .error f => some (.error f, m)
  | .pop => do
    match ← pop m.stack with
    | .ok (a, stack) => some (.ok (.address a), { m with stack })
    | .error f => some (.error f, m)
  | .restore pointer words => do
    let stack ← restore m.stack pointer words
    some (.ok .done, { m with stack })

/-- Does what an operation says. -/
def operate (m : Machine) : Operation → Option (Except Fault Answer × Machine)
  | .act .step => do
    let r ← step m
    some (Machine.signalled r)
  | .act .tick => some (.ok .done, m.tick)
  | .act (.press key) => some (.ok .done, m.press key)
  | .run count => do
    let r ← runFrom .ran count m
    some (Machine.signalled r)
  | .load program => do
    let r ← load m program
    some (Machine.completed r)
  | .loadWords words => do
    let r ← load m (Memory.bytesOfWords words)
    some (Machine.completed r)
  | .edit e => edit m e

/-- The answers to a list of operations, and the machine after them. -/
def operateAll : Machine → List Operation → Option (List (Except Fault Answer) × Machine)
  | m, [] => some ([], m)
  | m, o :: rest => do
    let (answer, m) ← operate m o
    let (answers, m) ← operateAll m rest
    some (answer :: answers, m)

end Chip8.Guarded

namespace Chip8

/-- The host can count to the end of the access that is asked for, and beyond the pointer that
is given. -/
def Edit.Fits : Edit → Prop
  | .write a _ => a + 1 < Guarded.hostLimit
  | .writeWord a _ => a + 2 < Guarded.hostLimit
  | .writeSlice a data => a + data.length < Guarded.hostLimit
  | .restore pointer _ => ∀ p ∈ pointer, p + 1 < Guarded.hostLimit
  | _ => True

/-- The host can count as far as the operation makes it count. -/
def Operation.Fits : Operation → Prop
  | .edit e => e.Fits
  | _ => True

namespace Guarded

variable [RandomSource] {m : Machine}

lemma edit_eq_some {e : Edit} (h : e.Fits) : edit m e = some (m.edit e) := by
  cases e with
  | setPc | setIndex | setTimers => rfl
  | setRegister r v =>
    simp only [edit, Machine.edit, setRegister_eq_some, Option.bind_eq_bind, Option.bind_some]
  | write a b =>
    simp only [edit, Machine.edit, write_eq_some h, Option.bind_eq_bind, Option.bind_some]
    rfl
  | writeWord a w =>
    simp only [edit, Machine.edit, writeWord_eq_some h, Option.bind_eq_bind, Option.bind_some]
    rfl
  | writeSlice a data =>
    simp only [edit, Machine.edit, writeSlice_eq_some h, Option.bind_eq_bind, Option.bind_some]
    rfl
  | push a =>
    simp only [edit, Machine.edit, push_eq_some, Option.bind_eq_bind, Option.bind_some]
    cases m.stack.push a <;> rfl
  | pop =>
    simp only [edit, Machine.edit, pop_eq_some, Option.bind_eq_bind, Option.bind_some]
    cases m.stack.pop <;> rfl
  | restore pointer words =>
    simp only [edit, Machine.edit, restore_eq_some h, Option.bind_eq_bind, Option.bind_some]

/-- **No operation makes the host break down** that fits. -/
theorem operate_eq_some {o : Operation} (h : o.Fits) : operate m o = some (m.operate o) := by
  cases o with
  | act a =>
    cases a with
    | step =>
      simp only [operate, Machine.operate, step_eq_some, Option.bind_eq_bind, Option.bind_some]
    | tick | press => rfl
  | run count =>
    simp only [operate, Machine.operate, runFrom_eq_some, Machine.run, Option.bind_eq_bind,
      Option.bind_some]
  | load program =>
    simp only [operate, Machine.operate, load_eq_some, Option.bind_eq_bind, Option.bind_some]
  | loadWords words =>
    simp only [operate, Machine.operate, load_eq_some, Machine.loadWords, Option.bind_eq_bind,
      Option.bind_some]
  | edit e => exact edit_eq_some h

/-- **No history makes the host break down** whose operations fit. -/
theorem operateAll_eq_some {history : List Operation} (h : ∀ o ∈ history, o.Fits) :
    operateAll m history = some (m.answers history, m.afterAll history) := by
  induction history generalizing m with
  | nil => rfl
  | cons o rest ih =>
    rw [List.forall_mem_cons] at h
    rw [operateAll, operate_eq_some h.1]
    simp only [Option.bind_eq_bind, Option.bind_some, ih h.2]
    rfl

end Guarded

end Chip8
