import Mathlib.Tactic.Common
import Chip8.Machine.Cycle
import Chip8.Machine.Loading

/-!
What is done with a machine, one thing after the other.

An action is what a driver does while a program runs: a cycle, a tick, or a change of
the key. An operation is anything at all that can be done with a machine from outside,
and it has an answer. Histories are lists of either.

* `Machine.after`: the machine after a list of actions;
* `Machine.cycles`: the machines in which the cycles of such a list start, and
  `Machine.reports`, what these cycles report;
* `Machine.answers`, `Machine.afterAll`: the answers to a list of operations, and the
  machine after them;
* `Machine.allCycles`: the machines in which the cycles of a list of operations start;
* `afterAll_invariant`: what holds at the start and is kept by cycles, ticks, keys and
  loads holds all the time.
-/

namespace Chip8

/-! ### Actions -/

/-- What a driver does while a program runs. -/
inductive Action where
  /-- One instruction cycle. -/
  | step
  /-- One tick of the timers. -/
  | tick
  /-- A key is held down, or none. -/
  | press (key : Option Key)
  deriving DecidableEq

namespace Machine

variable [RandomSource]

/-- The machine after an action. -/
def act (m : Machine) : Action → Machine
  | .step => m.step.2
  | .tick => m.tick
  | .press key => m.press key

/-- The machine after a list of actions. -/
def after (m : Machine) (actions : List Action) : Machine :=
  actions.foldl act m

/-- The machines in which the cycles among the actions start, in their order. -/
def cycles : Machine → List Action → List Machine
  | _, [] => []
  | m, .step :: rest => m :: cycles (m.act .step) rest
  | m, .tick :: rest => cycles (m.act .tick) rest
  | m, .press key :: rest => cycles (m.act (.press key)) rest

/-- What the cycles among the actions report, in their order. -/
def reports (m : Machine) (actions : List Action) : List (Except Fault Signal) :=
  (m.cycles actions).map fun c => c.step.1

@[simp] lemma after_nil (m : Machine) : m.after [] = m := rfl

@[simp] lemma after_cons (m : Machine) (a : Action) (rest : List Action) :
    m.after (a :: rest) = (m.act a).after rest := rfl

@[simp] lemma act_step (m : Machine) : m.act .step = m.step.2 := rfl

@[simp] lemma act_tick (m : Machine) : m.act .tick = m.tick := rfl

@[simp] lemma act_press (m : Machine) (key : Option Key) : m.act (.press key) = m.press key :=
  rfl

lemma after_append (m : Machine) (first rest : List Action) :
    m.after (first ++ rest) = (m.after first).after rest :=
  List.foldl_append

@[simp] lemma reports_nil (m : Machine) : m.reports [] = [] := rfl

@[simp] lemma reports_step (m : Machine) (rest : List Action) :
    m.reports (.step :: rest) = m.step.1 :: m.step.2.reports rest := rfl

@[simp] lemma reports_tick (m : Machine) (rest : List Action) :
    m.reports (.tick :: rest) = m.tick.reports rest := rfl

lemma cycles_append (m : Machine) (first rest : List Action) :
    m.cycles (first ++ rest) = m.cycles first ++ (m.after first).cycles rest := by
  induction first generalizing m with
  | nil => rfl
  | cons a first ih => cases a <;> simp [cycles, ih]

@[simp] lemma toProcessor_tick (m : Machine) : m.tick.toProcessor = m.toProcessor := rfl

@[simp] lemma toProcessor_press (m : Machine) (key : Option Key) :
    (m.press key).toProcessor = m.toProcessor := rfl

end Machine

/-! ### Operations -/

/-- A direct change to a part of the machine, as debuggers make it. -/
inductive Edit where
  | setPc (a : UInt16)
  | setIndex (a : UInt16)
  | setRegister (r : Fin registerCount) (v : UInt8)
  | setTimers (timers : Timers)
  | write (a : Nat) (b : UInt8)
  | writeWord (a : Nat) (w : UInt16)
  | writeSlice (a : Nat) (data : List UInt8)
  | push (a : UInt16)
  | pop
  | restore (pointer : Option Nat) (words : List UInt16)

/-- Anything that can be done with a machine. -/
inductive Operation where
  /-- What a driver does. -/
  | act (a : Action)
  /-- A number of cycles, up to the first that fails. -/
  | run (count : Nat)
  /-- Loads a program. -/
  | load (program : List UInt8)
  /-- Loads a program that is given as words. -/
  | loadWords (words : List UInt16)
  /-- Changes a part of the machine. -/
  | edit (e : Edit)

/-- The operation is one that a driver makes use of: it is no direct change. -/
def Operation.IsDriving : Operation → Prop
  | .edit _ => False
  | _ => True

instance : DecidablePred Operation.IsDriving
  | .edit _ => isFalse id
  | .act _ | .run _ | .load _ | .loadWords _ => isTrue trivial

/-- What an operation answers, if it does not fail. -/
inductive Answer where
  /-- Nothing but that it is done. -/
  | done
  /-- What the last cycle reported. -/
  | signal (s : Signal)
  /-- A return address that was taken off the stack. -/
  | address (a : UInt16)
  deriving DecidableEq

namespace Machine

variable [RandomSource]

/-- The result of something that answers nothing. -/
def completed (r : Except Fault Unit × Machine) : Except Fault Answer × Machine :=
  (r.1.map fun _ => .done, r.2)

/-- The result of cycles. -/
def signalled (r : Except Fault Signal × Machine) : Except Fault Answer × Machine :=
  (r.1.map .signal, r.2)

/-- Changes a part of the machine. -/
def edit (m : Machine) : Edit → Except Fault Answer × Machine
  | .setPc a => (.ok .done, { m with pc := a })
  | .setIndex a => (.ok .done, { m with index := a })
  | .setRegister r v => (.ok .done, m.setRegister r v)
  | .setTimers timers => (.ok .done, { m with timers })
  | .write a b => completed (m.store a [b])
  | .writeWord a w => completed (m.store a (Memory.bytesOf w))
  | .writeSlice a data => completed (m.store a data)
  | .push a =>
    match m.stack.push a with
    | .ok stack => (.ok .done, { m with stack })
    | .error f => (.error f, m)
  | .pop =>
    match m.stack.pop with
    | .ok (a, stack) => (.ok (.address a), { m with stack })
    | .error f => (.error f, m)
  | .restore pointer words => (.ok .done, { m with stack := m.stack.restore pointer words })

/-- Does what an operation says. -/
def operate (m : Machine) : Operation → Except Fault Answer × Machine
  | .act .step => signalled m.step
  | .act .tick => (.ok .done, m.tick)
  | .act (.press key) => (.ok .done, m.press key)
  | .run count => signalled (m.run count)
  | .load program => completed (m.load program)
  | .loadWords words => completed (m.loadWords words)
  | .edit e => m.edit e

/-- The answers to a list of operations. -/
def answers : Machine → List Operation → List (Except Fault Answer)
  | _, [] => []
  | m, o :: rest => (m.operate o).1 :: answers (m.operate o).2 rest

/-- The machine after a list of operations. -/
def afterAll (m : Machine) (operations : List Operation) : Machine :=
  operations.foldl (fun m o => (m.operate o).2) m

/-- A direct change concerns the processor or the timers. -/
lemma exists_edit_eq (m : Machine) (e : Edit) :
    ∃ p timers, (m.edit e).2 = { m with toProcessor := p, timers } := by
  have hstore : ∀ a data, ∃ p timers,
      (m.store a data).2 = { m with toProcessor := p, timers } := fun a data => by
    rw [store]
    cases m.memory.writeSlice a data <;> exact ⟨_, _, rfl⟩
  cases e with
  | write a b => exact hstore a [b]
  | writeWord a w => exact hstore a (Memory.bytesOf w)
  | writeSlice a data => exact hstore a data
  | push a =>
    simp only [edit]
    cases m.stack.push a <;> exact ⟨_, _, rfl⟩
  | pop =>
    simp only [edit]
    cases m.stack.pop <;> exact ⟨_, _, rfl⟩
  | setPc | setIndex | setRegister | setTimers | restore => exact ⟨_, _, rfl⟩

/-! ### The cycles of operations -/

/-- The machines in which the cycles of a run start, in their order. -/
def runCycles : Nat → Machine → List Machine
  | 0, _ => []
  | n + 1, m =>
    match m.step with
    | (.ok _, m') => m :: runCycles n m'
    | (.error _, _) => [m]

/-- The machines in which the cycles of an operation start, in their order. -/
def cyclesOf (m : Machine) : Operation → List Machine
  | .act .step => [m]
  | .run count => runCycles count m
  | _ => []

/-- The machines in which the cycles of a list of operations start, in their order. -/
def allCycles : Machine → List Operation → List Machine
  | _, [] => []
  | m, o :: rest => m.cyclesOf o ++ allCycles (m.operate o).2 rest

/-- **What its cycles keep, a run keeps**, and it holds in each of them. -/
lemma runFrom_invariant {P : Machine → Prop} {m : Machine} (h : P m) (last : Signal) (n : Nat)
    (hcycle : ∀ c ∈ runCycles n m, P c → P c.step.2) :
    P (runFrom last n m).2 ∧ ∀ c ∈ runCycles n m, P c := by
  induction n generalizing m last with
  | zero => exact ⟨h, by simp [runCycles]⟩
  | succ n ih =>
    rw [runFrom]
    rw [runCycles] at hcycle ⊢
    rcases hs : m.step with ⟨f | signal, m'⟩ <;> simp only [hs] at hcycle ⊢
    · have hnext := hcycle m List.mem_cons_self h
      rw [hs] at hnext
      exact ⟨hnext, by simpa using h⟩
    · have hnext := hcycle m List.mem_cons_self h
      rw [hs] at hnext
      obtain ⟨hend, hall⟩ := ih hnext signal fun c hc => hcycle c (List.mem_cons_of_mem _ hc)
      exact ⟨hend, List.forall_mem_cons.2 ⟨h, hall⟩⟩

/-! ### Invariants -/

/-- What a driver does between two cycles keeps the property. -/
structure KeptBetween (P : Machine → Prop) : Prop where
  tick : ∀ m, P m → P m.tick
  press : ∀ m key, P m → P (m.press key)
  load : ∀ m program, P m → P (m.load program).2

variable {P : Machine → Prop} {m : Machine}

/-- What its cycles keep, an operation of a driver keeps, and it holds in each of them. -/
lemma operate_invariant (between : KeptBetween P) (h : P m) {o : Operation}
    (driving : o.IsDriving) (hcycle : ∀ c ∈ m.cyclesOf o, P c → P c.step.2) :
    P (m.operate o).2 ∧ ∀ c ∈ m.cyclesOf o, P c := by
  cases o with
  | act a =>
    cases a with
    | step => exact ⟨hcycle m (List.mem_singleton_self m) h, by simpa [cyclesOf] using h⟩
    | tick => exact ⟨between.tick m h, by simp [cyclesOf]⟩
    | press key => exact ⟨between.press m key h, by simp [cyclesOf]⟩
  | run count => exact runFrom_invariant h .ran count hcycle
  | load program => exact ⟨between.load m program h, by simp [cyclesOf]⟩
  | loadWords words => exact ⟨between.load m _ h, by simp [cyclesOf]⟩
  | edit e => exact absurd driving id

/-- **What its cycles keep, a history keeps**, as long as it is that of a driver. -/
theorem afterAll_invariant (between : KeptBetween P) (h : P m) {history : List Operation}
    (driving : ∀ o ∈ history, o.IsDriving)
    (hcycle : ∀ c ∈ m.allCycles history, P c → P c.step.2) :
    P (m.afterAll history) ∧ ∀ c ∈ m.allCycles history, P c := by
  induction history generalizing m with
  | nil => exact ⟨h, by simp [allCycles]⟩
  | cons o rest ih =>
    rw [List.forall_mem_cons] at driving
    rw [allCycles] at hcycle ⊢
    rw [List.forall_mem_append] at hcycle ⊢
    -- the cycles of the first operation keep it, and the rest starts where they end
    obtain ⟨hnext, hhere⟩ := operate_invariant between h driving.1 hcycle.1
    obtain ⟨hend, hrest⟩ := ih hnext driving.2 hcycle.2
    exact ⟨hend, hhere, hrest⟩

end Machine

end Chip8
