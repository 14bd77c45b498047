import Chip8.Host.Random
import Chip8.Proofs.History
import Chip8.Proofs.Refusal

/-!
The processor is insulated from its surroundings.

Timers, key and random bytes reach a program through a few instructions only. A program
that decodes none of them runs in the same way on every machine with the same processor:
its cycles report the same, whenever the timers tick, whatever key is held down and
wherever the random bytes come from.

* `execute_congr`, `step_congr`: an instruction that does not read the surroundings works
  on the processor alone;
* `after_of_no_step`: what happens between two cycles does not concern the processor;
* `processor_insulated`: the same for whole histories.
-/

namespace Chip8

/-- The instruction reads the delay timer, the key, or bits of a random byte. -/
def Instruction.ReadsSurroundings (i : Instruction) : Prop :=
  i.opcode = .readDelay ∨ i.opcode = .skipIfKey ∨ i.opcode = .skipUnlessKey ∨
    i.opcode = .awaitKey ∨ (i.opcode = .randomByte ∧ i.nn ≠ 0)

instance (i : Instruction) : Decidable i.ReadsSurroundings :=
  inferInstanceAs (Decidable (_ ∨ _))

namespace Machine

section Source

variable [RandomSource] {a b : Machine} {i : Instruction}

/-! ### One cycle -/

lemma toProcessor_compute_congr (same : a.toProcessor = b.toProcessor) (op : Arithmetic)
    (x y : Fin registerCount) :
    (a.compute op x y).toProcessor = (b.compute op x y).toProcessor := by
  simp only [compute, same]
  cases op.flag? (b.register x) (b.register y) <;> simp only [setRegister, same]

lemma store_congr (same : a.toProcessor = b.toProcessor) (start : Nat) (data : List UInt8) :
    (a.store start data).1 = (b.store start data).1 ∧
      (a.store start data).2.toProcessor = (b.store start data).2.toProcessor := by
  simp only [store, same]
  cases b.memory.writeSlice start data with
  | ok memory => exact ⟨rfl, rfl⟩
  | error f => exact ⟨rfl, same⟩

/-- **An instruction that does not read the surroundings works on the processor alone.** -/
theorem execute_congr (same : a.toProcessor = b.toProcessor) (hi : ¬ i.ReadsSurroundings) :
    (a.execute i).1 = (b.execute i).1 ∧
      (a.execute i).2.toProcessor = (b.execute i).2.toProcessor := by
  have hstore := store_congr same
  obtain ⟨p, ta, ka, ra, sa⟩ := a
  obtain ⟨q, tb, kb, rb, sb⟩ := b
  obtain rfl : p = q := same
  simp only [Instruction.ReadsSurroundings, not_or, not_and, not_not] at hi
  obtain ⟨hdelay, hkey, hnokey, hawait, hrandom⟩ := hi
  rw [execute, execute]
  cases op : i.opcode
  case readDelay => exact absurd op hdelay
  case skipIfKey => exact absurd op hkey
  case skipUnlessKey => exact absurd op hnokey
  case awaitKey => exact absurd op hawait
  case randomByte =>
    -- a mask of zero lets no bit of the random byte through
    simp [hrandom op, setRegister]
  case arithmetic o =>
    exact ⟨rfl, toProcessor_compute_congr (a := ⟨p, ta, ka, ra, sa⟩) (b := ⟨p, tb, kb, rb, sb⟩)
      rfl o i.x i.y⟩
  case leave => cases p.stack.pop <;> exact ⟨rfl, rfl⟩
  case call => cases p.stack.push (p.pc + 2) <;> exact ⟨rfl, rfl⟩
  case drawSprite => cases p.memory.slice p.index.toNat i.n <;> exact ⟨rfl, rfl⟩
  case fetchRegisters => cases p.memory.slice p.index.toNat (i.x.val + 1) <;> exact ⟨rfl, rfl⟩
  case storeDecimal =>
    obtain ⟨hresult, hleft⟩ := hstore p.index.toNat (decimalDigits (p.register i.x))
    exact ⟨congrArg (Except.map fun _ => Motion.next) hresult, hleft⟩
  case storeRegisters =>
    obtain ⟨hresult, hleft⟩ := hstore p.index.toNat (p.registers.toList.take (i.x.val + 1))
    exact ⟨congrArg (Except.map fun _ => Motion.next) hresult, hleft⟩
  all_goals exact ⟨rfl, rfl⟩

/-- **A cycle that does not read the surroundings works on the processor alone.** -/
theorem step_congr (same : a.toProcessor = b.toProcessor)
    (hi : ∀ i, a.fetch = .ok i → ¬ i.ReadsSurroundings) :
    a.step.1 = b.step.1 ∧ a.step.2.toProcessor = b.step.2.toProcessor := by
  have hfetch := fetch_congr same
  cases hf : a.fetch with
  | error f =>
    rw [step_of_fetch_error hf, step_of_fetch_error (hfetch.symm.trans hf)]
    exact ⟨rfl, same⟩
  | ok i =>
    obtain ⟨hresult, hleft⟩ := execute_congr same (hi i hf)
    rw [step_of_fetch hf, step_of_fetch (hfetch.symm.trans hf), perform, perform]
    -- only what the two executions have in common is used from here on
    generalize a.execute i = ra at hresult hleft ⊢
    generalize b.execute i = rb at hresult hleft ⊢
    obtain ⟨ra, ma⟩ := ra
    obtain ⟨rb, mb⟩ := rb
    obtain rfl : ra = rb := hresult
    cases ra with
    | error f => exact ⟨rfl, hleft⟩
    | ok motion =>
      refine ⟨rfl, ?_⟩
      show { ma.toProcessor with pc := motion.target a.pc } =
        { mb.toProcessor with pc := motion.target b.pc }
      rw [show ma.toProcessor = mb.toProcessor from hleft, same]

/-! ### Histories -/

/-- **What happens between two cycles does not concern the processor**, and reports
nothing. -/
theorem after_of_no_step (m : Machine) {actions : List Action} (quiet : .step ∉ actions) :
    (m.after actions).toProcessor = m.toProcessor ∧ m.cycles actions = [] := by
  induction actions generalizing m with
  | nil => exact ⟨rfl, rfl⟩
  | cons action rest ih =>
    have hrest : .step ∉ rest := fun h => quiet (List.mem_cons_of_mem _ h)
    cases action with
    | step => exact absurd List.mem_cons_self quiet
    | tick => exact ih m.tick hrest
    | press key => exact ih (m.press key) hrest

/-- **The processor is insulated from its surroundings.** Take two machines with the same
processor, whatever their timers, keys, seeds and random bytes, and two histories with as
many cycles each. If the first never decodes an instruction that reads the surroundings,
then the cycles of both report the same, and the processors are the same in the end. -/
theorem processor_insulated (same : a.toProcessor = b.toProcessor) (xs ys : List Action)
    (cycles : xs.count .step = ys.count .step)
    (closed : ∀ c ∈ a.cycles xs, ∀ i, c.fetch = .ok i → ¬ i.ReadsSurroundings) :
    a.reports xs = b.reports ys ∧
      (a.after xs).toProcessor = (b.after ys).toProcessor := by
  induction xs generalizing a b ys with
  | nil =>
    have hquiet : .step ∉ ys := List.count_eq_zero.1 cycles.symm
    obtain ⟨hproc, hnone⟩ := after_of_no_step b hquiet
    exact ⟨by rw [reports, reports, hnone]; rfl, same.trans hproc.symm⟩
  | cons x xs ih =>
    cases x with
    | tick => exact ih (a := a.tick) same ys (by simpa using cycles) closed
    | press key => exact ih (a := a.press key) same ys (by simpa using cycles) closed
    | step =>
      -- the second history has a first cycle as well, after some ticks and keys
      have hmem : .step ∈ ys := by
        rw [← List.count_pos_iff, ← cycles, List.count_cons_self]
        omega
      obtain ⟨before, rest, rfl, hquiet⟩ := List.eq_append_cons_of_mem hmem
      obtain ⟨hproc, hnone⟩ := after_of_no_step b hquiet
      have hcount : xs.count .step = rest.count .step := by
        rw [List.count_append, List.count_eq_zero.2 hquiet, List.count_cons_self,
          List.count_cons_self] at cycles
        omega
      have hhere : a.toProcessor = (b.after before).toProcessor := same.trans hproc.symm
      obtain ⟨hreport, hnext⟩ := step_congr hhere (closed a List.mem_cons_self)
      obtain ⟨hreports, hend⟩ := ih hnext rest hcount
        fun c hc => closed c (List.mem_cons_of_mem _ hc)
      constructor
      · rw [reports_step, hreport, hreports, reports, reports, cycles_append, hnone]
        rfl
      · rw [after_append]
        exact hend

end Source

/-- A machine whose program counts in a register, masks a random byte away, and starts
over. -/
def aloof : Machine :=
  ((blank (some 7) (.ofSeed 7)).load [0x70, 0x01, 0xC1, 0x00, 0x12, 0x00]).2

/-- The same in busier surroundings: another seed, running timers, and a key held down. -/
def crowded : Machine :=
  { aloof with timers := ⟨9, 3⟩, key := some ⟨5⟩, random := .ofSeed 8, seed := some 8 }

/-- Four cycles, and nothing else. -/
def calm : List Action :=
  [.step, .step, .step, .step]

/-- Four cycles among ticks and keys. -/
def bustle : List Action :=
  [.tick, .step, .step, .press none, .step, .tick, .step, .tick]

/-- Four cycles of the program go the same way in both surroundings. -/
theorem processor_insulated_crowded :
    aloof.reports calm = crowded.reports bustle ∧
    (aloof.after calm).toProcessor = (crowded.after bustle).toProcessor := by
  have hclosed : ∀ c ∈ aloof.cycles calm, ∀ i ∈ c.fetch.toOption, ¬ i.ReadsSurroundings := by
    decide +kernel
  have same : aloof.toProcessor = crowded.toProcessor := by rw [crowded]
  refine processor_insulated same calm bustle (by decide) fun c hc i hi => ?_
  exact hclosed c hc i (by rw [hi]; rfl)

end Machine

end Chip8
