import Chip8.Proofs.Control
import Chip8.Proofs.Footprint
import Chip8.Proofs.History

/-!
Waiting for a key.

Only one kind of instruction waits, and only if no key is held down. It changes nothing, so the
machine waits in the same place until a key comes, and nothing but its timers goes on.

* `Machine.Awaits`, `step_awaiting_iff`: the machines that wait;
* `step_of_awaits`, `after_waitingFrames`: what waiting leaves;
* `awaiting_not_mem_reports`: with a key held down no cycle waits.
-/

namespace Chip8

/-! ### Timers -/

lemma Timers.toNat_ticks (n : Nat) (t : Timers) :
    (ticks n t).delay.toNat = t.delay.toNat - n ∧ (ticks n t).sound.toNat = t.sound.toNat - n := by
  induction n generalizing t with
  | zero => exact ⟨rfl, rfl⟩
  | succ n ih =>
    obtain ⟨hdelay, hsound⟩ := ih t.tick
    rw [ticks, hdelay, hsound, tick, toNat_countDown, toNat_countDown]
    omega

namespace Machine

variable [RandomSource] {m : Machine}

/-! ### One cycle -/

/-- The machine is at an instruction that waits for a key, and no key is held down. -/
structure Awaits (m : Machine) : Prop where
  key : m.key = none
  fetch : ∃ i, m.fetch = .ok i ∧ i.opcode = .awaitKey

omit [RandomSource] in
lemma signal_of_eq_awaiting_iff (op : Opcode) (motion : Motion) :
    Signal.of op motion = .awaiting ↔ motion = .hold := by
  cases motion with
  | jump a => simp [Signal.of]
  | hold => simp [Signal.of]
  | next | skip => cases op <;> simp [Signal.of]

/-- **A cycle that waits changes nothing.** -/
theorem step_of_awaits (h : m.Awaits) : m.step = (.ok .awaiting, m) := by
  obtain ⟨i, hi, op⟩ := h.fetch
  have hexecute : m.execute i = (.ok .hold, m) := by
    rw [execute]
    simp only [op, h.key]
  rw [step_of_fetch hi, perform_of_ok hexecute]
  rfl

/-- **The machines that wait** are at an instruction that waits, without a key. -/
theorem step_awaiting_iff : m.step.1 = .ok .awaiting ↔ m.Awaits := by
  constructor
  · intro h
    obtain ⟨i, motion, m', hi, hexecute, hsignal, -⟩ := exists_of_step_ok h
    obtain rfl : motion = .hold := (signal_of_eq_awaiting_iff _ _).1 hsignal.symm
    obtain ⟨op, hkey⟩ := hold_of_execute (congrArg Prod.fst hexecute)
    exact ⟨hkey, i, hi, op⟩
  · intro h
    rw [step_of_awaits h]

lemma Awaits.tick (h : m.Awaits) : m.tick.Awaits :=
  ⟨h.key, h.fetch⟩

/-! ### Frames of waiting -/

/-- The actions of a number of frames in which the first cycle waits. -/
def waitingFrames (n : Nat) : List Action :=
  (List.replicate n [.step, .tick]).flatten

omit [RandomSource] in
lemma waitingFrames_succ (n : Nat) :
    waitingFrames (n + 1) = .step :: .tick :: waitingFrames n := rfl

/-- **All that goes on while the machine waits are its timers.** -/
theorem after_waitingFrames (h : m.Awaits) (n : Nat) :
    m.after (waitingFrames n) = { m with timers := m.timers.ticks n } := by
  induction n generalizing m with
  | zero => rfl
  | succ n ih =>
    rw [waitingFrames_succ, after_cons, after_cons, act_step, step_of_awaits h, act_tick,
      ih h.tick]
    rfl

/-- Every cycle in the meantime starts in the same machine, the timers apart. -/
lemma exists_eq_of_mem_cycles_waitingFrames (h : m.Awaits) (n : Nat) :
    ∀ c ∈ m.cycles (waitingFrames n), ∃ timers, c = { m with timers } := by
  induction n generalizing m with
  | zero => exact fun c hc => absurd hc List.not_mem_nil
  | succ n ih =>
    rw [waitingFrames_succ, cycles, cycles, act_step, step_of_awaits h, List.forall_mem_cons]
    exact ⟨⟨m.timers, rfl⟩, ih h.tick⟩

/-! ### With a key -/

lemma key_step (m : Machine) : m.step.2.key = m.key := by
  cases hf : m.fetch with
  | error f => rw [step_of_fetch_error hf]
  | ok i =>
    obtain ⟨pc, hp⟩ := exists_perform_eq m i
    rw [step_of_fetch hf, hp]
    exact (execute_keeps m i).key

/-- **With a key held down no cycle waits**, as long as the key is not let go. -/
theorem awaiting_not_mem_reports (hkey : m.key ≠ none) {actions : List Action}
    (held : ∀ key, .press key ∉ actions) : .ok .awaiting ∉ m.reports actions := by
  induction actions generalizing m with
  | nil => exact List.not_mem_nil
  | cons a rest ih =>
    have hrest : ∀ key, .press key ∉ rest := fun key h => held key (List.mem_cons_of_mem _ h)
    cases a with
    | press key => exact absurd List.mem_cons_self (held key)
    | tick => exact ih (m := m.tick) hkey hrest
    | step =>
      rw [reports_step, List.mem_cons, not_or]
      refine ⟨fun h => hkey (step_awaiting_iff.1 h.symm).key, ih ?_ hrest⟩
      rw [key_step]
      exact hkey

end Machine

end Chip8
