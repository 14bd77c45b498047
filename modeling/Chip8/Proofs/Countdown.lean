import Mathlib.Tactic.Common
import Chip8.Host.Random
import Chip8.Proofs.Footprint
import Chip8.Proofs.History
import Chip8.Proofs.Refusal

/-!
What the timers show.

Each timer has one kind of instruction that sets it, and every tick lowers it until it is zero.
Nothing else changes it, so its value follows from what it was last set to and from the number
of ticks since. One kind of instruction reads the delay timer, none the sound timer, so a timer
that is not read has no influence on the other one.

* `timer_step_of_sets`, `timer_step_of_not_executes`: one cycle;
* `timer_after_of_untouched`: a history in which a timer is not set;
* `Machine.LastSet`, `exists_lastSet`, `timer_after_of_lastSet`: what a timer was last set to;
* `exists_after_setTimer`: a timer that is not read;
* `timers_over_runs`: all of this together.
-/

namespace Chip8

/-- One of the two timers. -/
inductive Timer where
  /-- The timer that a program can read. -/
  | delay
  /-- The timer of the buzzer. -/
  | sound
  deriving DecidableEq, Repr

namespace Timer

/-- The other one of the two timers. -/
def other : Timer → Timer
  | delay => sound
  | sound => delay

/-- The instruction that sets the timer. -/
def setter : Timer → Opcode
  | delay => .startDelay
  | sound => .startSound

end Timer

namespace Timers

/-- The value of one of the timers. -/
def value (ts : Timers) : Timer → UInt8
  | .delay => ts.delay
  | .sound => ts.sound

/-- Sets one of the timers. -/
def put (ts : Timers) (v : UInt8) : Timer → Timers
  | .delay => { ts with delay := v }
  | .sound => { ts with sound := v }

lemma toNat_value_tick (ts : Timers) (t : Timer) :
    (ts.tick.value t).toNat = (ts.value t).toNat - 1 := by
  cases t <;> exact toNat_countDown _

lemma buzzing_iff (ts : Timers) : ts.buzzing = true ↔ 0 < (ts.value .sound).toNat := by
  rw [buzzing, bne_iff_ne, Ne, ← UInt8.toNat_inj, Nat.pos_iff_ne_zero]
  rfl

end Timers

namespace Machine

section Source

variable [RandomSource] {m : Machine} {t : Timer} {i : Instruction} {v : UInt8}
  {actions : List Action}

/-- The value of one of the timers. -/
def timer (m : Machine) (t : Timer) : UInt8 :=
  m.timers.value t

/-- Sets one of the timers from outside. -/
def setTimer (m : Machine) (t : Timer) (v : UInt8) : Machine :=
  { m with timers := m.timers.put v t }

/-! ### One cycle -/

/-- What is true of the instruction of a cycle can be decided by decoding it. -/
instance decidableExistsFetch (m : Machine) (P : Instruction → Prop) [DecidablePred P] :
    Decidable (∃ i, m.fetch = .ok i ∧ P i) :=
  decidable_of_iff (∃ i ∈ m.fetch.toOption, P i) (by cases m.fetch <;> simp [Except.toOption])

/-- The cycle that starts in the machine executes an instruction of an opcode. -/
def Executes (m : Machine) (op : Opcode) : Prop :=
  ∃ i, m.fetch = .ok i ∧ i.opcode = op

/-- The cycle that starts in the machine sets the timer to a value. -/
def Sets (m : Machine) (t : Timer) (v : UInt8) : Prop :=
  ∃ i, m.fetch = .ok i ∧ i.opcode = t.setter ∧ v = m.register i.x

instance (m : Machine) (op : Opcode) : Decidable (m.Executes op) :=
  decidableExistsFetch m fun i => i.opcode = op

instance (m : Machine) (t : Timer) (v : UInt8) : Decidable (m.Sets t v) :=
  decidableExistsFetch m fun i => i.opcode = t.setter ∧ v = m.register i.x

lemma timer_execute (m : Machine) (h : i.opcode ≠ t.setter) :
    (m.execute i).2.timer t = m.timer t := by
  cases t with
  | delay => exact (execute_keeps m i).delay h
  | sound => exact (execute_keeps m i).sound h

/-- **A cycle that sets a timer** leaves the value of its register in it. -/
theorem timer_step_of_sets (h : m.Sets t v) : m.step.2.timer t = v := by
  obtain ⟨i, hi, op, rfl⟩ := h
  rw [step_of_fetch hi, perform, execute]
  cases t <;> simp only [op, Timer.setter] <;> rfl

/-- **A cycle that does not set a timer** keeps it, whether it fails or not. -/
theorem timer_step_of_not_executes (h : ¬ m.Executes t.setter) :
    m.step.2.timer t = m.timer t := by
  cases hi : m.fetch with
  | error f => rw [step_of_fetch_error hi]
  | ok i =>
    have op : i.opcode ≠ t.setter := fun op => h ⟨i, hi, op⟩
    obtain ⟨pc, hperform⟩ := exists_perform_eq m i
    rw [step_of_fetch hi, hperform]
    exact timer_execute m op

lemma not_executes_other (h : m.Sets t v) : ¬ m.Executes t.other.setter := by
  rintro ⟨j, hj, op'⟩
  obtain ⟨i, hi, op, -⟩ := h
  obtain rfl : i = j := by simpa [hi] using hj
  cases t <;> simp [op, Timer.setter, Timer.other] at op'

lemma register_step_of_readDelay (hi : m.fetch = .ok i) (op : i.opcode = .readDelay) :
    m.step.2.register i.x = m.timer .delay := by
  have hexecute : m.execute i = (.ok .next, m.setRegister i.x m.timers.delay) := by
    rw [execute]
    simp only [op]
  rw [step_of_fetch hi, perform_of_ok hexecute]
  exact (Processor.register_setRegister _ i.x i.x _).trans (if_pos rfl)

/-! ### Histories -/

/-- A timer that is not set in a history is lowered by its ticks, down to zero. -/
theorem timer_after_of_untouched (untouched : ∀ c ∈ m.cycles actions, ¬ c.Executes t.setter) :
    ((m.after actions).timer t).toNat = (m.timer t).toNat - actions.count .tick := by
  induction actions generalizing m with
  | nil => rfl
  | cons a rest ih =>
    cases a with
    | step =>
      rw [cycles, List.forall_mem_cons] at untouched
      rw [after_cons, ih untouched.2, act_step, timer_step_of_not_executes untouched.1,
        List.count_cons_of_ne (by decide)]
    | tick =>
      rw [after_cons, ih untouched, act_tick, List.count_cons_self]
      have htick : (m.tick.timer t).toNat = (m.timer t).toNat - 1 := m.timers.toNat_value_tick t
      omega
    | press key =>
      rw [after_cons, ih untouched, act_press, List.count_cons_of_ne (by simp)]
      rfl

/-- In a history the timer was last set to a value, with a number of ticks since: by the last
cycle that sets it, or else from the start. -/
inductive LastSet (t : Timer) (m : Machine) : List Action → UInt8 → Nat → Prop where
  /-- No cycle sets the timer. -/
  | never {actions : List Action} (untouched : ∀ c ∈ m.cycles actions, ¬ c.Executes t.setter) :
      LastSet t m actions (m.timer t) (actions.count .tick)
  /-- A cycle sets the timer, and none of those behind it does. -/
  | last {first rest : List Action} {v : UInt8} (sets : (m.after first).Sets t v)
      (untouched : ∀ c ∈ (m.after (first ++ [.step])).cycles rest, ¬ c.Executes t.setter) :
      LastSet t m (first ++ .step :: rest) v (rest.count .tick)

/-- **A timer shows what it was last set to**, less the ticks since, down to zero. -/
theorem timer_after_of_lastSet {k : Nat} (h : m.LastSet t actions v k) :
    ((m.after actions).timer t).toNat = v.toNat - min v.toNat k := by
  cases h with
  | never untouched =>
    rw [timer_after_of_untouched untouched]
    omega
  | @last first rest v sets untouched =>
    -- what came before the instruction that sets the timer does not count
    have hset : (m.after (first ++ [.step])).timer t = v := by
      rw [after_append]
      exact timer_step_of_sets sets
    rw [List.append_cons, after_append, timer_after_of_untouched untouched, hset]
    omega

/-- **In every history a timer was last set to some value**, if only from the start. -/
theorem exists_lastSet (m : Machine) (t : Timer) (actions : List Action) :
    ∃ v k, m.LastSet t actions v k := by
  induction actions generalizing m with
  | nil => exact ⟨_, _, .never fun c hc => absurd hc List.not_mem_nil⟩
  | cons a rest ih =>
    obtain ⟨v, k, h⟩ := ih (m.act a)
    cases h with
    | @last first rest v sets untouched =>
      have hlast : m.LastSet t ((a :: first) ++ .step :: rest) v (rest.count .tick) :=
        .last sets untouched
      exact ⟨_, _, hlast⟩
    | never untouched =>
      cases a with
      | tick | press key => exact ⟨_, _, .never untouched⟩
      | step =>
        by_cases hset : m.Executes t.setter
        · obtain ⟨i, hi, op⟩ := hset
          have hlast : m.LastSet t ([] ++ .step :: rest) (m.register i.x) (rest.count .tick) :=
            .last ⟨i, hi, op, rfl⟩ untouched
          exact ⟨_, _, hlast⟩
        · exact ⟨_, _, .never (List.forall_mem_cons.2 ⟨hset, untouched⟩)⟩

/-! ### A timer that is not read -/

lemma store_setTimer (m : Machine) (a : Nat) (data : List UInt8) :
    (m.setTimer t v).store a data = ((m.store a data).1, (m.store a data).2.setTimer t v) := by
  obtain ⟨p, timers, key, random, seed⟩ := m
  rw [store, store, setTimer]
  cases p.memory.writeSlice a data <;> rfl

/-- **An instruction that does not read a timer** does the same whatever the timer shows. -/
lemma exists_execute_setTimer (m : Machine) (v : UInt8)
    (unread : t = .delay → i.opcode ≠ .readDelay) :
    ∃ w, (m.setTimer t v).execute i = ((m.execute i).1, (m.execute i).2.setTimer t w) := by
  have hstore (a : Nat) (data : List UInt8) : thenNext ((m.setTimer t v).store a data) =
      ((thenNext (m.store a data)).1, (thenNext (m.store a data)).2.setTimer t v) := by
    rw [store_setTimer]
    rfl
  obtain ⟨p, timers, key, random, seed⟩ := m
  rw [setTimer, execute, execute]
  cases op : i.opcode
  case readDelay =>
    cases t with
    | delay => exact absurd op (unread rfl)
    | sound => exact ⟨v, rfl⟩
  case startDelay =>
    cases t with
    | delay => exact ⟨p.register i.x, rfl⟩
    | sound => exact ⟨v, rfl⟩
  case startSound =>
    cases t with
    | delay => exact ⟨v, rfl⟩
    | sound => exact ⟨p.register i.x, rfl⟩
  -- nothing else concerns the timers, so they stay as they were put
  all_goals refine ⟨v, ?_⟩
  case arithmetic o => cases o <;> rfl
  case leave => cases p.stack.pop <;> rfl
  case call => cases p.stack.push (p.pc + 2) <;> rfl
  case drawSprite => cases p.memory.slice p.index.toNat i.n <;> rfl
  case fetchRegisters => cases p.memory.slice p.index.toNat (i.x.val + 1) <;> rfl
  case awaitKey => cases key <;> rfl
  case storeDecimal => exact hstore _ _
  case storeRegisters => exact hstore _ _
  all_goals rfl

/-- A cycle that does not read a timer does the same whatever the timer shows. -/
lemma exists_step_setTimer (m : Machine) (v : UInt8)
    (unread : t = .delay → ¬ m.Executes .readDelay) :
    ∃ w, (m.setTimer t v).step = (m.step.1, m.step.2.setTimer t w) := by
  have hfetch : (m.setTimer t v).fetch = m.fetch := rfl
  cases hi : m.fetch with
  | error f =>
    rw [step_of_fetch_error hi, step_of_fetch_error (hfetch.trans hi)]
    exact ⟨v, rfl⟩
  | ok i =>
    obtain ⟨w, hexecute⟩ := exists_execute_setTimer m v fun ht op => unread ht ⟨i, hi, op⟩
    rw [step_of_fetch hi, step_of_fetch (hfetch.trans hi), perform, perform, hexecute]
    rcases m.execute i with ⟨f | motion, m'⟩
    · exact ⟨w, rfl⟩
    · exact ⟨w, rfl⟩

/-- **A timer that is not read has no influence** on anything but itself. -/
theorem exists_after_setTimer (m : Machine) (v : UInt8)
    (unread : t = .delay → ∀ c ∈ m.cycles actions, ¬ c.Executes .readDelay) :
    ∃ w, (m.setTimer t v).after actions = (m.after actions).setTimer t w := by
  induction actions generalizing m v with
  | nil => exact ⟨v, rfl⟩
  | cons a rest ih =>
    cases a with
    | step =>
      -- only reading the delay could carry the other value on into a register
      obtain ⟨w, hstep⟩ := exists_step_setTimer m v fun ht => unread ht m List.mem_cons_self
      rw [after_cons, after_cons, act_step, act_step, hstep]
      exact ih m.step.2 w fun ht c hc => unread ht c (List.mem_cons_of_mem _ hc)
    | tick =>
      have htick : (m.setTimer t v).tick = m.tick.setTimer t (countDown v) := by
        cases t <;> rfl
      rw [after_cons, after_cons, act_tick, act_tick, htick]
      exact ih m.tick _ unread
    | press key => exact ih (m.press key) v unread

/-! ### Both timers -/

/-- **What the timers show.** In a history of cycles, ticks and keys from any machine, each of the
timers was last set to some value `v`, by its own instruction or from the start, some number `k` of
ticks ago, and what it shows is `v - min v k`. The buzzer sounds exactly as long as `k` is less than
the `v` of the sound timer. A cycle that sets one timer leaves the other one alone; what one timer
shows at the start makes no difference to the other one, unless a program reads it and makes use of
it. Each cycle that reads the delay timer puts into its register what the timer shows at its
moment. -/
theorem timers_over_runs (m : Machine) (actions : List Action) :
    (∀ t, ∃ v k, m.LastSet t actions v k) ∧
    (∀ t v k, m.LastSet t actions v k →
      ((m.after actions).timer t).toNat = v.toNat - min v.toNat k) ∧
    (∀ v k, m.LastSet .sound actions v k →
      ((m.after actions).timers.buzzing = true ↔ k < v.toNat)) ∧
    (∀ t v, (m.after actions).Sets t v →
      (m.after actions).step.2.timer t = v ∧
      (m.after actions).step.2.timer t.other = (m.after actions).timer t.other) ∧
    (∀ t v, (t = .delay → ∀ c ∈ m.cycles actions, ¬ c.Executes .readDelay) →
      ((m.setTimer t v).after actions).timer t.other = (m.after actions).timer t.other) ∧
    (∀ v k i, m.LastSet .delay actions v k →
      (m.after actions).fetch = .ok i → i.opcode = .readDelay →
      ((m.after (actions ++ [.step])).register i.x).toNat = v.toNat - min v.toNat k) := by
  refine ⟨fun t => exists_lastSet m t actions, fun t v k => timer_after_of_lastSet,
    fun v k h => ?_, fun t v h => ?_, fun t v unread => ?_, fun v k i h hi op => ?_⟩
  · -- the buzzer is on while the sound timer is not zero
    have hvalue : ((m.after actions).timers.value .sound).toNat = v.toNat - min v.toNat k :=
      timer_after_of_lastSet h
    rw [Timers.buzzing_iff, hvalue]
    omega
  · exact ⟨timer_step_of_sets h, timer_step_of_not_executes (not_executes_other h)⟩
  · obtain ⟨w, hafter⟩ := exists_after_setTimer m v unread
    rw [hafter]
    cases t <;> rfl
  · rw [after_append, after_cons, after_nil, act_step, register_step_of_readDelay hi op,
      timer_after_of_lastSet h]

end Source

/-- A program that sets both timers, reads one of them, and comes to a word that is no
instruction. -/
def stopwatch : Machine :=
  ((blank (some 7) (.ofSeed 7)).load
    [0x60, 0x09, 0xF0, 0x15, 0x61, 0x03, 0xF1, 0x18, 0xF2, 0x07]).2

/-- What leads to the reading: four cycles, with a tick and a key in between. -/
def lap : List Action :=
  [.tick, .step, .step, .tick, .press (some ⟨3⟩), .step, .step, .tick]

/-- What follows: the reading, a cycle that fails, and ticks. -/
def finish : List Action :=
  [.step, .step, .tick, .tick, .tick]

/-- Two ticks after it was set to nine the delay timer is read as seven, and it goes down from
there. The sound timer, which was set to three, has stopped by then, and the buzzer with it; a
sound timer that ran at the start would have made no difference. -/
theorem timers_over_runs_lap :
    ((stopwatch.after (lap ++ [.step])).register 2).toNat = 7 ∧
    ((stopwatch.after (lap ++ finish)).timer .delay).toNat = 9 - min 9 5 ∧
    ((stopwatch.after (lap ++ finish)).timer .sound).toNat = 3 - min 3 4 ∧
    (stopwatch.after (lap ++ finish)).timers.buzzing ≠ true ∧
    (((stopwatch.setTimer .sound 200).after lap).timer .delay).toNat = 7 := by
  have hread : stopwatch.LastSet .delay
      ([.tick, .step] ++ .step :: [.tick, .press (some ⟨3⟩), .step, .step, .tick]) 9 2 :=
    .last (by decide +kernel) (by decide +kernel)
  have hdelay : stopwatch.LastSet .delay
      ([.tick, .step] ++ .step :: ([.tick, .press (some ⟨3⟩), .step, .step, .tick] ++ finish))
      9 5 :=
    .last (by decide +kernel) (by decide +kernel)
  have hsound : stopwatch.LastSet .sound
      ([.tick, .step, .step, .tick, .press (some ⟨3⟩), .step] ++ .step :: (.tick :: finish))
      3 4 :=
    .last (by decide +kernel) (by decide +kernel)
  have hreads : ∃ i, (stopwatch.after lap).fetch = .ok i ∧ i.opcode = .readDelay ∧ i.x = 2 := by
    decide +kernel
  obtain ⟨i, hi, op, hx⟩ := hreads
  obtain ⟨-, hshown, -, -, hother, hregister⟩ := timers_over_runs stopwatch lap
  obtain ⟨-, hvalue, hbuzzing, -⟩ := timers_over_runs stopwatch (lap ++ finish)
  refine ⟨?_, hvalue .delay 9 5 hdelay, hvalue .sound 3 4 hsound, ?_, ?_⟩
  · rw [← hx]
    exact hregister 9 2 i hread hi op
  · rw [Ne, hbuzzing 3 4 hsound]
    decide
  · have hsame := hother .sound 200 fun h => absurd h (by decide)
    exact (congrArg UInt8.toNat hsame).trans (hshown .delay 9 2 hread)

end Machine

end Chip8
