import Chip8.Host.Random
import Chip8.Proofs.History
import Chip8.Proofs.Refusal

/-!
Faults are atomic and sticky: a cycle that fails changes nothing, and once a cycle has
failed every later one fails in the same way, whatever happens to the timers and the key
in between.

* `after_of_error`: after a fault every cycle fails with it, and only the timers and the
  key change;
* `runFrom_eq_error_iff`: a run fails exactly at its first cycle that fails;
* `run_add`: a run that succeeds can be continued;
* `fault_atomic_sticky`: these together.
-/

namespace Chip8

namespace Machine

section Source

variable [RandomSource] {m : Machine} {f : Fault}

/-! ### After a fault -/

/-- **A fault is sticky**: the cycles of any history after it fail in the same way, and
the machine stays as it was apart from the timers and the key. -/
theorem after_of_error (h : m.step.1 = .error f) (actions : List Action) :
    (∀ r ∈ m.reports actions, r = .error f) ∧
      m.after actions =
        { m with timers := (m.after actions).timers, key := (m.after actions).key } := by
  induction actions generalizing m with
  | nil => exact ⟨by simp, rfl⟩
  | cons a rest ih =>
    cases a with
    | step =>
      have hm : m.step.2 = m := by rw [step_of_error h]
      rw [reports_step, after_cons, act_step, hm, List.forall_mem_cons]
      exact ⟨⟨h, (ih h).1⟩, (ih h).2⟩
    | tick =>
      have ht : m.tick.step.1 = .error f := (step_error_congr (toProcessor_tick m)).2 h
      exact ⟨(ih ht).1, (ih ht).2⟩
    | press key =>
      have hp : (m.press key).step.1 = .error f :=
        (step_error_congr (toProcessor_press m key)).2 h
      exact ⟨(ih hp).1, (ih hp).2⟩

/-! ### Runs -/

lemma runFrom_of_pos (last last' : Signal) {n : Nat} (hn : 0 < n) (m : Machine) :
    runFrom last n m = runFrom last' n m := by
  cases n with
  | zero => exact absurd hn (Nat.lt_irrefl 0)
  | succ n => rfl

/-- **A run fails exactly at its first cycle that fails**, and leaves the machine as it
was before that cycle. -/
theorem runFrom_eq_error_iff {last : Signal} {n : Nat} {m' : Machine} :
    runFrom last n m = (.error f, m') ↔
      ∃ k < n, (∀ r ∈ m.reports (.replicate k .step), r.isOk) ∧
        m' = m.after (.replicate k .step) ∧ m'.step.1 = .error f := by
  induction n generalizing last m with
  | zero => simp [runFrom]
  | succ n ih =>
    rw [runFrom]
    rcases hs : m.step with ⟨g | signal, m₁⟩
    · -- the first cycle fails, and no later one can be the first to fail
      have hm : m.step = (.error g, m) := step_of_error (by rw [hs])
      obtain rfl : m = m₁ := congrArg Prod.snd (hm.symm.trans hs)
      constructor
      · intro h
        obtain ⟨rfl, rfl⟩ : g = f ∧ m = m' := by simpa using h
        exact ⟨0, by omega, by simp, rfl, by rw [hs]⟩
      · rintro ⟨k, -, hok, rfl, hf⟩
        cases k with
        | zero => simpa [hs] using hf
        | succ k => simp [List.replicate_succ, hs, Except.isOk, Except.toBool] at hok
    · rw [ih]
      constructor
      · rintro ⟨k, hk, hok, rfl, hf⟩
        refine ⟨k + 1, by omega, ?_, ?_, hf⟩
        · rw [List.replicate_succ, reports_step, hs, List.forall_mem_cons]
          exact ⟨rfl, hok⟩
        · rw [List.replicate_succ, after_cons, act_step, hs]
      · rintro ⟨k, hk, hok, rfl, hf⟩
        cases k with
        | zero => simp [hs] at hf
        | succ k =>
          rw [List.replicate_succ, reports_step, hs, List.forall_mem_cons] at hok
          rw [List.replicate_succ, after_cons, act_step, hs] at hf ⊢
          exact ⟨k, by omega, hok.2, rfl, hf⟩

/-- **A run that succeeds can be continued**: the rest of a longer run is a run of its
own. -/
theorem run_add {k n : Nat} (hn : 0 < n) (hk : (m.run k).1.isOk) :
    m.run (k + n) = (m.run k).2.run n := by
  rw [run, runFrom_add, ← run]
  rcases hr : m.run k with ⟨g | signal, m'⟩
  · simp [hr, Except.isOk, Except.toBool] at hk
  · exact runFrom_of_pos signal .ran hn m'

/-! ### Atomic and sticky -/

/-- **Faults are atomic and sticky.** A cycle that fails leaves the machine as it was,
and from then on every cycle fails with the same fault, and only the timers and the key
change. So a run fails exactly if one of its cycles does, and stops before the first of
these; and a run that succeeds can be continued. -/
theorem fault_atomic_sticky (m : Machine) :
    (∀ f, m.step.1 = .error f →
      m.step.2 = m ∧
      ∀ actions,
        (∀ r ∈ m.step.2.reports actions, r = .error f) ∧
        m.step.2.after actions =
          { m.step.2 with
            timers := (m.step.2.after actions).timers
            key := (m.step.2.after actions).key }) ∧
    (∀ n f m', m.run n = (.error f, m') ↔
      ∃ k < n, (∀ r ∈ m.reports (.replicate k .step), r.isOk) ∧
        m' = m.after (.replicate k .step) ∧ m'.step.1 = .error f) ∧
    (∀ k n, 0 < n → (m.run k).1.isOk → m.run (k + n) = (m.run k).2.run n) := by
  refine ⟨fun f h => ?_, fun n f m' => runFrom_eq_error_iff, fun k n hn hk => run_add hn hk⟩
  have hm : m.step.2 = m := by rw [step_of_error h]
  rw [hm]
  exact ⟨rfl, after_of_error h⟩

end Source

/-- A machine whose second instruction is a return with no call pending. -/
def straying : Machine :=
  ((blank (some 7) (.ofSeed 7)).load [0x60, 0x01, 0x00, 0xEE]).2

/-- The return is refused again and again, a run of three cycles stops before it, and the
run is that of its first cycle followed by that of the other two. -/
theorem fault_atomic_sticky_straying :
    straying.step.2.step.1 = .error .stackUnderflow ∧
    straying.step.2.step.2 = straying.step.2 ∧
    (∀ r ∈ straying.step.2.reports [.tick, .step, .press none, .step],
      r = .error .stackUnderflow) ∧
    straying.run 3 = (.error .stackUnderflow, straying.step.2) ∧
    straying.run (1 + 2) = (straying.run 1).2.run 2 := by
  obtain ⟨hf, hok, hfirst⟩ :
      straying.step.2.step.1 = .error .stackUnderflow ∧ (straying.run 1).1.isOk ∧
      (∀ r ∈ straying.reports (.replicate 1 .step), r.isOk) := by
    decide +kernel
  obtain ⟨hstep, hsticky⟩ := (fault_atomic_sticky straying.step.2).1 _ hf
  have hrun := (fault_atomic_sticky straying).2
  rw [hstep] at hsticky
  refine ⟨hf, hstep, (hsticky _).1, ?_, hrun.2 1 2 (by decide) hok⟩
  refine (hrun.1 3 _ _).2 ⟨1, by decide, hfirst, ?_, hf⟩
  rw [List.replicate_one, after_cons, act_step, after_nil]

end Machine

end Chip8
