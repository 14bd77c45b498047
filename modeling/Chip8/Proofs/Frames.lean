import Chip8.Host.Random
import Chip8.Proofs.Trace
import Chip8.Proofs.Waiting
import Chip8.Session.Playback

/-!
Playing a program frame by frame.

A frame is full if it consists of ten cycles and a tick. Frames are full as long as no cycle fails
or waits for a key. From the first cycle that waits on, every frame is one cycle, which waits in the
same place, and a tick. From the first cycle that fails on, nothing happens any more.

* `fullFrames`, `Machine.Flows`, `Machine.Stops`: where the first cycle is that fails or waits;
* `Session.Performs`: the actions that lead from one session to another;
* `play_of_flows`, `play_of_awaits`, `play_of_stops_awaiting`, `play_of_stops_error`: what frames
  perform;
* `play_congr`, `play_split`: frames do not depend on what was noted before, and can be played in
  two parts;
* `frame_loop`: all of this together.
-/

namespace Chip8

/-! ### Full frames -/

/-- The actions of a full frame. -/
def fullFrame : List Action :=
  List.replicate cyclesPerFrame .step ++ [.tick]

/-- The actions of a number of full frames. -/
def fullFrames (n : Nat) : List Action :=
  (List.replicate n fullFrame).flatten

/-- The actions before cycle `j` of frame `f`, if the frames before are full. -/
def actionsBefore (f j : Nat) : List Action :=
  fullFrames f ++ List.replicate j .step

lemma fullFrames_succ (n : Nat) : fullFrames (n + 1) = fullFrame ++ fullFrames n := rfl

lemma fullFrames_succ' (n : Nat) : fullFrames (n + 1) = fullFrames n ++ fullFrame := by
  rw [fullFrames, List.replicate_succ', List.flatten_append, List.flatten_singleton, fullFrames]

/-- Full frames have ten cycles and a tick each. -/
lemma count_fullFrames (n : Nat) :
    (fullFrames n).count .step = cyclesPerFrame * n ∧ (fullFrames n).count .tick = n := by
  induction n with
  | zero => exact ⟨rfl, rfl⟩
  | succ n ih =>
    have hstep : fullFrame.count .step = cyclesPerFrame := by decide
    have htick : fullFrame.count .tick = 1 := by decide
    rw [fullFrames_succ, List.count_append, List.count_append, ih.1, ih.2, hstep, htick,
      Nat.mul_succ, Nat.add_comm, Nat.add_comm 1]
    exact ⟨rfl, rfl⟩

lemma count_tick_actionsBefore (f j : Nat) : (actionsBefore f j).count .tick = f := by
  rw [actionsBefore, List.count_append, (count_fullFrames f).2, List.count_replicate]
  rfl

/-! ### Notes of instructions -/

/-- The events of a log that are notes of instructions. -/
def Log.traces (log : Log) : List Event :=
  log.events.toList.filter fun e => e.level = .trace

@[simp] lemma Log.threshold_record (log : Log) (e : Event) :
    (log.record e).threshold = log.threshold := by
  rw [record]
  split <;> rfl

lemma Log.filter_level_record {log : Log} {e : Event} {l : Level} (h : e.level ≠ l) :
    (log.record e).events.toList.filter (·.level = l) =
      log.events.toList.filter (·.level = l) := by
  rw [record]
  split
  · simp [h]
  · rfl

lemma Log.traces_record {log : Log} {e : Event} (h : e.level ≠ .trace) :
    (log.record e).traces = log.traces :=
  filter_level_record h

section Source

variable [RandomSource]

namespace Machine

variable {m : Machine}

lemma reports_append (m : Machine) (first rest : List Action) :
    m.reports (first ++ rest) = m.reports first ++ (m.after first).reports rest := by
  rw [reports, cycles_append, List.map_append]
  rfl

/-- No cycle among the actions fails or waits for a key. -/
def Flows (m : Machine) (actions : List Action) : Prop :=
  ∀ r ∈ m.reports actions, ∃ signal, r = .ok signal ∧ signal ≠ .awaiting

instance (m : Machine) (actions : List Action) : Decidable (m.Flows actions) :=
  decidable_of_iff (∀ r ∈ m.reports actions, r.isOk ∧ r ≠ .ok .awaiting) (by
    refine forall₂_congr fun r _ => ?_
    cases r <;> simp [Except.isOk, Except.toBool])

lemma flows_append {first rest : List Action} :
    m.Flows (first ++ rest) ↔ m.Flows first ∧ (m.after first).Flows rest := by
  rw [Flows, reports_append, List.forall_mem_append]
  rfl

lemma flows_step {rest : List Action} :
    m.Flows (.step :: rest) ↔
      (∃ signal, m.step.1 = .ok signal ∧ signal ≠ .awaiting) ∧ m.step.2.Flows rest := by
  rw [Flows, reports_step, List.forall_mem_cons]
  rfl

/-- The first cycle that fails or waits is cycle `j` of frame `f`, and this is its report. -/
structure Stops (m : Machine) (f j : Nat) (r : Except Fault Signal) : Prop where
  within : j < cyclesPerFrame
  before : m.Flows (actionsBefore f j)
  report : (m.after (actionsBefore f j)).step.1 = r

/-- Among a number of cycles all succeed without waiting, or there is a first that does not. -/
lemma flows_replicate_or (m : Machine) (n : Nat) :
    m.Flows (.replicate n .step) ∨ ∃ j < n, m.Flows (.replicate j .step) ∧
      ((m.after (.replicate j .step)).step.1 = .ok .awaiting ∨
        ∃ e, (m.after (.replicate j .step)).step.1 = .error e) := by
  induction n with
  | zero => exact .inl fun r hr => absurd hr List.not_mem_nil
  | succ n ih =>
    rcases ih with hflows | ⟨j, hj, hstop⟩
    · rcases hreport : (m.after (.replicate n .step)).step.1 with e | signal
      · exact .inr ⟨n, n.lt_succ_self, hflows, .inr ⟨e, hreport⟩⟩
      · by_cases hsignal : signal = .awaiting
        · exact .inr ⟨n, n.lt_succ_self, hflows, .inl (hsignal ▸ hreport)⟩
        · refine .inl ?_
          rw [List.replicate_succ', flows_append, flows_step]
          exact ⟨hflows, ⟨signal, hreport, hsignal⟩, fun r hr => absurd hr List.not_mem_nil⟩
    · exact .inr ⟨j, Nat.lt_succ_of_lt hj, hstop⟩

/-- **Either all frames are full, or there is a first cycle that fails or waits.** -/
theorem flows_or_stops (m : Machine) (n : Nat) :
    m.Flows (fullFrames n) ∨
      ∃ f < n, ∃ j, m.Stops f j (.ok .awaiting) ∨ ∃ e, m.Stops f j (.error e) := by
  induction n with
  | zero => exact .inl fun r hr => absurd hr List.not_mem_nil
  | succ n ih =>
    rcases ih with hflows | ⟨f, hf, hstop⟩
    · -- all frames before flow, so it depends on the cycles of the next one
      rcases flows_replicate_or (m.after (fullFrames n)) cyclesPerFrame with hframe | ⟨j, hj, hstop⟩
      · refine .inl ?_
        rw [fullFrames_succ', fullFrame, flows_append, flows_append]
        exact ⟨hflows, hframe, fun r hr => absurd hr List.not_mem_nil⟩
      · refine .inr ⟨n, n.lt_succ_self, j, ?_⟩
        rw [← after_append] at hstop
        obtain ⟨hbefore, hwait | ⟨e, hfail⟩⟩ := hstop
        · exact .inl ⟨hj, flows_append.2 ⟨hflows, hbefore⟩, hwait⟩
        · exact .inr ⟨e, hj, flows_append.2 ⟨hflows, hbefore⟩, hfail⟩
    · exact .inr ⟨f, Nat.lt_succ_of_lt hf, hstop⟩

namespace Stops

variable {f j : Nat}

/-- From the first cycle that waits on, every cycle finds the same instruction in the same place. -/
lemma cycles_waiting (h : m.Stops f j (.ok .awaiting)) (k : Nat) :
    ∃ i, i.opcode = .awaitKey ∧ ∀ c ∈ (m.after (actionsBefore f j)).cycles (waitingFrames k),
      c.fetch = .ok i ∧ c.pc = (m.after (actionsBefore f j)).pc := by
  have hawaits := step_awaiting_iff.1 h.report
  obtain ⟨i, hi, op⟩ := hawaits.fetch
  refine ⟨i, op, fun c hc => ?_⟩
  obtain ⟨timers, rfl⟩ := exists_eq_of_mem_cycles_waitingFrames hawaits k c hc
  exact ⟨hi, rfl⟩

/-- From the first cycle that waits on, nothing changes but the timers, by one for every frame. -/
lemma after_waiting (h : m.Stops f j (.ok .awaiting)) (k : Nat) :
    ∃ timers, m.after (actionsBefore f j ++ waitingFrames k) =
        { m.after (actionsBefore f j) with timers } ∧
      timers.delay.toNat = (m.after (actionsBefore f j)).timers.delay.toNat - k ∧
      timers.sound.toNat = (m.after (actionsBefore f j)).timers.sound.toNat - k := by
  rw [after_append, after_waitingFrames (step_awaiting_iff.1 h.report)]
  exact ⟨_, rfl, Timers.toNat_ticks k _⟩

lemma after_failing {e : Fault} (h : m.Stops f j (.error e)) :
    m.after (actionsBefore f j ++ [.step]) = m.after (actionsBefore f j) := by
  rw [after_append, after_cons, after_nil, act_step, step_of_error h.report]

end Stops

end Machine

/-! ### What is performed -/

namespace Session

/-- The actions lead from the first session to the second. What has happened to the machine is what
the actions do, and if all instructions are noted, then those of the cycles among the actions
are noted, each once. -/
structure Performs (s : Session) (actions : List Action) (s' : Session) : Prop where
  machine : s'.machine = s.machine.after actions
  threshold : s'.log.threshold = s.log.threshold
  traces : s.log.threshold = some .trace →
    s'.log.traces = s.log.traces ++ (s.machine.cycles actions).filterMap Machine.noted?

end Session

namespace Session.Performs

variable {s s' s'' : Session} {first rest : List Action}

lemma refl (s : Session) : s.Performs [] s :=
  ⟨rfl, rfl, fun _ => (List.append_nil _).symm⟩

lemma trans (h : s.Performs first s') (h' : s'.Performs rest s'') :
    s.Performs (first ++ rest) s'' := by
  refine ⟨?_, h'.threshold.trans h.threshold, fun hlog => ?_⟩
  · rw [h'.machine, h.machine, Machine.after_append]
  · rw [h'.traces (h.threshold.trans hlog), h.traces hlog, h.machine, Machine.cycles_append,
      List.filterMap_append, List.append_assoc]

lemma step (s : Session) : s.Performs [.step] s.step.2 := by
  refine ⟨s.machine_step, ?_, fun hlog => ?_⟩
  · rw [log_step]
    cases s.machine.noted? with
    | none => rfl
    | some e => exact s.log.threshold_record e
  · have hlevel : ∀ e ∈ s.machine.noted?.toList, decide (e.level = .trace) = true := fun e he => by
      obtain ⟨i, -, rfl⟩ := Option.map_eq_some_iff.1 (Option.mem_toList.1 he)
      rfl
    have hcycles : (s.machine.cycles [.step]).filterMap Machine.noted? =
        s.machine.noted?.toList :=
      (s.machine.filterMap_noted_cons []).trans (List.append_nil _)
    rw [hcycles, log_step, Log.traces, (Log.recordAll_of_trace hlog _).2, List.filter_append,
      ← Log.traces, List.filter_eq_self.2 hlevel]

lemma endFrame (p : Playback) (s : Session) : s.Performs [.tick] (p.endFrame s).session := by
  rw [Playback.endFrame]
  split
  · refine ⟨rfl, s.log.threshold_record _, fun _ => ?_⟩
    exact (Log.traces_record (by simp [Event.level])).trans (List.append_nil _).symm
  · exact ⟨rfl, rfl, fun _ => (List.append_nil _).symm⟩

end Session.Performs

/-! ### The cycles of a frame -/

namespace Session

variable {s : Session} {f : Fault}

/-- Cycles that succeed without waiting are all performed, and then the rest of the frame. -/
lemma cycles_of_flows {j : Nat} (h : s.machine.Flows (.replicate j .step)) :
    ∃ s', s.Performs (.replicate j .step) s' ∧ ∀ n, s.cycles (j + n) = s'.cycles n := by
  induction j generalizing s with
  | zero => exact ⟨s, .refl s, fun n => by rw [Nat.zero_add]⟩
  | succ j ih =>
    rw [List.replicate_succ, Machine.flows_step, ← machine_step] at h
    obtain ⟨⟨signal, hreport, hsignal⟩, hrest⟩ := h
    obtain ⟨s', hperforms, hcycles⟩ := ih hrest
    refine ⟨s', (Performs.step s).trans hperforms, fun n => ?_⟩
    have hstep : s.step = (.ok signal, s.step.2) :=
      Prod.ext (s.result_step.trans hreport) rfl
    rw [Nat.add_right_comm, cycles, hstep]
    simp only [if_neg hsignal]
    exact hcycles n

lemma cycles_of_awaiting (h : s.machine.step.1 = .ok .awaiting) (n : Nat) :
    s.cycles (n + 1) = (.ok (), s.step.2) := by
  have hstep : s.step = (.ok .awaiting, s.step.2) := Prod.ext (s.result_step.trans h) rfl
  rw [cycles, hstep]
  rfl

lemma cycles_of_error (h : s.machine.step.1 = .error f) (n : Nat) :
    s.cycles (n + 1) = (.error f, s.step.2) := by
  have hstep : s.step = (.error f, s.step.2) := Prod.ext (s.result_step.trans h) rfl
  rw [cycles, hstep]

end Session

/-! ### One frame -/

namespace Playback

variable {p : Playback} {j : Nat} {f : Fault}

/-- A frame of ten cycles that succeed without waiting is full. -/
lemma advance_of_flows (h : p.session.machine.Flows (.replicate cyclesPerFrame .step)) :
    ∃ p', p.advance = (.ok (), p') ∧ p.session.Performs fullFrame p'.session ∧
      p'.frames = p.frames + 1 := by
  obtain ⟨s, hperforms, hcycles⟩ := Session.cycles_of_flows h
  refine ⟨p.endFrame s, ?_, hperforms.trans (.endFrame p s), rfl⟩
  rw [advance, ← Nat.add_zero cyclesPerFrame, hcycles]
  rfl

lemma advance_of_awaiting (hj : j < cyclesPerFrame)
    (h : p.session.machine.Flows (.replicate j .step))
    (hwait : (p.session.machine.after (.replicate j .step)).step.1 = .ok .awaiting) :
    ∃ p', p.advance = (.ok (), p') ∧
      p.session.Performs (.replicate (j + 1) .step ++ [.tick]) p'.session ∧
      p'.frames = p.frames + 1 := by
  obtain ⟨s, hperforms, hcycles⟩ := Session.cycles_of_flows h
  rw [← hperforms.machine] at hwait
  refine ⟨p.endFrame s.step.2, ?_, ?_, rfl⟩
  · rw [advance, show cyclesPerFrame = j + (cyclesPerFrame - j - 1 + 1) by omega, hcycles,
      Session.cycles_of_awaiting hwait]
  · rw [List.replicate_succ']
    exact (hperforms.trans (.step s)).trans (.endFrame p s.step.2)

lemma advance_of_error (hj : j < cyclesPerFrame)
    (h : p.session.machine.Flows (.replicate j .step))
    (hfail : (p.session.machine.after (.replicate j .step)).step.1 = .error f) :
    ∃ p', p.advance = (.error f, p') ∧
      p.session.Performs (.replicate (j + 1) .step) p'.session ∧ p'.frames = p.frames := by
  obtain ⟨s, hperforms, hcycles⟩ := Session.cycles_of_flows h
  rw [← hperforms.machine] at hfail
  refine ⟨{ p with session := s.step.2 }, ?_, ?_, rfl⟩
  · rw [advance, show cyclesPerFrame = j + (cyclesPerFrame - j - 1 + 1) by omega, hcycles,
      Session.cycles_of_error hfail]
  · rw [List.replicate_succ']
    exact hperforms.trans (.step s)

/-! ### Many frames -/

/-- **Frames without waits and faults are full.** -/
theorem play_of_flows {n : Nat} (h : p.session.machine.Flows (fullFrames n)) :
    ∃ p', play n p = (.ok (), p') ∧ p.session.Performs (fullFrames n) p'.session ∧
      p'.frames = p.frames + n := by
  induction n generalizing p with
  | zero => exact ⟨p, rfl, .refl _, rfl⟩
  | succ n ih =>
    rw [fullFrames_succ, Machine.flows_append] at h
    obtain ⟨hframe, hrest⟩ := h
    obtain ⟨p₁, hadvance, hperforms, hframes⟩ :=
      advance_of_flows (Machine.flows_append.1 hframe).1
    rw [← hperforms.machine] at hrest
    obtain ⟨p₂, hplay, hperforms₂, hframes₂⟩ := ih hrest
    refine ⟨p₂, ?_, hperforms.trans hperforms₂, by omega⟩
    rw [play, hadvance]
    exact hplay

/-- **Frames of a machine that waits** are one cycle and a tick each. -/
theorem play_of_awaits {n : Nat} (h : p.session.machine.Awaits) :
    ∃ p', play n p = (.ok (), p') ∧
      p.session.Performs (Machine.waitingFrames n) p'.session ∧ p'.frames = p.frames + n := by
  induction n generalizing p with
  | zero => exact ⟨p, rfl, .refl _, rfl⟩
  | succ n ih =>
    have hflows : p.session.machine.Flows (.replicate 0 .step) :=
      fun r hr => absurd hr List.not_mem_nil
    obtain ⟨p₁, hadvance, hperforms, hframes⟩ :=
      advance_of_awaiting (by decide) hflows (Machine.step_awaiting_iff.2 h)
    have hnext : p₁.session.machine.Awaits := by
      rw [hperforms.machine]
      exact Machine.after_waitingFrames h 1 ▸ ⟨h.key, h.fetch⟩
    obtain ⟨p₂, hplay, hperforms₂, hframes₂⟩ := ih hnext
    refine ⟨p₂, ?_, hperforms.trans hperforms₂, by omega⟩
    rw [play, hadvance]
    exact hplay

/-- **From the first cycle that waits on**, every frame is one cycle, which waits, and a tick. -/
theorem play_of_stops_awaiting {n i : Nat} (hi : i < n)
    (h : p.session.machine.Stops i j (.ok .awaiting)) :
    ∃ p', play n p = (.ok (), p') ∧
      p.session.Performs (actionsBefore i j ++ Machine.waitingFrames (n - i)) p'.session ∧
      p'.frames = p.frames + n := by
  -- the frames are `i` full ones, the one that begins to wait, and `k` that only wait
  obtain ⟨k, rfl⟩ : ∃ k, n = i + (k + 1) := ⟨n - i - 1, by omega⟩
  obtain ⟨hfull, hbefore⟩ := Machine.flows_append.1 h.before
  obtain ⟨p₁, hplay, hperforms, hframes⟩ := play_of_flows hfull
  have hwait : (p₁.session.machine.after (.replicate j .step)).step.1 = .ok .awaiting := by
    rw [hperforms.machine, ← Machine.after_append]
    exact h.report
  rw [← hperforms.machine] at hbefore
  obtain ⟨p₂, hadvance, hperforms₂, hframes₂⟩ := advance_of_awaiting h.within hbefore hwait
  -- the instruction that waits is still there when the next frame begins
  have hawaits : p₂.session.machine.Awaits := by
    have hw := Machine.step_awaiting_iff.1 hwait
    rw [hperforms₂.machine, List.replicate_succ', List.append_assoc, Machine.after_append]
    exact Machine.after_waitingFrames hw 1 ▸ ⟨hw.key, hw.fetch⟩
  obtain ⟨p₃, hrest, hperforms₃, hframes₃⟩ := play_of_awaits (n := k) hawaits
  refine ⟨p₃, ?_, ?_, by omega⟩
  · rw [play_add, hplay]
    simp only [play, hadvance]
    exact hrest
  · have hactions : actionsBefore i j ++ Machine.waitingFrames (i + (k + 1) - i) =
        fullFrames i ++ ((List.replicate (j + 1) .step ++ [.tick]) ++ Machine.waitingFrames k) := by
      rw [Nat.add_sub_cancel_left, Machine.waitingFrames_succ, actionsBefore, List.replicate_succ']
      simp
    rw [hactions]
    exact hperforms.trans (hperforms₂.trans hperforms₃)

/-- **The first cycle that fails is the last that is performed.** -/
theorem play_of_stops_error {n i : Nat} (hi : i < n)
    (h : p.session.machine.Stops i j (.error f)) :
    ∃ p', play n p = (.error f, p') ∧
      p.session.Performs (actionsBefore i j ++ [.step]) p'.session ∧ p'.frames = p.frames + i := by
  obtain ⟨k, rfl⟩ : ∃ k, n = i + (k + 1) := ⟨n - i - 1, by omega⟩
  obtain ⟨hfull, hbefore⟩ := Machine.flows_append.1 h.before
  obtain ⟨p₁, hplay, hperforms, hframes⟩ := play_of_flows hfull
  have hfail : (p₁.session.machine.after (.replicate j .step)).step.1 = .error f := by
    rw [hperforms.machine, ← Machine.after_append]
    exact h.report
  rw [← hperforms.machine] at hbefore
  obtain ⟨p₂, hadvance, hperforms₂, hframes₂⟩ := advance_of_error h.within hbefore hfail
  refine ⟨p₂, ?_, ?_, by omega⟩
  · rw [play_add, hplay]
    simp only [play, hadvance]
  · rw [actionsBefore, List.append_assoc, ← List.replicate_succ']
    exact hperforms.trans hperforms₂

/-! ### Frames and what was noted before -/

lemma cycles_congr {s t : Session} (same : s.machine = t.machine) (n : Nat) :
    (s.cycles n).1 = (t.cycles n).1 ∧ (s.cycles n).2.machine = (t.cycles n).2.machine := by
  induction n generalizing s t with
  | zero => exact ⟨rfl, same⟩
  | succ n ih =>
    rw [Session.cycles, Session.cycles, s.step_eq, t.step_eq, same]
    rcases t.machine.step with ⟨f | signal, m⟩
    · exact ⟨rfl, rfl⟩
    · by_cases hsignal : signal = .awaiting
      · simp [hsignal]
      · simp only [if_neg hsignal]
        exact ih rfl

lemma advance_congr {p q : Playback} (same : p.session.machine = q.session.machine) :
    p.advance.1 = q.advance.1 ∧
      p.advance.2.session.machine = q.advance.2.session.machine := by
  obtain ⟨hresult, hleft⟩ := cycles_congr same cyclesPerFrame
  rw [advance, advance]
  rcases hp : p.session.cycles cyclesPerFrame with ⟨f | _, s⟩ <;>
    rcases hq : q.session.cycles cyclesPerFrame with ⟨f' | _, t⟩ <;>
    rw [hp, hq] at hresult hleft
  · exact ⟨hresult, hleft⟩
  · cases hresult
  · cases hresult
  · refine ⟨rfl, ?_⟩
    rw [(Session.Performs.endFrame p s).machine, (Session.Performs.endFrame q t).machine]
    exact congrArg Machine.tick hleft

/-- **What frames do to the machine depends on the machine alone**, and not on what was noted or
counted before. -/
theorem play_congr {p q : Playback} (same : p.session.machine = q.session.machine) (n : Nat) :
    (play n p).1 = (play n q).1 ∧
      (play n p).2.session.machine = (play n q).2.session.machine := by
  induction n generalizing p q with
  | zero => exact ⟨rfl, same⟩
  | succ n ih =>
    obtain ⟨hresult, hleft⟩ := advance_congr same
    rw [play, play]
    rcases hp : p.advance with ⟨f | _, p'⟩ <;> rcases hq : q.advance with ⟨f' | _, q'⟩ <;>
      rw [hp, hq] at hresult hleft
    · exact ⟨hresult, hleft⟩
    · cases hresult
    · cases hresult
    · exact ih hleft

/-! ### The frame loop -/

/-- Frames fail exactly if there is a first cycle that fails before one waits. -/
lemma play_error_iff {n : Nat} :
    (play n p).1 = .error f ↔ ∃ i < n, ∃ j, p.session.machine.Stops i j (.error f) := by
  constructor
  · intro h
    -- of the three ways in which frames can go, only one has this result
    rcases p.session.machine.flows_or_stops n with hflows | ⟨i, hi, j, hwait | ⟨e, hfail⟩⟩
    · obtain ⟨p', hplay, -⟩ := play_of_flows hflows
      simp [hplay] at h
    · obtain ⟨p', hplay, -⟩ := play_of_stops_awaiting hi hwait
      simp [hplay] at h
    · obtain ⟨p', hplay, -⟩ := play_of_stops_error hi hfail
      obtain rfl : e = f := by simpa [hplay] using h
      exact ⟨i, hi, j, hfail⟩
  · rintro ⟨i, hi, j, hfail⟩
    obtain ⟨p', hplay, -⟩ := play_of_stops_error hi hfail
    rw [hplay]

lemma not_stops_awaiting {m : Machine} (hkey : m.key ≠ none) (i : Nat) :
    ¬ m.Stops i j (.ok .awaiting) := fun h => by
  have hheld : ∀ key, .press key ∉ actionsBefore i j ++ [.step] := by
    simp [actionsBefore, fullFrames, fullFrame]
  refine m.awaiting_not_mem_reports hkey hheld ?_
  rw [Machine.reports_append, List.mem_append, Machine.reports_step, h.report]
  exact .inr List.mem_cons_self

/-- **With a key held down frames that do not fail are full.** -/
theorem flows_of_key {n : Nat} (hkey : p.session.machine.key ≠ none)
    (h : (play n p).1 = .ok ()) : p.session.machine.Flows (fullFrames n) := by
  rcases p.session.machine.flows_or_stops n with hflows | ⟨i, hi, j, hwait | ⟨e, hfail⟩⟩
  · exact hflows
  · exact absurd hwait (not_stops_awaiting hkey i)
  · simp [play_error_iff.2 ⟨i, hi, j, hfail⟩] at h

/-- **Frames that do not fail can be played in two parts**, the second by any session with the
machine that the first has left. -/
theorem play_split {k n : Nat} (h : (play (k + n) p).1 = .ok ()) :
    (play k p).1 = .ok () ∧
      ∀ t : Session, t.machine = (play k p).2.session.machine →
        (play n (.start t)).1 = .ok () ∧
        (play n (.start t)).2.session.machine = (play (k + n) p).2.session.machine := by
  rw [play_add] at h ⊢
  rcases hfirst : play k p with ⟨e | _, p'⟩ <;> rw [hfirst] at h
  · cases h
  · refine ⟨rfl, fun t same => ?_⟩
    obtain ⟨hresult, hleft⟩ := play_congr (p := .start t) (q := p') same n
    exact ⟨hresult.trans h, hleft⟩

/-- **The frame loop.** A number of frames of a session, whatever its machine and its key:

* as long as no cycle fails or waits, ten cycles and a tick are performed for every frame;
* with a key held down no cycle ever waits, so frames that do not fail are ten cycles and a tick
  each;
* if cycle `j` of frame `f` is the first that waits, then from there on a cycle, which waits with
  the same instruction in the same place, and a tick are performed for every frame that is left,
  this one included, so in the end the timers are lower by the number of these frames;
* they fail exactly if there is a first cycle that fails before one waits, and then it is the last
  thing that is performed, `f` ticks have been made, and the machine is as the cycle found it;
* frames that do not fail leave the same machine as the first of them and then the others, played on
  the same machine by whatever session. -/
theorem frame_loop (s : Session) (n : Nat) :
    let m := s.machine
    let result := (play n (.start s)).1
    let played := (play n (.start s)).2
    (m.Flows (fullFrames n) →
      result = .ok () ∧ s.Performs (fullFrames n) played.session ∧ played.frames = n) ∧
    (m.key ≠ none →
      (∀ actions, (∀ key, .press key ∉ actions) → .ok .awaiting ∉ m.reports actions) ∧
      (result = .ok () → s.Performs (fullFrames n) played.session ∧
        (fullFrames n).count .step = 10 * n ∧ (fullFrames n).count .tick = n)) ∧
    (∀ f < n, ∀ j, m.Stops f j (.ok .awaiting) →
      let w := m.after (actionsBefore f j)
      result = .ok () ∧
      s.Performs (actionsBefore f j ++ Machine.waitingFrames (n - f)) played.session ∧
      (∃ i, i.opcode = .awaitKey ∧ ∀ c ∈ w.cycles (Machine.waitingFrames (n - f)),
        c.fetch = .ok i ∧ c.pc = w.pc) ∧
      ∃ timers, played.session.machine = { w with timers } ∧
        timers.delay.toNat = w.timers.delay.toNat - (n - f) ∧
        timers.sound.toNat = w.timers.sound.toNat - (n - f)) ∧
    (∀ e, result = .error e ↔ ∃ f < n, ∃ j, m.Stops f j (.error e)) ∧
    (∀ e, ∀ f < n, ∀ j, m.Stops f j (.error e) →
      s.Performs (actionsBefore f j ++ [.step]) played.session ∧
      (actionsBefore f j).count .tick = f ∧ played.frames = f ∧
      played.session.machine = m.after (actionsBefore f j)) ∧
    (∀ k, (play (k + n) (.start s)).1 = .ok () →
      (play k (.start s)).1 = .ok () ∧
      ∀ t : Session, t.machine = (play k (.start s)).2.session.machine →
        (play n (.start t)).1 = .ok () ∧
        (play n (.start t)).2.session.machine = (play (k + n) (.start s)).2.session.machine) := by
  intro m result played
  -- used twice: for frames that flow, and for those that flow because a key is down
  have hfull : m.Flows (fullFrames n) →
      result = .ok () ∧ s.Performs (fullFrames n) played.session ∧ played.frames = n := by
    intro hflows
    obtain ⟨p, hplay, hperforms, hframes⟩ := play_of_flows (p := .start s) hflows
    simp only [result, played, hplay]
    exact ⟨trivial, hperforms, hframes.trans (Nat.zero_add n)⟩
  refine ⟨hfull, fun hkey => ⟨fun _ => m.awaiting_not_mem_reports hkey, fun hok => ?_⟩,
    fun f hf j hwait => ?_, fun e => play_error_iff, fun e f hf j hfail => ?_, fun k => play_split⟩
  · have hflows : m.Flows (fullFrames n) := flows_of_key (p := .start s) hkey hok
    exact ⟨(hfull hflows).2.1, count_fullFrames n⟩
  · obtain ⟨p, hplay, hperforms, -⟩ := play_of_stops_awaiting (p := .start s) hf hwait
    simp only [result, played, hplay, hperforms.machine]
    exact ⟨trivial, hperforms, hwait.cycles_waiting (n - f), hwait.after_waiting (n - f)⟩
  · obtain ⟨p, hplay, hperforms, hframes⟩ := play_of_stops_error (p := .start s) hf hfail
    simp only [played, hplay, hperforms.machine]
    exact ⟨hperforms, count_tick_actionsBefore f j, hframes.trans (Nat.zero_add f),
      hfail.after_failing⟩

end Playback

end Source

namespace Playback

/-- A program that starts the delay timer, waits for a key, and then does nothing. -/
def patience : List UInt8 :=
  [0x60, 0x05, 0xF0, 0x15, 0xF1, 0x0A, 0x12, 0x06]

/-- A program that counts to eleven and comes to a word that is no instruction. -/
def doom : List UInt8 :=
  (List.replicate 11 [0x70, 0x01]).flatten ++ [0xFF, 0xFF]

/-- A session with a program and a key, in which all instructions are noted. -/
def sitting (program : List UInt8) (key : Option Key) : Session :=
  ⟨((Machine.blank (some 7) (.ofSeed 7)).load program).2.press key, .empty (some .trace)⟩

/-- Without a key the program waits in its first frame while the timer runs for three frames. With
a key it goes on for a full frame, and for another one. The other program fails in its second
frame. -/
theorem frame_loop_patience :
    (∃ timers, (play 3 (.start (sitting patience none))).2.session.machine =
        { (sitting patience none).machine.after (actionsBefore 0 2) with timers } ∧
      timers.delay.toNat = 2) ∧
    (sitting patience (some ⟨3⟩)).Performs (fullFrames 1)
      (play 1 (.start (sitting patience (some ⟨3⟩)))).2.session ∧
    (∀ t : Session,
      t.machine = (play 1 (.start (sitting patience (some ⟨3⟩)))).2.session.machine →
      (play 1 (.start t)).2.session.machine =
        (play (1 + 1) (.start (sitting patience (some ⟨3⟩)))).2.session.machine) ∧
    (play 3 (.start (sitting doom none))).1 = .error (.unknownWord 0xFFFF) ∧
    (play 3 (.start (sitting doom none))).2.frames = 1 := by
  refine ⟨?_, ?_, ?_, ?_⟩
  · -- the third cycle of the first frame waits
    have hstops : (sitting patience none).machine.Stops 0 2 (.ok .awaiting) :=
      ⟨by decide, by decide +kernel, by decide +kernel⟩
    obtain ⟨-, -, hwait, -⟩ := frame_loop (sitting patience none) 3
    obtain ⟨-, -, -, timers, hmachine, hdelay, -⟩ := hwait 0 (by decide) 2 hstops
    refine ⟨timers, hmachine, hdelay.trans ?_⟩
    decide +kernel
  · obtain ⟨hfull, -⟩ := frame_loop (sitting patience (some ⟨3⟩)) 1
    exact (hfull (by decide +kernel)).2.1
  · obtain ⟨-, -, -, -, -, hsplit⟩ := frame_loop (sitting patience (some ⟨3⟩)) 1
    exact fun t same => ((hsplit 1 (by decide +kernel)).2 t same).2
  · -- the second cycle of the second frame fails
    have hstops : (sitting doom none).machine.Stops 1 1 (.error (.unknownWord 0xFFFF)) :=
      ⟨by decide, by decide +kernel, by decide +kernel⟩
    obtain ⟨-, -, -, hfails, hlast, -⟩ := frame_loop (sitting doom none) 3
    exact ⟨(hfails _).2 ⟨1, by decide, 1, hstops⟩, (hlast _ 1 (by decide) 1 hstops).2.2.1⟩

end Playback

end Chip8
