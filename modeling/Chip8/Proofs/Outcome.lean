import Chip8.Host.Random
import Chip8.Proofs.Listing.Lister
import Chip8.Proofs.Loading
import Chip8.Proofs.Printing

/-!
The outcome of the whole command.

Arguments that make no request are answered without a look at any file. Everything else depends on
what the file holds, and for a run on the first cycle that fails within its frames. The screen is
printed in any case, as the last cycle that succeeded left it. More frames change nothing about a
run that has failed.

* `Machine.Ends`: the actions that succeed within a number of frames, and the fault behind them;
* `Playback.play_of_ends`: frames perform these actions and end with this fault;
* `Screen.Pictured`: the text that shows a screen;
* `Request.Fails`, `Machine.Reported`: the requests that fail, and the report on a run;
* `rejected_or_requested`: the causes that an exit code can have;
* `command_outcome`: exit codes, output, and more frames.
-/

namespace Chip8

section Source

variable [RandomSource]

/-! ### How frames end -/

namespace Machine

variable {m : Machine} {n : Nat} {actions : List Action} {fault : Option Fault}

/-- What becomes of a number of frames: these actions succeed, and then a cycle fails with this
fault, or all frames are over. -/
inductive Ends (m : Machine) (n : Nat) : List Action → Option Fault → Prop where
  | full : m.Flows (fullFrames n) → m.Ends n (fullFrames n) none
  | waiting {f j : Nat} : f < n → m.Stops f j (.ok .awaiting) →
      m.Ends n (actionsBefore f j ++ waitingFrames (n - f)) none
  | failing {f j : Nat} {e : Fault} : f < n → m.Stops f j (.error e) →
      m.Ends n (actionsBefore f j) (some e)

lemma exists_ends (m : Machine) (n : Nat) : ∃ actions fault, m.Ends n actions fault := by
  rcases m.flows_or_stops n with hflows | ⟨f, hf, j, hwait | ⟨e, hfail⟩⟩
  · exact ⟨_, _, .full hflows⟩
  · exact ⟨_, _, .waiting hf hwait⟩
  · exact ⟨_, _, .failing hf hfail⟩

lemma reports_waitingFrames (h : m.Awaits) (n : Nat) :
    ∀ r ∈ m.reports (waitingFrames n), r = .ok .awaiting := by
  induction n generalizing m with
  | zero => exact fun r hr => absurd hr List.not_mem_nil
  | succ n ih =>
    rw [waitingFrames_succ, reports_step, step_of_awaits h, reports_tick, List.forall_mem_cons]
    exact ⟨rfl, ih h.tick⟩

lemma Ends.succeeds (h : m.Ends n actions fault) :
    ∀ r ∈ m.reports actions, ∃ signal, r = .ok signal := by
  have hflows {actions : List Action} (h : m.Flows actions) :
      ∀ r ∈ m.reports actions, ∃ signal, r = .ok signal := fun r hr =>
    (h r hr).imp fun _ h => h.1
  cases h with
  | full h => exact hflows h
  | failing _ h => exact hflows h.before
  | waiting _ h =>
    rw [reports_append, List.forall_mem_append]
    exact ⟨hflows h.before, fun r hr =>
      ⟨_, reports_waitingFrames (step_awaiting_iff.1 h.report) _ r hr⟩⟩

lemma Ends.fails {e : Fault} (h : m.Ends n actions (some e)) :
    (m.after actions).step.1 = .error e := by
  cases h with
  | failing _ h => exact h.report

end Machine

namespace Playback

variable {p : Playback} {n : Nat} {actions : List Action} {fault : Option Fault}

/-- **Frames are played up to their end.** -/
theorem play_of_ends (h : p.session.machine.Ends n actions fault) :
    (play n p).1 = fault.elim (.ok ()) .error ∧
      (play n p).2.session.machine = p.session.machine.after actions ∧
      (play n p).2.session.log.threshold = p.session.log.threshold := by
  cases h with
  | full h =>
    obtain ⟨p', hplay, hperforms, -⟩ := play_of_flows h
    rw [hplay]
    exact ⟨rfl, hperforms.machine, hperforms.threshold⟩
  | waiting hf h =>
    obtain ⟨p', hplay, hperforms, -⟩ := play_of_stops_awaiting hf h
    rw [hplay]
    exact ⟨rfl, hperforms.machine, hperforms.threshold⟩
  | failing hf h =>
    obtain ⟨p', hplay, hperforms, -⟩ := play_of_stops_error hf h
    rw [hplay]
    exact ⟨rfl, hperforms.machine.trans h.after_failing, hperforms.threshold⟩

/-- **Frames after a fault are not played.** -/
theorem play_of_le {e : Fault} (h : (play n p).1 = .error e) {n' : Nat} (hle : n ≤ n') :
    play n' p = play n p := by
  obtain ⟨k, rfl⟩ := Nat.exists_eq_add_of_le hle
  rw [play_add]
  rcases hplay : play n p with ⟨e' | _, p'⟩
  · rfl
  · rw [hplay] at h
    cases h

/-- **What every cycle and the end of every frame keep is kept by frames.** -/
theorem play_invariant {P : Session → Prop} (step : ∀ s, P s → P s.step.2)
    (ending : ∀ (p : Playback) s, P s → P (p.endFrame s).session) (h : P p.session) (n : Nat) :
    P (play n p).2.session := by
  -- first for the cycles of a frame, then for the frame with its end, then for all frames
  have hcycles (s : Session) (n : Nat) (h : P s) : P (s.cycles n).2 := by
    induction n generalizing s with
    | zero => exact h
    | succ n ih =>
      have hstep := step s h
      rw [Session.cycles]
      rcases hs : s.step with ⟨f | signal, s'⟩ <;> rw [hs] at hstep
      · exact hstep
      · by_cases hsignal : signal = .awaiting
        · simpa only [if_pos hsignal] using hstep
        · simpa only [if_neg hsignal] using ih s' hstep
  have hadvance (p : Playback) (h : P p.session) : P p.advance.2.session := by
    have hframe := hcycles p.session cyclesPerFrame h
    rw [advance]
    rcases hs : p.session.cycles cyclesPerFrame with ⟨f | _, s⟩ <;> rw [hs] at hframe
    · exact hframe
    · exact ending p s hframe
  induction n generalizing p with
  | zero => exact h
  | succ n ih =>
    have hfirst := hadvance p h
    rw [play]
    rcases hs : p.advance with ⟨f | _, p'⟩ <;> rw [hs] at hfirst
    · exact hfirst
    · exact ih hfirst

end Playback

/-! ### Logs and screens of runs -/

/-- **Frames note no fault**, whether they fail or not. -/
theorem Playback.regular_play {p : Playback} (h : p.session.log.Regular) (n : Nat) :
    (play n p).2.session.log.Regular := by
  refine play_invariant (P := fun s => s.log.Regular) (fun s hs => ?_) (fun p s hs => ?_) h n
  · rw [Session.log_step]
    refine hs.recordAll fun e he => ?_
    obtain ⟨i, -, rfl⟩ := Option.map_eq_some_iff.1 (Option.mem_toList.1 he)
    rfl
  · rw [endFrame]
    split
    · exact hs.record rfl
    · exact hs

/-- The text shows the screen: 32 lines of 64 characters, one for every pixel, and an empty line. -/
def Screen.Pictured (s : Screen) (text : String) : Prop :=
  ∃ rows : List String, text = unlines (rows ++ [""]) ∧ rows.length = 32 ∧
    ∀ y < 32, ∃ row, rows[y]? = some row ∧ row.length = 64 ∧
      ∀ x < 64, row.toList[x]? = some (if s.pixel x y then '#' else '.')

lemma Screen.pictured_screenText (s : Session) :
    s.machine.screen.Pictured (Report.screenText s) := by
  refine ⟨s.machine.screen.rowTexts, ?_, by simp [rowTexts], fun y hy => ?_⟩
  · simp [Report.screenText, picture, unlines]
  · refine ⟨s.machine.screen.rowText y, by simp [rowTexts, hy], by simp [rowText], fun x hx => ?_⟩
    simp [rowText, hx, mark]

/-! ### Runs -/

namespace Report

/-- What is noted behind the screen: after a fault the address of the instruction that failed, and
the fault. -/
def closing (threshold : Option Level) (address : UInt16) : Option Fault → List Event
  | none => []
  | some e =>
    if Level.error.shownAt threshold then [.faulted address e, .failed e.message] else []

/-- The screen of a run is shown whether it fails or not, and what is noted about a failure
follows. -/
lemma output_ofPlayback (fault : Option Fault) (p : Playback) (o : RunOptions) :
    (ofPlayback (fault.elim (.ok ()) .error) p o).output =
      p.session.log.events.toList.map .event ++ (elapsedOutput p.session.log.threshold ++
        .text (screenText p.session) ::
          (closing p.session.log.threshold p.session.machine.pc fault).map .event) := by
  cases fault with
  | none =>
    show (p.session.log.output ++ elapsedOutput _) ++ [.text (screenText p.session)] = _
    rw [Log.output, List.append_assoc]
    rfl
  | some e =>
    have hlast : ((Log.empty p.session.log.threshold).recordAll
        [.faulted p.session.machine.pc e, .failed e.message]).events.toList =
          closing p.session.log.threshold p.session.machine.pc (some e) := by
      rw [closing, Log.events_recordAll]
      by_cases hshown : Level.error.shownAt p.session.log.threshold
      · simp [Log.empty, Event.level, hshown]
      · simp [Log.empty, Event.level, hshown]
    show (p.session.log.output ++ elapsedOutput _ ++ [.text (screenText p.session)]) ++
      Log.output _ = _
    rw [Log.output, Log.output, hlast, List.append_assoc, List.append_assoc]
    rfl

lemma exitCode_ofPlayback (fault : Option Fault) (p : Playback) (o : RunOptions) :
    (ofPlayback (fault.elim (.ok ()) .error) p o).exitCode = if fault.isSome then 1 else 0 := by
  cases fault <;> rfl

end Report

/-- The report on a number of frames: they end after these actions, all of which succeed, and with
this fault, if any, which is that of the next cycle.

What is printed are the lines of what was noted, none of them about a fault of the program, and
about instructions only if the machine was built for that, and of how long the frames have taken;
then, in any case, the screen that the actions leave; and behind it the lines about the fault, if
errors are shown at all. One of them has the address of the instruction that failed. -/
structure Machine.Reported (m : Machine) (n : Nat) (around : Surroundings) (r : Report)
    (actions : List Action) (fault : Option Fault) : Prop where
  ends : m.Ends n actions fault
  succeeds : ∀ report ∈ m.reports actions, ∃ signal, report = .ok signal
  fails : ∀ e, fault = some e → (m.after actions).step.1 = .error e
  exitCode : r.exitCode = if fault.isSome then 1 else 0
  printed : ∃ (noted : List Event) (screen : String),
    (∀ e ∈ noted, e.isFaulted = false ∧ e.level.shownAt around.threshold ∧
      (e.level = .trace → around.traced)) ∧
    (m.after actions).screen.Pictured screen ∧
    ∀ logger milliseconds,
      let first := noted ++ timedEvents around.threshold milliseconds
      let last := logger.lines first.length
        (Report.closing around.threshold (m.after actions).pc fault)
      r.stdout logger milliseconds = logger.lines 0 first ++ screen ++ last ∧
      ∀ e, fault = some e → Level.error.shownAt around.threshold →
        ("program faulted at " ++ Hex.word (m.after actions).pc ++ ": " ++ e.message).toList <:+:
          last.toList

/-- **The report on frames says how they end.** -/
theorem Machine.reported_ofPlayback {s : Session} {n : Nat} {actions : List Action}
    {fault : Option Fault} (h : s.machine.Ends n actions fault) (hlog : s.log.Regular)
    {around : Surroundings} (hthreshold : s.log.threshold = around.cutoff) (o : RunOptions) :
    s.machine.Reported n around
      (.ofPlayback ((Playback.start s).play n).1 ((Playback.start s).play n).2 o)
      actions fault := by
  obtain ⟨hresult, hmachine, hkept⟩ := Playback.play_of_ends (p := .start s) h
  replace hmachine : ((Playback.start s).play n).2.session.machine = s.machine.after actions :=
    hmachine
  replace hkept : ((Playback.start s).play n).2.session.log.threshold = around.cutoff :=
    hkept.trans hthreshold
  rw [hresult]
  refine ⟨h, h.succeeds, ?fails, Report.exitCode_ofPlayback .., ?printed⟩
  case fails =>
    rintro e rfl
    exact h.fails
  case printed =>
    have hscreen := Screen.pictured_screenText ((Playback.start s).play n).2.session
    have hnoted := Playback.regular_play (p := .start s) hlog n
    -- errors and the time taken are shown exactly if they are noted
    have htimed (milliseconds : String) : timedEvents around.cutoff milliseconds =
        timedEvents around.threshold milliseconds := by
      rw [timedEvents, timedEvents, Surroundings.shownAt_cutoff (by decide)]
    have hclosing (a : UInt16) : Report.closing around.cutoff a fault =
        Report.closing around.threshold a fault := by
      cases fault with
      | none => rfl
      | some e => rw [Report.closing, Report.closing, Surroundings.shownAt_cutoff (by decide)]
    rw [hmachine] at hscreen
    simp only [Log.Regular, hkept, Surroundings.shownAt_cutoff_iff] at hnoted
    refine ⟨_, _, hnoted, hscreen, fun logger milliseconds => ⟨?_, ?_⟩⟩
    · rw [Report.stdout, Report.output_ofPlayback, hmachine, hkept, Logger.print_between, htimed,
        hclosing]
    · rintro e rfl hshown
      have hmem : Event.faulted (s.machine.after actions).pc e ∈
          Report.closing around.threshold (s.machine.after actions).pc (some e) := by
        rw [Report.closing, if_pos hshown]
        exact List.mem_cons_self
      exact Logger.infix_lines hmem _

namespace RunOptions

/-- The machine of a run before its first frame: the program is loaded, and the key is held down. -/
def machine (o : RunOptions) (given : Generator) (program : List UInt8) : Machine :=
  ((Machine.blank o.seed given).load program).2.press o.key

/-- The session of a run before its first frame. -/
def session (o : RunOptions) (log : Log) (given : Generator) (program : List UInt8) : Session :=
  Session.prepare ⟨((Machine.blank o.seed given).load program).2,
    log.recordAll (Session.loadEvents program.length)⟩ o

lemma machine_session (o : RunOptions) (log : Log) (given : Generator) (program : List UInt8) :
    (o.session log given program).machine = o.machine given program := by
  rw [session, Session.prepare]
  split <;> rfl

lemma threshold_session (o : RunOptions) (log : Log) (given : Generator) (program : List UInt8) :
    (o.session log given program).log.threshold = log.threshold := by
  have hload := log.threshold_recordAll (Session.loadEvents program.length)
  rw [session, Session.prepare]
  split
  · exact (Log.threshold_record _ _).trans hload
  · exact hload

lemma regular_session (o : RunOptions) {log : Log} (h : log.Regular) (given : Generator)
    (program : List UInt8) : (o.session log given program).log.Regular := by
  have hload : (log.recordAll (Session.loadEvents program.length)).Regular := by
    refine h.recordAll fun e he => ?_
    rw [Session.loadEvents] at he
    split at he <;> simp at he
    · rcases he with rfl | rfl <;> rfl
    · rw [he]; rfl
  rw [session, Session.prepare]
  split
  · exact hload.record rfl
  · exact hload

end RunOptions

section Run

variable {log : Log} {given : Generator} {o : RunOptions} {program : List UInt8}

lemma runProgram_of_oversized (h : programCapacity < program.length) :
    runProgram log given o program =
      .failure log (Fault.oversizedProgram program.length).message := by
  rw [runProgram, Session.load, Machine.load_of_oversized h]

lemma runProgram_of_fits (h : program.length ≤ programCapacity) :
    runProgram log given o program =
      let played := (Playback.start (o.session log given program)).play o.frames
      .ofPlayback played.1 played.2 o := by
  rw [runProgram, Session.load, RunOptions.session, Machine.load_of_fits h]

/-- **The report on a run says how its frames end.** -/
theorem reported_runProgram (hsize : program.length ≤ programCapacity) (hlog : log.Regular)
    {around : Surroundings} (hthreshold : log.threshold = around.cutoff)
    {actions : List Action} {fault : Option Fault}
    (h : (o.machine given program).Ends o.frames actions fault) :
    (o.machine given program).Reported o.frames around (runProgram log given o program)
      actions fault := by
  rw [← o.machine_session log] at h
  have := Machine.reported_ofPlayback h (o.regular_session hlog given program)
    ((o.threshold_session log given program).trans hthreshold) o
  rwa [o.machine_session, ← runProgram_of_fits hsize] at this

/-- **More frames change nothing about a run that has failed.** -/
theorem runProgram_of_le (hfailed : (runProgram log given o program).exitCode = 1)
    {n : Nat} (hle : o.frames ≤ n) :
    runProgram log given { o with frames := n } program = runProgram log given o program := by
  -- a program that is too large is not run at all, whatever the number of frames
  rcases Nat.lt_or_ge programCapacity program.length with hsize | hsize
  · rw [runProgram_of_oversized hsize, runProgram_of_oversized hsize]
  · obtain ⟨actions, fault, h⟩ := (o.session log given program).machine.exists_ends o.frames
    obtain ⟨hresult, -⟩ :=
      Playback.play_of_ends (p := .start (o.session log given program)) h
    cases fault with
    | none =>
      rw [runProgram_of_fits hsize] at hfailed
      simp only [hresult, Report.exitCode_ofPlayback] at hfailed
      exact absurd hfailed (by decide)
    | some e =>
      have hplay := Playback.play_of_le hresult hle
      rw [runProgram_of_fits hsize, runProgram_of_fits hsize]
      show Report.ofPlayback
        ((Playback.start (o.session log given program)).play n).1
        ((Playback.start (o.session log given program)).play n).2 { o with frames := n } = _
      rw [hplay]
      rfl

/-- With a seed the generator does not count. -/
lemma runProgram_of_seed (h : o.seed ≠ none) (given' : Generator) :
    runProgram log given' o program = runProgram log given o program := by
  have hblank : Machine.blank o.seed given' = Machine.blank o.seed given := by
    cases hseed : o.seed with
    | none => exact absurd hseed h
    | some seed => rfl
  rw [runProgram, hblank, runProgram]

end Run

/-! ### The command -/

/-- A request fails on what its file holds: the file cannot be read, or the request is a run and its
program does not fit or has a cycle that fails within the frames. -/
inductive Request.Fails (given : Generator) :
    Request → Except ReadError (List UInt8) → Prop where
  | unreadable {request : Request} {e : ReadError} : request.Fails given (.error e)
  | oversized {file : String} {o : RunOptions} {program : List UInt8} :
      3584 < program.length → (Request.run file o).Fails given (.ok program)
  | faulted {file : String} {o : RunOptions} {program : List UInt8} {actions : List Action}
      {e : Fault} : program.length ≤ 3584 →
      (o.machine given program).Ends o.frames actions (some e) →
      (Request.run file o).Fails given (.ok program)

/-- The log of a request before its program is used. -/
def Surroundings.readLog (around : Surroundings) (size : Nat) (path : String) : Log :=
  (Log.empty around.cutoff).recordAll (readEvents size path)

section Command

variable {around : Surroundings} {arguments : List String}

lemma Surroundings.threshold_readLog (around : Surroundings) (size : Nat) (path : String) :
    (around.readLog size path).threshold = around.cutoff :=
  Log.threshold_recordAll _ _

lemma Surroundings.regular_readLog (around : Surroundings) (size : Nat) (path : String) :
    (around.readLog size path).Regular :=
  (Log.regular_empty _).recordAll fun _ he => (level_readEvents he).1

/-- The events that are shown about a file are noted. -/
lemma Surroundings.output_readLog (around : Surroundings) (size : Nat) (path : String) :
    (around.readLog size path).output =
      ((readEvents size path).filter (·.level.shownAt around.threshold)).map .event := by
  rw [Log.output, readLog, Log.events_recordAll]
  congr 1
  exact List.filter_congr fun e he => shownAt_cutoff (level_readEvents he).2

lemma respond_rejected {e : UsageError} (h : Request.parse arguments = .error e) :
    respond around arguments = .misuse e := by
  rw [respond, h]

lemma respond_unreadable {request : Request} (h : Request.parse arguments = .ok request)
    {e : ReadError} (hread : around.read request.file = .error e) :
    respond around arguments = .failure (.empty around.cutoff) e.message := by
  rw [respond, h]
  simp only [hread]

lemma respond_list {file : String} (h : Request.parse arguments = .ok (.list file))
    {program : List UInt8} (hread : around.read file = .ok program) :
    respond around arguments =
      { exitCode := 0
        output := (around.readLog program.length file).output ++
          [.text (unlines (assembly program))] } := by
  rw [respond, h]
  simp only [Request.file, hread]
  rfl

lemma respond_run {file : String} {o : RunOptions}
    (h : Request.parse arguments = .ok (.run file o)) {program : List UInt8}
    (hread : around.read file = .ok program) :
    respond around arguments =
      runProgram (around.readLog program.length file) around.given o program := by
  rw [respond, h]
  simp only [Request.file, hread]
  rfl

/-- **The report on a run whose program fits.** -/
lemma reported_respond {file : String} {o : RunOptions}
    (h : Request.parse arguments = .ok (.run file o)) {program : List UInt8}
    (hread : around.read file = .ok program) (hsize : program.length ≤ programCapacity)
    {actions : List Action} {fault : Option Fault}
    (hends : (o.machine around.given program).Ends o.frames actions fault) :
    (o.machine around.given program).Reported o.frames around (respond around arguments)
      actions fault := by
  rw [respond_run h hread]
  exact reported_runProgram hsize (around.regular_readLog program.length file)
    (around.threshold_readLog program.length file) hends

lemma exitCode_of_rejected {e : UsageError} (h : Request.parse arguments = .error e) :
    (respond around arguments).exitCode = 64 := by
  rw [respond_rejected h]
  rfl

lemma exitCode_of_fails {request : Request} (h : Request.parse arguments = .ok request)
    (hfails : request.Fails around.given (around.read request.file)) :
    (respond around arguments).exitCode = 1 := by
  generalize hread : around.read request.file = content at hfails
  cases hfails with
  | unreadable => rw [respond_unreadable h hread]; rfl
  | oversized hsize => rw [respond_run h hread, runProgram_of_oversized hsize]; rfl
  | faulted hsize hends => exact (reported_respond h hread hsize hends).exitCode

lemma exitCode_of_not_fails {request : Request} (h : Request.parse arguments = .ok request)
    (hfails : ¬ request.Fails around.given (around.read request.file)) :
    (respond around arguments).exitCode = 0 := by
  cases hread : around.read request.file with
  | error e => exact absurd (hread ▸ .unreadable) hfails
  | ok program =>
    rw [hread] at hfails
    cases request with
    | list file => rw [respond_list h hread]
    | run file o =>
      have hsize : program.length ≤ programCapacity := Nat.not_lt.1 fun h => hfails (.oversized h)
      obtain ⟨actions, fault, hends⟩ := (o.machine around.given program).exists_ends o.frames
      cases fault with
      | none => exact (reported_respond h hread hsize hends).exitCode
      | some e => exact absurd (.faulted hsize hends) hfails

/-- These are all the causes that an exit code can have, so each code has no other cause than its
own. -/
lemma rejected_or_requested (around : Surroundings) (arguments : List String) :
    (∃ e, Request.parse arguments = .error e) ∨
      (∃ request, Request.parse arguments = .ok request ∧
        request.Fails around.given (around.read request.file)) ∨
      ∃ request, Request.parse arguments = .ok request ∧
        ¬ request.Fails around.given (around.read request.file) := by
  cases h : Request.parse arguments with
  | error e => exact .inl ⟨e, rfl⟩
  | ok request =>
    by_cases hfails : request.Fails around.given (around.read request.file)
    · exact .inr (.inl ⟨request, rfl, hfails⟩)
    · exact .inr (.inr ⟨request, rfl, hfails⟩)

lemma exitCode_eq_misuse_iff :
    (respond around arguments).exitCode = 64 ↔ ∃ e, Request.parse arguments = .error e := by
  constructor
  · intro hcode
    rcases rejected_or_requested around arguments with h | ⟨_, h, hfails⟩ | ⟨_, h, hfails⟩
    · exact h
    · simp [exitCode_of_fails h hfails] at hcode
    · simp [exitCode_of_not_fails h hfails] at hcode
  · rintro ⟨e, h⟩
    exact exitCode_of_rejected h

lemma exitCode_eq_failure_iff :
    (respond around arguments).exitCode = 1 ↔ ∃ request, Request.parse arguments = .ok request ∧
      request.Fails around.given (around.read request.file) := by
  constructor
  · intro hcode
    rcases rejected_or_requested around arguments with ⟨_, h⟩ | h | ⟨_, h, hfails⟩
    · simp [exitCode_of_rejected h] at hcode
    · exact h
    · simp [exitCode_of_not_fails h hfails] at hcode
  · rintro ⟨_, h, hfails⟩
    exact exitCode_of_fails h hfails

lemma exitCode_eq_success_iff :
    (respond around arguments).exitCode = 0 ↔ ∃ request, Request.parse arguments = .ok request ∧
      ¬ request.Fails around.given (around.read request.file) := by
  constructor
  · intro hcode
    rcases rejected_or_requested around arguments with ⟨_, h⟩ | ⟨_, h, hfails⟩ | h
    · simp [exitCode_of_rejected h] at hcode
    · simp [exitCode_of_fails h hfails] at hcode
    · exact h
  · rintro ⟨_, h, hfails⟩
    exact exitCode_of_not_fails h hfails

/-- A listing is printed behind the lines on its file. -/
lemma stdout_list {file : String} (h : Request.parse arguments = .ok (.list file))
    {program : List UInt8} (hread : around.read file = .ok program) (logger : Logger)
    (milliseconds : String) :
    (respond around arguments).stdout logger milliseconds =
      logger.lines 0 ((readEvents program.length file).filter
        (·.level.shownAt around.threshold)) ++ unlines (assembly program) := by
  rw [respond_list h hread, Report.stdout, around.output_readLog, Logger.print_events]
  exact congrArg _ String.append_empty

/-- **A run with a seed that has failed has the same report with more frames.** -/
lemma respond_of_le {file : String} {o : RunOptions}
    (h : Request.parse arguments = .ok (.run file o)) (hseed : o.seed ≠ none)
    (hcode : (respond around arguments).exitCode = 1) {n : Nat} (hle : o.frames ≤ n)
    {arguments' : List String}
    (h' : Request.parse arguments' = .ok (.run file { o with frames := n })) (given : Generator) :
    respond { around with given } arguments' = respond around arguments := by
  cases hread : around.read file with
  | error e =>
    have hlater : respond { around with given } arguments' =
        .failure (.empty around.cutoff) e.message := respond_unreadable h' hread
    rw [hlater, respond_unreadable h hread]
  | ok program =>
    have hseed' : ({ o with frames := n } : RunOptions).seed ≠ none := hseed
    rw [respond_run h hread] at hcode ⊢
    -- with the seed of the run the other generator does not count, and more frames are not played
    calc respond { around with given } arguments'
      _ = runProgram (around.readLog program.length file) given { o with frames := n } program :=
        respond_run h' hread
      _ = runProgram (around.readLog program.length file) around.given { o with frames := n }
            program := runProgram_of_seed hseed' given
      _ = runProgram (around.readLog program.length file) around.given o program :=
        runProgram_of_le hcode hle

/-- **The outcome of the whole command**, for all arguments, all files, all thresholds, and whatever
the logger makes of a log line:

* it exits with 64 exactly if the arguments are rejected, and then looks at no file, says on the
  standard error what is wrong, and prints version and usage and nothing else;
* otherwise it exits with 1 if the request fails on what its file holds, and with 0 if not;
* for a listing of a file that can be read it prints the listing, behind the lines on the file;
* the report on a run whose program fits says how the frames end, and what is printed of it shows
  the screen as the last cycle that succeeded left it;
* a run with a seed that has failed has the same report with any larger number of frames. The
  milliseconds that its frames have taken are no part of the report: they come in when it is
  printed, into the one line that is about them. -/
theorem command_outcome (around : Surroundings) (arguments : List String) :
    let r := respond around arguments
    (r.exitCode = 64 ↔ ∃ e, Request.parse arguments = .error e) ∧
    (∀ e, Request.parse arguments = .error e →
      r.complaint = e.message ++ "\n" ∧
      (∀ logger milliseconds,
        r.stdout logger milliseconds = unlines (versionLine :: usageLines)) ∧
      ∀ read, respond { around with read } arguments = r) ∧
    (r.exitCode = 1 ↔ ∃ request, Request.parse arguments = .ok request ∧
      request.Fails around.given (around.read request.file)) ∧
    (r.exitCode = 0 ↔ ∃ request, Request.parse arguments = .ok request ∧
      ¬ request.Fails around.given (around.read request.file)) ∧
    (∀ file program, Request.parse arguments = .ok (.list file) →
      around.read file = .ok program →
      r.exitCode = 0 ∧ ∃ listing, (Lister.start program).write.1 = .ok listing ∧
        ∀ logger milliseconds, r.stdout logger milliseconds =
          logger.lines 0 ((readEvents program.length file).filter
            (·.level.shownAt around.threshold)) ++ listing) ∧
    (∀ file o program, Request.parse arguments = .ok (.run file o) →
      around.read file = .ok program → program.length ≤ 3584 → ∃ actions fault,
        (o.machine around.given program).Reported o.frames around r actions fault) ∧
    (∀ file o n arguments' given, Request.parse arguments = .ok (.run file o) → o.seed ≠ none →
      r.exitCode = 1 → o.frames ≤ n →
      Request.parse arguments' = .ok (.run file { o with frames := n }) →
      respond { around with given } arguments' = r) := by
  intro r
  refine ⟨exitCode_eq_misuse_iff, ?misuse, exitCode_eq_failure_iff, exitCode_eq_success_iff, ?list,
    ?run, ?later⟩
  case misuse =>
    intro e h
    have hr : r = .misuse e := respond_rejected h
    refine ⟨by rw [hr, Report.misuse], fun logger milliseconds => ?_, fun read => ?_⟩
    · rw [hr, Report.stdout]
      exact String.append_empty
    · rw [hr, respond_rejected h]
  case list =>
    intro file program h hread
    -- the listing is what the lister writes, line by line
    have hwrite : (Lister.start program).write.1 = .ok (unlines (assembly program)) := by
      rw [Lister.write_eq]
      rfl
    refine ⟨?_, _, hwrite, stdout_list h hread⟩
    rw [show r = _ from respond_list h hread]
  case run =>
    intro file o program h hread hsize
    obtain ⟨actions, fault, hends⟩ := (o.machine around.given program).exists_ends o.frames
    exact ⟨actions, fault, reported_respond h hread hsize hends⟩
  case later =>
    intro file o n arguments' given h hseed hcode hle h'
    exact respond_of_le h hseed hcode hle h' given

end Command

end Source

/-- What a run finds that is given a file and a generator, with the log lines up to a level. -/
def doomed (given : Generator) : Surroundings where
  threshold := some .info
  traced := false
  given := given
  read _ := .ok Playback.doom

/-- A program that fails in the second of its frames, a file that is listed, and a command without
arguments. -/
theorem command_outcome_doomed :
    (respond (doomed (.ofSeed 3)) []).exitCode = 64 ∧
    (respond (doomed (.ofSeed 3)) []).complaint = "missing command\n" ∧
    (respond (doomed (.ofSeed 3)) ["dis", "doom.ch8"]).exitCode = 0 ∧
    (respond (doomed (.ofSeed 3)) ["run", "doom.ch8", "--seed", "7", "--frames", "3"]).exitCode =
      1 ∧
    (∃ actions fault, (RunOptions.machine { frames := 3, seed := some 7 } (.ofSeed 3)
      Playback.doom).Reported 3 (doomed (.ofSeed 3))
        (respond (doomed (.ofSeed 3)) ["run", "doom.ch8", "--seed", "7", "--frames", "3"])
        actions fault) ∧
    respond (doomed (.ofSeed 4)) ["run", "doom.ch8", "--frames", "800", "--seed", "7"] =
      respond (doomed (.ofSeed 3)) ["run", "doom.ch8", "--seed", "7", "--frames", "3"] := by
  obtain ⟨hrejected, hmisuse, -⟩ := command_outcome (doomed (.ofSeed 3)) []
  obtain ⟨-, -, -, -, hlist, -⟩ := command_outcome (doomed (.ofSeed 3)) ["dis", "doom.ch8"]
  obtain ⟨-, -, hfails, -, -, hrun, hlater⟩ := command_outcome (doomed (.ofSeed 3))
    ["run", "doom.ch8", "--seed", "7", "--frames", "3"]
  have hparse : Request.parse ["run", "doom.ch8", "--seed", "7", "--frames", "3"] =
      .ok (.run "doom.ch8" { frames := 3, seed := some 7 }) := by decide
  have hparse' : Request.parse ["run", "doom.ch8", "--frames", "800", "--seed", "7"] =
      .ok (.run "doom.ch8" { frames := 800, seed := some 7 }) := by decide
  -- the second cycle of the second frame fails
  have hends : (RunOptions.machine { frames := 3, seed := some 7 } (.ofSeed 3)
      Playback.doom).Ends 3 (actionsBefore 1 1) (some (.unknownWord 0xFFFF)) :=
    .failing (by decide) ⟨by decide, by decide +kernel, by decide +kernel⟩
  have hone := hfails.2 ⟨_, hparse, .faulted (by decide) hends⟩
  exact ⟨hrejected.2 ⟨_, rfl⟩, (hmisuse _ rfl).1, (hlist _ _ rfl rfl).1, hone,
    hrun _ _ _ hparse rfl (by decide),
    hlater _ _ _ _ (.ofSeed 4) hparse (by decide) hone (by decide) hparse'⟩

end Chip8
