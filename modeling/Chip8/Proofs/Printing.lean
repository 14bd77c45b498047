import Chip8.Command.Report
import Chip8.Proofs.Frames

/-!
What the command prints.

Log lines and other text are printed in one order, and the logger may put into a line how many
others came before it. So the text of a list of events depends on the number of lines in front of
it, and on nothing else that was printed. The line about the time that the frames have taken is
printed like that of an event.

* `Log.Regular`: a log within its threshold that notes no fault, and what it holds;
* `Surroundings.shownAt_cutoff_iff`: what is noted is what is shown, instructions apart;
* `Logger.print_events`, `Logger.print_elapsed`: the output part by part;
* `Logger.infix_lines`: the wording of an event is in the text.
-/

namespace Chip8

/-! ### What is noted -/

/-- The event is the note that a program could not go on. -/
def Event.isFaulted : Event → Bool
  | faulted .. => true
  | _ => false

namespace Log

lemma threshold_recordAll (log : Log) (events : List Event) :
    (log.recordAll events).threshold = log.threshold := by
  induction events generalizing log with
  | nil => rfl
  | cons e rest ih => exact (ih (log.record e)).trans (log.threshold_record e)

/-- The events that are taken up are those within the threshold. -/
lemma events_recordAll (log : Log) (events : List Event) :
    (log.recordAll events).events.toList =
      log.events.toList ++ events.filter (·.level.shownAt log.threshold) := by
  induction events generalizing log with
  | nil => simp [recordAll]
  | cons e rest ih =>
    have hfirst : (log.record e).events.toList =
        log.events.toList ++ [e].filter (·.level.shownAt log.threshold) := by
      rw [record]
      split <;> simp [*]
    have hrest := ih (log.record e)
    rw [hfirst, threshold_record, List.append_assoc, ← List.filter_append] at hrest
    exact hrest

/-- Every event of the log is within its threshold, and none notes that a program could not go
on. -/
def Regular (log : Log) : Prop :=
  ∀ e ∈ log.events.toList, e.isFaulted = false ∧ e.level.shownAt log.threshold

lemma regular_empty (threshold : Option Level) : (empty threshold).Regular :=
  fun _ he => absurd he List.not_mem_nil

lemma Regular.recordAll {log : Log} (h : log.Regular) {events : List Event}
    (hevents : ∀ e ∈ events, e.isFaulted = false) : (log.recordAll events).Regular := by
  rw [Regular, events_recordAll, threshold_recordAll, List.forall_mem_append]
  refine ⟨h, fun e he => ?_⟩
  obtain ⟨hmem, hshown⟩ := List.mem_filter.1 he
  exact ⟨hevents e hmem, hshown⟩

lemma Regular.record {log : Log} (h : log.Regular) {e : Event} (he : e.isFaulted = false) :
    (log.record e).Regular := by
  have hevents : ∀ e' ∈ [e], e'.isFaulted = false := List.forall_mem_singleton.2 he
  exact h.recordAll hevents

end Log

/-- What is noted about a file is no fault of a program and no instruction. -/
lemma level_readEvents {size : Nat} {path : String} {e : Event} (he : e ∈ readEvents size path) :
    e.isFaulted = false ∧ e.level ≠ .trace := by
  simp only [readEvents, List.mem_append, List.mem_singleton, List.mem_ite_nil_right] at he
  rcases he with (rfl | ⟨-, rfl⟩) | ⟨-, rfl⟩ <;> exact ⟨rfl, by simp [Event.level]⟩

section Cutoff

variable [RandomSource] {around : Surroundings} {l : Level}

/-- What is noted is what is shown, but instructions only by a machine that was built for it. -/
lemma Surroundings.shownAt_cutoff_iff :
    l.shownAt around.cutoff ↔ l.shownAt around.threshold ∧ (l = .trace → around.traced) := by
  rw [cutoff]
  cases htraced : around.traced with
  | true => simp
  | false =>
    cases around.threshold with
    | none => simp [Level.shownAt]
    | some threshold => cases l <;> cases threshold <;> simp [Level.shownAt, Level.upTo, Level.rank]

/-- What is noted at another level than the last is what is shown. -/
lemma Surroundings.shownAt_cutoff (h : l ≠ .trace) :
    l.shownAt around.cutoff = l.shownAt around.threshold := by
  rw [Bool.eq_iff_iff, shownAt_cutoff_iff]
  exact and_iff_left fun htrace => absurd htrace h

end Cutoff

/-! ### Printing -/

/-- What is noted about the time that the frames have taken. -/
def timedEvents (threshold : Option Level) (milliseconds : String) : List Event :=
  if Level.info.shownAt threshold then [.timed milliseconds] else []

namespace Logger

variable {logger : Logger}

/-- The lines of events, behind `n` others. -/
def lines (logger : Logger) (n : Nat) (events : List Event) : String :=
  unlines (events.mapIdx fun k e => logger.lineOf (n + k) e)

@[simp] lemma lines_nil (n : Nat) : logger.lines n [] = "" := rfl

lemma lines_cons (n : Nat) (e : Event) (rest : List Event) :
    logger.lines n (e :: rest) = logger.lineOf n e ++ "\n" ++ logger.lines (n + 1) rest := by
  have hshift : (fun k e => logger.lineOf (n + (k + 1)) e) =
      fun k e => logger.lineOf (n + 1 + k) e := by
    funext k e
    rw [Nat.add_right_comm, Nat.add_assoc]
  simp [lines, unlines, List.mapIdx_cons, hshift]

lemma lines_append (n : Nat) (first rest : List Event) :
    logger.lines n (first ++ rest) =
      logger.lines n first ++ logger.lines (n + first.length) rest := by
  induction first generalizing n with
  | nil => simp
  | cons e first ih =>
    rw [List.cons_append, lines_cons, lines_cons, ih, List.length_cons, Nat.add_right_comm,
      Nat.add_assoc, ← String.append_assoc]

variable {milliseconds : String}

lemma print_events (n : Nat) (events : List Event) (rest : List Output) :
    logger.print milliseconds n (events.map .event ++ rest) =
      logger.lines n events ++ logger.print milliseconds (n + events.length) rest := by
  induction events generalizing n with
  | nil => simp [lines, unlines]
  | cons e events ih =>
    rw [List.map_cons, List.cons_append, print, ih, lines_cons, List.length_cons,
      Nat.add_right_comm, Nat.add_assoc, ← String.append_assoc]

/-- The time that the frames have taken is printed as the line of an event. -/
lemma print_elapsed (threshold : Option Level) (n : Nat) (rest : List Output) :
    logger.print milliseconds n (elapsedOutput threshold ++ rest) =
      logger.lines n (timedEvents threshold milliseconds) ++
        logger.print milliseconds (n + (timedEvents threshold milliseconds).length) rest := by
  rw [elapsedOutput, timedEvents]
  split
  · simp [print, lines_cons]
  · simp

/-- Text between the lines of events: those that come first, the time that the frames have taken
among them, and those that come last. -/
lemma print_between (threshold : Option Level) (noted last : List Event) (text : String) :
    let first := noted ++ timedEvents threshold milliseconds
    logger.print milliseconds 0 (noted.map .event ++ (elapsedOutput threshold ++
      .text text :: last.map .event)) =
        logger.lines 0 first ++ text ++ logger.lines first.length last := by
  intro first
  have hlast : logger.print milliseconds first.length (last.map .event) =
      logger.lines first.length last := by
    rw [← List.append_nil (last.map Output.event), print_events, print, String.append_empty]
  have hlength : 0 + noted.length + (timedEvents threshold milliseconds).length =
      first.length := by
    rw [Nat.zero_add, ← List.length_append]
  -- the text in between is no line, so the count goes on behind it where it stood
  rw [print_events, print_elapsed, print, hlength, hlast, lines_append, String.append_assoc,
    String.append_assoc, Nat.zero_add]

/-- The wording of an event is in the text of its lines. -/
lemma infix_lines {events : List Event} {e : Event} (h : e ∈ events) (n : Nat) :
    e.message.toList <:+: (logger.lines n events).toList := by
  induction events generalizing n with
  | nil => exact absurd h List.not_mem_nil
  | cons e' rest ih =>
    rw [lines_cons, String.toList_append, String.toList_append]
    rcases List.mem_cons.1 h with rfl | hrest
    · have hline := logger.shows n e.level e.source.label e.message
      exact (hline.trans (List.prefix_append _ _).isInfix).trans (List.prefix_append _ _).isInfix
    · exact (ih hrest (n + 1)).trans (List.suffix_append _ _).isInfix

end Logger

end Chip8
