import Mathlib.Tactic.Common
import Chip8.Host.Random
import Chip8.Proofs.Listing.Lines
import Chip8.Proofs.Loading
import Chip8.Session.Basic

/-!
The trace of a run and the listing of its program agree.

A watched cycle notes the instruction that it decodes before it executes it, and notes nothing if
there is none. The words of this note are those of the line of the listing that shows the
instruction, apart from one blank. So as long as a program has not changed itself at a place, the
listing foretells what is noted there.

* `log_step`, `log_runFrom`: what cycles and runs note;
* `toList_message`, `address_message`, `message_eq_narrow`: the words of a note;
* `trace_agrees_with_listing`: notes and lines.
-/

namespace Chip8

/-! ### What is noted -/

lemma Log.recordAll_of_trace {log : Log} (h : log.threshold = some .trace) (events : List Event) :
    (log.recordAll events).threshold = some .trace ∧
      (log.recordAll events).events.toList = log.events.toList ++ events := by
  induction events generalizing log with
  | nil => exact ⟨h, by simp [recordAll]⟩
  | cons e rest ih =>
    have hshown : e.level.shownAt log.threshold = true := by
      rw [h]
      cases e.level <;> rfl
    have hrecord : log.record e = { log with events := log.events.push e } := by
      rw [record, if_pos hshown]
    have hnext : (log.record e).threshold = some .trace := by rw [hrecord, h]
    obtain ⟨hthreshold, hevents⟩ := ih hnext
    rw [recordAll, List.foldl_cons, ← recordAll]
    exact ⟨hthreshold, by rw [hevents, hrecord]; simp⟩

lemma Log.recordAll_append (log : Log) (first rest : List Event) :
    log.recordAll (first ++ rest) = (log.recordAll first).recordAll rest :=
  List.foldl_append

section Notes

variable [RandomSource]

/-- What is noted about the cycle that starts in a machine: the instruction, if one is decoded. -/
def Machine.noted? (m : Machine) : Option Event :=
  m.fetch.toOption.map (.executing m.pc)

lemma Machine.filterMap_noted_cons (m : Machine) (rest : List Machine) :
    (m :: rest).filterMap noted? = m.noted?.toList ++ rest.filterMap noted? := by
  rw [List.filterMap_cons]
  cases m.noted? <;> rfl

namespace Session

/-- **A watched cycle notes its instruction**, if it decodes one, and nothing else. -/
theorem log_step (s : Session) : s.step.2.log = s.log.recordAll s.machine.noted?.toList := by
  rw [step, Machine.noted?]
  cases s.machine.fetch <;> rfl

lemma step_eq (s : Session) :
    s.step = (s.machine.step.1, ⟨s.machine.step.2, s.log.recordAll s.machine.noted?.toList⟩) := by
  rw [← result_step, ← machine_step, ← log_step]

/-- **A watched run notes what its cycles note**, in their order. -/
theorem log_runFrom (last : Signal) (n : Nat) (s : Session) :
    (runFrom last n s).2.log =
      s.log.recordAll ((Machine.runCycles n s.machine).filterMap Machine.noted?) := by
  induction n generalizing last s with
  | zero => rfl
  | succ n ih =>
    rw [runFrom, step_eq, Machine.runCycles]
    rcases s.machine.step with ⟨f | signal, m'⟩
    · rw [Machine.filterMap_noted_cons, List.filterMap_nil, List.append_nil]
    · rw [Machine.filterMap_noted_cons, Log.recordAll_append]
      exact ih signal _

end Session

end Notes

/-! ### The words of a note -/

namespace Event

variable (a : UInt16) (i : Instruction)

/-- What stands in a note: address, word, and the text of the instruction. -/
lemma toList_message : (executing a i).message.toList =
    (Hex.address a.toNat).toList ++
      ':' :: ' ' :: ((Hex.word i.word).toList ++ ' ' :: i.text.toList) := by
  have hparts : ∀ address word text : String,
      (address ++ ": " ++ word ++ " " ++ text).toList =
        address.toList ++ ':' :: ' ' :: (word.toList ++ ' ' :: text.toList) := by simp
  rw [Hex.address_toNat]
  exact hparts (Hex.word a) (Hex.word i.word) i.text

lemma address_message :
    Numeral.value? 16 (Line.address (executing a i).message) = some a.toNat := by
  rw [Line.address_eq (toList_message a i), Hex.value?_address]

/-- **The words of a note are those of the line of its instruction**, with one blank less. -/
lemma message_eq_narrow {high low : UInt8}
    (hdecode : Instruction.decode (Memory.wordOf high low) = .ok i) :
    (executing a i).message.toList =
      Line.narrow (Row.assembly ⟨a.toNat, [high, low]⟩).toList := by
  have hreading : Row.reading? ⟨a.toNat, [high, low]⟩ = some (.instruction i) := by
    simp only [Row.reading?, Reading.ofWord, hdecode]
  have htext : (Reading.instruction i).text.toList = ' ' :: ' ' :: i.text.toList := by
    rw [Reading.text, String.toList_append]
    rfl
  rw [toList_message, narrow_assembly hreading htext, digitsOf_pair,
    Instruction.decode_eq_ok_iff.1 hdecode]

end Event

/-! ### Notes and lines -/

section Agreement

variable [RandomSource]

namespace Machine

variable {m : Machine} {program : List UInt8} {i : Nat}

/-- At the place of a full word that lies in memory as in the program, this word is decoded. -/
lemma fetch_eq_decode (hsize : program.length ≤ programCapacity)
    (hfull : 2 * i + 1 < program.length) (hpc : m.pc.toNat = 0x200 + 2 * i)
    (hhigh : m.memory.byte (0x200 + 2 * i) = program[2 * i])
    (hlow : m.memory.byte (0x200 + 2 * i + 1) = program[2 * i + 1]) :
    m.fetch = Instruction.decode (Memory.wordOf program[2 * i] program[2 * i + 1]) := by
  have hend : m.pc.toNat + 2 ≤ memorySize := by
    have hcap : programCapacity = 3584 := rfl
    have hmem : memorySize = 4096 := rfl
    omega
  have hread : m.memory.readWord m.pc.toNat =
      .ok (Memory.wordOf program[2 * i] program[2 * i + 1]) := by
    rw [Memory.readWord_eq_ok_iff, hpc, hhigh, hlow]
    exact ⟨hpc ▸ hend, rfl⟩
  rw [fetch, hread]

/-- The notes about cycles, one for each that decodes an instruction. -/
lemma forall₂_noted (cycles : List Machine) :
    List.Forall₂ (fun c e => e.level = .trace ∧ (∃ i, c.fetch = .ok i ∧ e = .executing c.pc i) ∧
        Numeral.value? 16 (Line.address e.message) = some c.pc.toNat)
      (cycles.filter (·.fetch.isOk)) (cycles.filterMap noted?) := by
  induction cycles with
  | nil => exact .nil
  | cons c rest ih =>
    rw [List.filter_cons, List.filterMap_cons, noted?]
    cases hfetch : c.fetch with
    | error f => exact ih
    | ok i => exact .cons ⟨rfl, ⟨i, hfetch, rfl⟩, Event.address_message c.pc i⟩ ih

end Machine

namespace Session

variable {s : Session} {high low : UInt8}

/-- A cycle that decodes the word of a row notes the line of the row, if that is the line of an
instruction. -/
lemma log_step_of_isInstruction (hlog : s.log.threshold = some .trace)
    (hfetch : s.machine.fetch = Instruction.decode (Memory.wordOf high low))
    (hline : Line.IsInstruction (Row.assembly ⟨s.machine.pc.toNat, [high, low]⟩)) :
    ∃ e, s.step.2.log = { s.log with events := s.log.events.push e } ∧ e.level = .trace ∧
      e.message.toList = Line.narrow (Row.assembly ⟨s.machine.pc.toNat, [high, low]⟩).toList := by
  cases hdecode : Instruction.decode (Memory.wordOf high low) with
  | error f =>
    have hreading : Row.reading? ⟨s.machine.pc.toNat, [high, low]⟩ =
        some (.dataWord (Memory.wordOf high low)) := by
      simp only [Row.reading?, Reading.ofWord, hdecode]
    exact absurd ((mnemonic_assembly_iff hreading).1.2 ⟨_, rfl⟩) hline.1
  | ok i =>
    refine ⟨.executing s.machine.pc i, ?_, rfl, Event.message_eq_narrow _ _ hdecode⟩
    have hshown : Level.trace.shownAt s.log.threshold = true := by
      rw [hlog]
      rfl
    rw [log_step, Machine.noted?, hfetch, hdecode]
    exact if_pos hshown

/-- A cycle that comes to a row that is marked as a data word notes nothing and reports the
word. -/
lemma step_of_mnemonic (hfetch : s.machine.fetch = Instruction.decode (Memory.wordOf high low))
    (hline : Line.mnemonic (Row.assembly ⟨s.machine.pc.toNat, [high, low]⟩) = "DW") :
    s.step.2.log = s.log ∧
      ∃ w, Numeral.value? 16 (Line.digits (Row.assembly ⟨s.machine.pc.toNat, [high, low]⟩)) =
          some w.toNat ∧
        s.step.1 = .error (.unknownWord w) := by
  have hreading : Row.reading? ⟨s.machine.pc.toNat, [high, low]⟩ =
      some (.ofWord (Memory.wordOf high low)) := rfl
  cases hdecode : Instruction.decode (Memory.wordOf high low) with
  | ok i =>
    obtain ⟨w, hw⟩ := (mnemonic_assembly_iff hreading).1.1 hline
    simp [Reading.ofWord, hdecode] at hw
  | error f =>
    rw [hdecode] at hfetch
    refine ⟨?_, Memory.wordOf high low, ?_, ?_⟩
    · rw [log_step, Machine.noted?, hfetch]
      rfl
    · rw [digits_assembly hreading, digitsOf_pair, Hex.value?_word]
    · rw [step, hfetch, (Instruction.decode_eq_error_iff.1 hdecode).1]

end Session

/-- **The trace of a run and the listing of its program agree.** A program is loaded, and whatever
happens then leaves the two bytes of a full word as they are. If the program counter comes to this
word and its line in the listing is that of an instruction, then the next cycle notes exactly one
message, also if the instruction fails, and this is the line with one blank less. If the line is
marked `DW`, then the cycle notes nothing and reports the word of the line as unknown.

Every run notes one message for each of its cycles that decode an instruction, in their order, and
each message starts with the program counter of its cycle. -/
theorem trace_agrees_with_listing :
    (∀ (start : Machine) (program : List UInt8) (history : List Operation) (log : Log) (i : Nat)
      (line : String),
      program.length ≤ programCapacity → 2 * i + 1 < program.length →
      (assembly program)[i]? = some line → log.threshold = some .trace →
      let loaded := (start.load program).2
      let s : Session := ⟨loaded.afterAll history, log⟩
      s.machine.memory.byte (0x200 + 2 * i) = loaded.memory.byte (0x200 + 2 * i) →
      s.machine.memory.byte (0x200 + 2 * i + 1) = loaded.memory.byte (0x200 + 2 * i + 1) →
      s.machine.pc.toNat = 0x200 + 2 * i →
      (Line.IsInstruction line →
        ∃ e, s.step.2.log = { log with events := log.events.push e } ∧ e.level = .trace ∧
          e.message.toList = Line.narrow line.toList) ∧
      (Line.mnemonic line = "DW" →
        s.step.2.log = log ∧
        ∃ w, Numeral.value? 16 (Line.digits line) = some w.toNat ∧
          s.step.1 = .error (.unknownWord w))) ∧
    (∀ (s : Session) (n : Nat), s.log.threshold = some .trace →
      ∃ notes, (s.run n).2.log.events.toList = s.log.events.toList ++ notes ∧
        List.Forall₂ (fun c e => e.level = .trace ∧
            (∃ i, c.fetch = .ok i ∧ e = .executing c.pc i) ∧
            Numeral.value? 16 (Line.address e.message) = some c.pc.toNat)
          ((Machine.runCycles n s.machine).filter (·.fetch.isOk)) notes) := by
  constructor
  · intro start program history log i line hsize hfull hline hlog loaded s hhigh hlow hpc
    have hloaded : Machine.Loaded loaded program := Machine.loaded_load hsize start
    have hline : line =
        Row.assembly ⟨s.machine.pc.toNat, [program[2 * i], program[2 * i + 1]]⟩ := by
      rw [getElem?_assembly hfull, Option.some.injEq] at hline
      rw [hpc, ← hline]
    -- both bytes are those of the program, so the machine decodes the word that was listed
    have hfetch : s.machine.fetch =
        Instruction.decode (Memory.wordOf program[2 * i] program[2 * i + 1]) :=
      Machine.fetch_eq_decode hsize hfull hpc (hhigh.trans (hloaded.bytes _ _))
        (hlow.trans (hloaded.bytes _ hfull))
    subst hline
    exact ⟨Session.log_step_of_isInstruction hlog hfetch, Session.step_of_mnemonic hfetch⟩
  · intro s n hlog
    refine ⟨(Machine.runCycles n s.machine).filterMap Machine.noted?, ?_, Machine.forall₂_noted _⟩
    rw [Session.run, Session.log_runFrom]
    exact (Log.recordAll_of_trace hlog _).2

end Agreement

/-- A program that returns to nowhere, and a word that is no instruction. -/
def stray : List UInt8 :=
  [0x00, 0xEE, 0xFF, 0xFF]

/-- The instruction that fails is noted as it is listed, the unknown word behind it is not noted,
and a run has no further notes. -/
theorem trace_agrees_with_listing_stray :
    let loaded := ((Machine.blank (some 7) (.ofSeed 7)).load stray).2
    let log : Log := .empty (some .trace)
    let s : Session := ⟨loaded, log⟩
    let beyond : Session := ⟨loaded.afterAll [.edit (.setPc 0x202)], log⟩
    (∃ e, s.step.2.log = { log with events := log.events.push e } ∧ e.level = .trace ∧
      e.message.toList = Line.narrow "0200: 00EE  RET".toList) ∧
    s.step.1 = .error .stackUnderflow ∧
    beyond.step.2.log = log ∧
    (∃ w, Numeral.value? 16 (Line.digits "0202: FFFF  DW 0xFFFF") = some w.toNat ∧
      beyond.step.1 = .error (.unknownWord w)) ∧
    ∃ e, (s.run 5).2.log.events.toList = [e] ∧
      Numeral.value? 16 (Line.address e.message) = some 0x200 := by
  intro loaded log s beyond
  obtain ⟨hline, hrun⟩ := trace_agrees_with_listing
  have hsize : stray.length ≤ programCapacity := by decide
  have hfail : loaded.step.1 = .error .stackUnderflow := by decide +kernel
  obtain ⟨hnoted, -⟩ := hline (.blank (some 7) (.ofSeed 7)) stray [] log 0 "0200: 00EE  RET" hsize
    (by decide) (by decide +kernel) rfl rfl rfl (by decide +kernel)
  obtain ⟨-, hword⟩ := hline (.blank (some 7) (.ofSeed 7)) stray [.edit (.setPc 0x202)] log 1
    "0202: FFFF  DW 0xFFFF" hsize (by decide) (by decide +kernel) rfl rfl rfl (by decide +kernel)
  obtain ⟨notes, hevents, hnotes⟩ := hrun s 5 rfl
  have hcycles : (Machine.runCycles 5 loaded).filter (·.fetch.isOk) = [loaded] := by
    have hdecodes : loaded.fetch.isOk = true := by decide +kernel
    rw [Machine.runCycles]
    rcases hstep : loaded.step with ⟨f | signal, m'⟩
    · exact List.filter_cons_of_pos hdecodes
    · rw [hstep] at hfail
      cases hfail
  rw [hcycles] at hnotes
  obtain _ | ⟨⟨-, -, haddress⟩, hrest⟩ := hnotes
  obtain _ | _ := hrest
  have hdata : Line.mnemonic "0202: FFFF  DW 0xFFFF" = "DW" := by decide +kernel
  have hinstruction : Line.IsInstruction "0200: 00EE  RET" := by
    constructor <;> decide +kernel
  refine ⟨hnoted hinstruction, ?_, (hword hdata).1, (hword hdata).2, _, hevents, haddress⟩
  rw [Session.result_step]
  exact hfail

end Chip8
