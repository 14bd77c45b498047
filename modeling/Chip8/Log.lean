import Chip8.Instruction.Basic

/-!
What happens while the machine is used, as events: each is data, with a level, a
source and a wording. A log keeps the events up to a level, in their order.

How a log line looks is up to the logger: its layout, its colours and whether it has the
time in it. Only the wording is sure to be in the line.

* `Level.shownAt`: whether a level is within a threshold;
* `Event.message`: the wording of an event;
* `Log.record`: one more event, unless it is beyond the threshold;
* `Logger`: the lines of a log as text.
-/

namespace Chip8

/-! ### Levels -/

/-- How much an event matters. -/
inductive Level where
  | error
  | warn
  | info
  | debug
  | trace
  deriving DecidableEq, Repr

namespace Level

/-- The position of a level, the most urgent first. -/
def rank : Level → Nat
  | error => 0
  | warn => 1
  | info => 2
  | debug => 3
  | trace => 4

/-- Whether a level is within a threshold; without a threshold nothing is. -/
def shownAt (threshold : Option Level) (l : Level) : Bool :=
  threshold.any (l.rank ≤ ·.rank)

/-- The level, or the limit if the level is less urgent. -/
def upTo (limit l : Level) : Level :=
  if l.rank ≤ limit.rank then l else limit

end Level

/-! ### Events -/

/-- Where an event comes from. -/
inductive Source where
  /-- The machine itself. -/
  | machine
  /-- The reader of program files. -/
  | reader
  /-- The command. -/
  | command
  deriving DecidableEq, Repr

/-- The name of a source as a log line has it. -/
def Source.label : Source → String
  | machine => "chip8_vm::vm"
  | reader => "chip8::rom"
  | command => "chip8"

/-- Something worth noting. -/
inductive Event where
  /-- An instruction is about to be executed. -/
  | executing (address : UInt16) (i : Instruction)
  /-- A program of an odd number of bytes ends in half an instruction. -/
  | halfInstruction (size : Nat)
  /-- A program was loaded. -/
  | loaded (size : Nat)
  /-- A program file was read. -/
  | fileRead (size : Nat) (path : String)
  /-- A program file has no bytes. -/
  | fileEmpty (path : String)
  /-- A program file has more bytes than the program area. -/
  | fileOversized (path : String)
  /-- The random bytes follow from a seed. -/
  | seeded (seed : UInt64)
  /-- The buzzer started or stopped at the end of a frame. -/
  | buzzer (frame : Nat) (on : Bool)
  /-- The frames of a run are over, or one of them has failed, after so many milliseconds. -/
  | timed (milliseconds : String)
  /-- The program at an address could not go on. -/
  | faulted (address : UInt16) (fault : Fault)
  /-- The command gives up. -/
  | failed (reason : String)
  deriving DecidableEq, Repr

namespace Event

/-- How much an event matters. -/
def level : Event → Level
  | executing .. => .trace
  | loaded .. | buzzer .. => .debug
  | fileRead .. | seeded .. | timed .. => .info
  | halfInstruction .. | fileEmpty .. | fileOversized .. => .warn
  | faulted .. | failed .. => .error

/-- Where an event comes from. -/
def source : Event → Source
  | executing .. | halfInstruction .. | loaded .. => .machine
  | fileRead .. | fileEmpty .. | fileOversized .. => .reader
  | seeded .. | buzzer .. | timed .. | faulted .. | failed .. => .command

/-- The wording of an event. -/
def message : Event → String
  | executing a i => Hex.word a ++ ": " ++ Hex.word i.word ++ " " ++ i.text
  | halfInstruction size =>
      "program length " ++ toString size ++ " is odd, final instruction is zero padded"
  | loaded size =>
      "loaded program: " ++ toString size ++ " bytes, " ++ toString ((size + 1) / 2) ++ " words"
  | fileRead size path => "read " ++ toString size ++ " bytes from " ++ path
  | fileEmpty path => "ROM " ++ path ++ " is empty"
  | fileOversized path =>
      "ROM " ++ path ++ " exceeds the " ++ toString programCapacity ++ " byte program area"
  | seeded seed => "random number generator seeded with " ++ toString seed.toNat
  | buzzer frame on =>
      "frame " ++ toString frame ++ ": buzzer " ++ if on then "on" else "off"
  | timed milliseconds => "time taken: " ++ milliseconds ++ "ms"
  | faulted a f => "program faulted at " ++ Hex.word a ++ ": " ++ f.message
  | failed reason => "application error: " ++ reason

end Event

/-! ### Logs -/

/-- The events up to a level, the oldest first. -/
structure Log where
  threshold : Option Level
  events : Array Event
  deriving DecidableEq, Repr

namespace Log

/-- No event yet. -/
def empty (threshold : Option Level) : Log :=
  ⟨threshold, #[]⟩

/-- One more event, unless it is beyond the threshold. -/
def record (log : Log) (e : Event) : Log :=
  if e.level.shownAt log.threshold then { log with events := log.events.push e } else log

/-- More events, each unless it is beyond the threshold. -/
def recordAll (log : Log) (events : List Event) : Log :=
  events.foldl record log

end Log

/-! ### Log lines -/

/-- How log lines look. -/
structure Logger where
  /-- The line of a level, a source and a wording. It may also depend on the number of lines
  before it, as a line with the time in it does. -/
  line : Nat → Level → String → String → String
  /-- The wording is in the line as it is. -/
  shows : ∀ n l source message, message.toList <:+: (line n l source message).toList

/-- The line of an event behind `n` other lines. -/
def Logger.lineOf (logger : Logger) (n : Nat) (e : Event) : String :=
  logger.line n e.level e.source.label e.message

end Chip8
