import Chip8.Command.Arguments
import Chip8.Command.Usage
import Chip8.Listing.Assembly
import Chip8.Session.Playback

/-!
What the command answers: everything that it prints, and its exit code, as a
function of its arguments and of what it finds around it.

A command that is used wrongly exits with 64 and reads no file. A file that cannot
be read, a program that does not fit and a program that faults exit with 1. The
screen is shown after a fault, too: it is what the last good cycle left.

* `Surroundings`: what the command finds around it;
* `Report`: exit code and output, and `Report.stdout`, the output as text;
* `respond`: the answer of the command.
-/

namespace Chip8

variable [RandomSource]

/-- Why a file could not be read. -/
inductive ReadError where
  /-- There is no such file. -/
  | missing
  /-- The file must not be read. -/
  | denied
  /-- The name is that of a directory. -/
  | directory
  /-- Any other reason, in the words of the system. -/
  | other (reason : String)
  deriving DecidableEq, Repr

/-- The wording of a file that could not be read. -/
def ReadError.message : ReadError → String
  | missing => "No such file or directory (os error 2)"
  | denied => "Permission denied (os error 13)"
  | directory => "Is a directory (os error 21)"
  | other reason => reason

/-- What the command finds around it. -/
structure Surroundings where
  /-- The least urgent level of the events that are shown. -/
  threshold : Option Level
  /-- Whether the machine was built to note the instructions that it executes. -/
  traced : Bool
  /-- The generator of a run without a seed. -/
  given : Generator
  /-- What the files hold. -/
  read : String → Except ReadError (List UInt8)

/-- The least urgent level of the events that are noted. Instructions are what is noted at the
last level. -/
def Surroundings.cutoff (around : Surroundings) : Option Level :=
  if around.traced then around.threshold else around.threshold.map (Level.upTo .debug)

/-! ### Output -/

/-- A part of the standard output. -/
inductive Output where
  /-- The log line of an event. -/
  | event (e : Event)
  /-- The log line of how long the frames have taken. -/
  | elapsed
  /-- Text that is printed as it is. -/
  | text (t : String)
  deriving DecidableEq, Repr

/-- Parts of the output as text, behind `n` log lines. -/
def Logger.print (logger : Logger) (milliseconds : String) : Nat → List Output → String
  | _, [] => ""
  | n, .event e :: rest =>
    logger.lineOf n e ++ "\n" ++ logger.print milliseconds (n + 1) rest
  | n, .elapsed :: rest =>
    logger.lineOf n (.timed milliseconds) ++ "\n" ++ logger.print milliseconds (n + 1) rest
  | n, .text t :: rest => t ++ logger.print milliseconds n rest

/-- The answer of the command. -/
structure Report where
  exitCode : UInt8
  /-- The standard output, in order. -/
  output : List Output
  /-- The standard error. -/
  complaint : String := ""
  /-- How long a run waits for its frames in real time, in nanoseconds. -/
  duration : Nat := 0
  deriving DecidableEq, Repr

/-- The standard output as one text, if the frames have taken so many milliseconds. -/
def Report.stdout (r : Report) (logger : Logger) (milliseconds : String) : String :=
  logger.print milliseconds 0 r.output

/-- The events of a log as output. -/
def Log.output (log : Log) : List Output :=
  log.events.toList.map .event

/-- The line of how long the frames have taken, unless it is beyond the threshold. -/
def elapsedOutput (threshold : Option Level) : List Output :=
  if Level.info.shownAt threshold then [.elapsed] else []

/-! ### Answers -/

namespace Report

/-- The answer to arguments that make no request. -/
def misuse (e : UsageError) : Report where
  exitCode := 64
  output := [.text usageText]
  complaint := e.message ++ "\n"

/-- The answer when the command gives up. -/
def failure (log : Log) (reason : String) : Report where
  exitCode := 1
  output := (log.record (.failed reason)).output

/-- The final screen: its rows and an empty line. -/
def screenText (s : Session) : String :=
  s.machine.screen.picture ++ "\n"

/-- The answer to a run that has ended with the given result. -/
def ofPlayback (result : Except Fault Unit) (p : Playback) (options : RunOptions) : Report :=
  let log := p.session.log
  let shown := log.output ++ elapsedOutput log.threshold ++ [.text (screenText p.session)]
  let duration := if options.fast then 0 else p.frames * nanosPerTick
  match result with
  | .ok () => { exitCode := 0, output := shown, duration }
  | .error f =>
    let last := (Log.empty log.threshold).recordAll
      [.faulted p.session.machine.pc f, .failed f.message]
    { exitCode := 1, output := shown ++ last.output, duration }

end Report

/-- What is noted about a program file of `size` bytes. -/
def readEvents (size : Nat) (path : String) : List Event :=
  [.fileRead size path]
  ++ (if size = 0 then [.fileEmpty path] else [])
  ++ (if programCapacity < size then [.fileOversized path] else [])

/-- The session of a run before its first frame, with the key held down. -/
def Session.prepare (s : Session) (options : RunOptions) : Session :=
  let s := { s with machine := s.machine.press options.key }
  match options.seed with
  | some seed => s.note (.seeded seed)
  | none => s

/-- Runs a program. The generator counts only if the options give no seed. -/
def runProgram (log : Log) (given : Generator) (options : RunOptions) (program : List UInt8) :
    Report :=
  match Session.load ⟨Machine.blank options.seed given, log⟩ program with
  | (.error f, s) => .failure s.log f.message
  | (.ok (), s) =>
    let (result, p) := (Playback.start (s.prepare options)).play options.frames
    .ofPlayback result p options

/-- The answer of the command to a list of arguments. -/
def respond (around : Surroundings) (arguments : List String) : Report :=
  match Request.parse arguments with
  | .error e => .misuse e
  | .ok request =>
    match around.read request.file with
    | .error e => .failure (.empty around.cutoff) e.message
    | .ok program =>
      let log := (Log.empty around.cutoff).recordAll (readEvents program.length request.file)
      match request with
      | .run _ options => runProgram log around.given options program
      | .list _ => { exitCode := 0, output := log.output ++ [.text (unlines (assembly program))] }

end Chip8
