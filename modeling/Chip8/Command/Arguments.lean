import Chip8.Key
import Chip8.Text.Numeral

/-!
The arguments of the command.

The first argument says what to do and the second names a program file. For a run,
options follow in any order; an option that is given again overrides what it said
before. The first argument from the left that does not fit is the one that is
reported.

* `Request.parse`: the request that a list of arguments makes;
* `UsageError.message`: the wording of a refusal.
-/

namespace Chip8

/-- What is wrong with a list of arguments. -/
inductive UsageError where
  | missingCommand
  | unknownCommand (command : String)
  | missingValue (of : String)
  | invalidFrames (value : String)
  | invalidKey (value : String)
  | invalidSeed (value : String)
  | unknownOption (option : String)
  deriving DecidableEq, Repr

/-- The wording of a refusal. -/
def UsageError.message : UsageError → String
  | missingCommand => "missing command"
  | unknownCommand command => "unknown command: " ++ command
  | missingValue of => "missing value for " ++ of
  | invalidFrames value => "invalid frame count: " ++ value
  | invalidKey value => "invalid key: " ++ value
  | invalidSeed value => "invalid seed: " ++ value
  | unknownOption option => "unknown option: " ++ option

/-- How a program is to be run. -/
structure RunOptions where
  /-- The number of frames. -/
  frames : Nat := 600
  /-- The key that is held down all the time. -/
  key : Option Key := none
  /-- The seed of the random bytes. -/
  seed : Option UInt64 := none
  /-- Frames follow each other without a pause. -/
  fast : Bool := false
  deriving DecidableEq, Repr

/-- What the command is asked to do. -/
inductive Request where
  /-- Run the program of a file. -/
  | run (file : String) (options : RunOptions)
  /-- List the program of a file as assembly. -/
  | list (file : String)
  deriving DecidableEq, Repr

/-! ### Values -/

/-- The numbers that frame counts and seeds stay below. -/
abbrev countLimit : Nat := UInt64.size

/-- A frame count: a decimal numeral. -/
def readFrames (value : String) : Except UsageError Nat :=
  (Numeral.parse? 10 countLimit value).elim (.error (.invalidFrames value)) .ok

/-- A seed: a decimal numeral. -/
def readSeed (value : String) : Except UsageError UInt64 :=
  (Numeral.parse? 10 countLimit value).elim (.error (.invalidSeed value)) (.ok ∘ UInt64.ofNat)

/-- A key: a hexadecimal numeral below sixteen. -/
def readKey (value : String) : Except UsageError Key :=
  (Numeral.parse? 16 16 value).elim (.error (.invalidKey value)) fun code =>
    (Key.ofCode (UInt8.ofNat code)).mapError fun _ => .invalidKey value

/-! ### Options -/

/-- The options that take a value. -/
inductive ValueOption where
  | frames
  | key
  | seed
  deriving DecidableEq, Repr

namespace ValueOption

/-- The spelling of an option. -/
def name : ValueOption → String
  | frames => "--frames"
  | key => "--key"
  | seed => "--seed"

/-- The option of a spelling. -/
def ofName? (word : String) : Option ValueOption :=
  [frames, key, seed].find? (·.name = word)

/-- Sets what an option says to its value. -/
def apply (options : RunOptions) (value : String) : ValueOption → Except UsageError RunOptions
  | frames => (readFrames value).map fun n => { options with frames := n }
  | key => (readKey value).map fun k => { options with key := some k }
  | seed => (readSeed value).map fun s => { options with seed := some s }

end ValueOption

/-- The spelling of the option without a value. -/
def fastName : String := "--fast"

/-- Reads options from the left, on top of those already read. The argument after an
option with a value is its value, whatever it looks like. -/
def RunOptions.parse (options : RunOptions) : List String → Except UsageError RunOptions
  | [] => .ok options
  | word :: rest =>
    if word = fastName then { options with fast := true }.parse rest
    else
      match ValueOption.ofName? word with
      | none => .error (.unknownOption word)
      | some option =>
        match rest with
        | [] => .error (.missingValue word)
        | value :: rest =>
          match option.apply options value with
          | .ok options => options.parse rest
          | .error e => .error e

/-! ### Requests -/

/-- The file that a request is about. -/
def Request.file : Request → String
  | run file _ => file
  | list file => file

/-- The request that a list of arguments makes. What follows the file of a listing
does not matter. -/
def Request.parse : List String → Except UsageError Request
  | [] => .error .missingCommand
  | command :: arguments =>
    if command = "run" then
      match arguments with
      | [] => .error (.missingValue "FILE")
      | file :: options => (RunOptions.parse {} options).map (.run file)
    else if command = "dis" then
      match arguments with
      | [] => .error (.missingValue "FILE")
      | file :: _ => .ok (.list file)
    else .error (.unknownCommand command)

end Chip8
