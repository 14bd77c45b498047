import Chip8.Command.Report
import Chip8.Host.Logger
import Chip8.Host.Random

/-!
The command line: arguments, program files, the environment, the logger, the source of random
numbers and the clock on one side, `respond` on the other.
-/

namespace Chip8

/-- The bytes of a file, or why there are none. -/
def readFile (path : String) : IO (Except ReadError (List UInt8)) := do
  try
    return .ok (← IO.FS.readBinFile path).toList
  catch
    | .noFileOrDirectory .. => return .error .missing
    | .permissionDenied .. => return .error .denied
    | .inappropriateType .. => return .error .directory
    | e => return .error (.other (toString e))

/-- Reads the file that the arguments ask for, if they ask for one. -/
def readRequested (arguments : List String) : IO (Except ReadError (List UInt8)) :=
  match Request.parse arguments with
  | .ok request => readFile request.file
  | .error _ => return .error .missing

/-- A generator whose key is made of random bytes of the system. -/
def entropy : IO Generator := do
  let bytes ← IO.getRandomBytes 32
  let word (i : Nat) : UInt32 :=
    (List.range 4).foldr (fun k w => w <<< 8 ||| ((bytes.data[4 * i + k]?).getD 0).toUInt32) 0
  let key : ChaCha.Key :=
    ⟨⟨word 0, word 1, word 2, word 3⟩, ⟨word 4, word 5, word 6, word 7⟩⟩
  return (⟨key, 0⟩ : ChaCha.Position)

end Chip8

open Chip8

/-- Answers one command and exits with its code. -/
def main (arguments : List String) : IO UInt32 := do
  let threshold := thresholdOf ((← IO.getEnv "RUST_LOG").getD "trace")
  let content ← readRequested arguments
  let given ← entropy
  let start ← IO.monoNanosNow
  let report := respond ⟨threshold, false, given, fun _ => content⟩ arguments
  IO.sleep (UInt32.ofNat (report.duration / 1000000))
  let milliseconds := toString (((← IO.monoNanosNow) - start) / 1000000)
  (← IO.getStderr).putStr report.complaint
  (← IO.getStdout).putStr (report.stdout plainLogger milliseconds)
  return report.exitCode.toUInt32
