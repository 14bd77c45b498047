import Chip8.Architecture
import Chip8.Text.Hex

/-!
The ways in which the machine refuses to go on, each with what it was asked to
do, and the messages that say so.
-/

namespace Chip8

/-- What stops a program, or keeps it from being loaded. -/
inductive Fault where
  /-- A call with every slot of the return stack in use. -/
  | stackOverflow
  /-- A return with no address pending. -/
  | stackUnderflow
  /-- A word that is no instruction. -/
  | unknownWord (word : UInt16)
  /-- An access of `length` bytes at `address` that runs past the end of memory. -/
  | outOfMemory (address length : Nat)
  /-- A program with more bytes than the program area. -/
  | oversizedProgram (size : Nat)
  /-- Text that could not be written. -/
  | unwritable
  deriving DecidableEq, Repr

/-- The wording of a fault. -/
def Fault.message : Fault → String
  | .stackOverflow => "call stack overflow"
  | .stackUnderflow => "call stack underflow"
  | .unknownWord w =>
      "unknown opcode " ++ Hex.word w
        ++ " (payload " ++ String.ofList (Hex.fixed 3 w.toNat) ++ ")"
  | .outOfMemory a len =>
      "memory overflow: " ++ toString len ++ " byte access at " ++ Hex.address a
        ++ " exceeds address space"
  | .oversizedProgram size =>
      "program too large for VM memory: " ++ toString size ++ " bytes, maximum is "
        ++ toString programCapacity
  | .unwritable => "an error occurred when formatting an argument"

end Chip8
