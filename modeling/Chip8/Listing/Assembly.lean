import Chip8.Instruction.Basic
import Chip8.Listing.Row
import Chip8.Memory
import Chip8.Text.Lines

/-!
The assembly listing of a program. Every two bytes are read as an instruction, or
as a data word if they are none; an odd byte at the end is a data byte. Addresses
are those that the program has once it is loaded.

* `Row.reading?`: what a row is read as;
* `Row.assembly`: a row as a line of the listing;
* `assembly`: the lines of a program.
-/

namespace Chip8

/-- What the bytes of a row are read as. -/
inductive Reading where
  | instruction (i : Instruction)
  | dataWord (w : UInt16)
  | dataByte (b : UInt8)
  deriving DecidableEq, Repr

/-- A word is read as an instruction if it is one. -/
def Reading.ofWord (w : UInt16) : Reading :=
  match Instruction.decode w with
  | .ok i => .instruction i
  | .error _ => .dataWord w

/-- What a row is read as; a row without bytes is not read at all. -/
def Row.reading? (r : Row) : Option Reading :=
  match r.bytes with
  | [high, low] => some (.ofWord (Memory.wordOf high low))
  | [b] => some (.dataByte b)
  | _ => none

/-- A reading as it follows the bytes of its row. -/
def Reading.text : Reading → String
  | .instruction i => "  " ++ i.text
  | .dataWord w => "  DW 0x" ++ Hex.word w
  | .dataByte b => "    DB 0x" ++ Hex.byte b

/-- A row as a line of the listing. -/
def Row.assembly (r : Row) : String :=
  r.head ++ (r.reading?.map Reading.text).getD ""

/-- The lines of the listing of a program. -/
def assembly (program : List UInt8) : List String :=
  (rows programStart program.toArray).map Row.assembly

end Chip8
