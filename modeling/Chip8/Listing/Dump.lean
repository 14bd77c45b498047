import Chip8.Listing.Row
import Chip8.Memory

/-!
The bytes of the program area as they stand in memory, two to a line.
-/

namespace Chip8

/-- The first `count` bytes of the program area, or all of it if there are fewer. -/
def Memory.programArea (m : Memory) (count : Nat) : Array UInt8 :=
  m.cells.toArray.extract programStart (min (programStart + count) memorySize)

/-- The lines that show the first `count` bytes of the program area. -/
def Memory.dump (m : Memory) (count : Nat) : List String :=
  (rows programStart (m.programArea count)).map Row.head

end Chip8
