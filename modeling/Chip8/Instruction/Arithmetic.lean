import Chip8.Instruction.Opcode

/-!
What the nine computations on two registers give: a result for `VX`, and for five
of them a flag.

The results are those of arithmetic on bytes, modulo 256. The flag of an addition
is its carry; the flag of a subtraction is set when there is no borrow; the flag
of a shift is the bit that is shifted out.
-/

namespace Chip8

/-- A flag as a register holds it. -/
def flag (p : Prop) [Decidable p] : UInt8 :=
  if p then 1 else 0

namespace Arithmetic

/-- The new value of `VX`, from the values of `VX` and `VY`. -/
def result : Arithmetic → UInt8 → UInt8 → UInt8
  | .assign, _, y => y
  | .or, x, y => x ||| y
  | .and, x, y => x &&& y
  | .xor, x, y => x ^^^ y
  | .add, x, y => x + y
  | .sub, x, y => x - y
  | .shiftRight, x, _ => x >>> 1
  | .subFrom, x, y => y - x
  | .shiftLeft, x, _ => x <<< 1

/-- The flag, for those that have one. -/
def flag? : Arithmetic → UInt8 → UInt8 → Option UInt8
  | .add, x, y => some (flag (255 < x.toNat + y.toNat))
  | .sub, x, y => some (flag (y ≤ x))
  | .shiftRight, x, _ => some (x &&& 1)
  | .subFrom, x, y => some (flag (x ≤ y))
  | .shiftLeft, x, _ => some (x >>> 7)
  | _, _, _ => none

end Arithmetic

end Chip8
