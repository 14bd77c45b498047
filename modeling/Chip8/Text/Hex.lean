/-!
Hexadecimal text with upper-case digits.

`fixed` writes the last digits of a number, `padded` the whole number with at
least so many digits.
-/

namespace Chip8.Hex

/-- The digit of a value below sixteen. -/
def digit (n : Nat) : Char :=
  if n < 10 then Char.ofNat (48 + n) else Char.ofNat (55 + n)

/-- The last `width` digits of a number, with leading zeros. -/
def fixed : Nat → Nat → List Char
  | 0, _ => []
  | width + 1, n => fixed width (n / 16) ++ [digit (n % 16)]

/-- How many digits a number has; zero has one. -/
def width (n : Nat) : Nat :=
  n.log2 / 4 + 1

/-- All digits of a number, with zeros in front up to the least width. -/
def padded (least n : Nat) : List Char :=
  fixed (max least (width n)) n

@[simp] theorem length_fixed (w n : Nat) : (fixed w n).length = w := by
  induction w generalizing n with
  | zero => rfl
  | succ w ih => simp [fixed, ih]

/-- Two digits of a byte. -/
def byte (b : UInt8) : String :=
  String.ofList (fixed 2 b.toNat)

/-- Four digits of a word. -/
def word (w : UInt16) : String :=
  String.ofList (fixed 4 w.toNat)

/-- An address: four digits, more when it needs them. -/
def address (a : Nat) : String :=
  String.ofList (padded 4 a)

end Chip8.Hex
