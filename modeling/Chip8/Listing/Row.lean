import Chip8.Text.Hex

/-!
Rows of a listing. A byte string is cut into rows of two bytes, the last of which
may have one byte only, and each row carries the address of its first byte.

* `rows`: the rows of a byte string that is stored at an address;
* `length_rows`: how many there are;
* `Row.head`: the address and the bytes of a row as text.
-/

namespace Chip8

/-- One or two bytes and the address of the first. -/
structure Row where
  address : Nat
  bytes : List UInt8
  deriving DecidableEq, Repr

/-- The address and the bytes of a row as text. -/
def Row.head (r : Row) : String :=
  Hex.address r.address ++ ": " ++ String.join (r.bytes.map Hex.byte)

/-- Row `i` of a byte string that is stored at `start`. -/
def rowAt (start : Nat) (bytes : Array UInt8) (i : Nat) : Row :=
  ⟨start + 2 * i, (bytes.extract (2 * i) (2 * i + 2)).toList⟩

/-- A row takes two bytes of what is left at its place. -/
theorem bytes_rowAt (start : Nat) (bytes : Array UInt8) (i : Nat) :
    (rowAt start bytes i).bytes = (bytes.toList.drop (2 * i)).take 2 := by
  simp [rowAt]

/-- The rows of a byte string that is stored at `start`. -/
def rows (start : Nat) (bytes : Array UInt8) : List Row :=
  (List.range ((bytes.size + 1) / 2)).map (rowAt start bytes)

/-- There is a row for every two bytes, and one for an odd byte at the end. -/
@[simp] theorem length_rows (start : Nat) (bytes : Array UInt8) :
    (rows start bytes).length = (bytes.size + 1) / 2 := by
  simp [rows]

end Chip8
