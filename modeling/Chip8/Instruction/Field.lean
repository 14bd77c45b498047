/-!
The operand fields of an instruction word.

A bit field is a mask and the number of bits below it. An instruction has at
most five kinds of operand: two register numbers, a nibble, a byte and an
address.

* `BitField.extract`, `BitField.place`: from a word to a value and back;
* `Field.toNat_value`: a field as digits of its word;
* `Field.value_lt`: the bound on its values.
-/

namespace Chip8

/-- A run of bits in a word: which ones, and how far from the right they start. -/
structure BitField where
  mask : UInt16
  shift : UInt16
  deriving DecidableEq, Repr

namespace BitField

/-- The value that a word has in the field. -/
def extract (b : BitField) (word : UInt16) : UInt16 :=
  (word &&& b.mask) >>> b.shift

/-- The value, moved to where the field is. -/
def place (b : BitField) (value : UInt16) : UInt16 :=
  value <<< b.shift

end BitField

/-- The kinds of operand. -/
inductive Field where
  /-- The register number in the second nibble. -/
  | x
  /-- The register number in the third nibble. -/
  | y
  /-- The count in the last nibble. -/
  | n
  /-- The byte in the lower half. -/
  | nn
  /-- The address in the lower twelve bits. -/
  | nnn
  deriving DecidableEq, Repr

namespace Field

/-- The name of a field, as it stands in the text of an instruction format. -/
def name : Field → String
  | .x => "x"
  | .y => "y"
  | .n => "n"
  | .nn => "nn"
  | .nnn => "nnn"

/-- The number of hexadecimal digits of a field. -/
def nibbles : Field → Nat
  | .x | .y | .n => 1
  | .nn => 2
  | .nnn => 3

/-- Where a field lies in the word. -/
def bits : Field → BitField
  | .x => ⟨0x0F00, 8⟩
  | .y => ⟨0x00F0, 4⟩
  | .n => ⟨0x000F, 0⟩
  | .nn => ⟨0x00FF, 0⟩
  | .nnn => ⟨0x0FFF, 0⟩

/-- The value of a field in a word. -/
def value (f : Field) (word : UInt16) : UInt16 :=
  f.bits.extract word

/-! ### Fields as digits of the word -/

/-- What a word counts for each unit of the field. -/
def weight : Field → Nat
  | .x => 256
  | .y => 16
  | .n | .nn | .nnn => 1

/-- How many values a field can have. -/
def count : Field → Nat
  | .x | .y | .n => 16
  | .nn => 256
  | .nnn => 4096

/-- A field is a run of digits of its word. -/
theorem toNat_value (f : Field) (word : UInt16) :
    (f.value word).toNat = word.toNat / f.weight % f.count := by
  have mask (k s : Nat) :
      (word.toNat &&& (2 ^ k - 1) <<< s) >>> s = word.toNat / 2 ^ s % 2 ^ k := by
    rw [Nat.shiftRight_and_distrib, Nat.shiftLeft_shiftRight, Nat.and_two_pow_sub_one_eq_mod,
      Nat.shiftRight_eq_div_pow]
  cases f
  · exact mask 4 8
  · exact mask 4 4
  · exact mask 4 0
  · exact mask 8 0
  · exact mask 12 0

theorem value_lt (f : Field) (word : UInt16) : (f.value word).toNat < f.count := by
  rw [toNat_value]
  exact Nat.mod_lt _ (by cases f <;> decide)

end Field

end Chip8
