import Mathlib.Algebra.Group.Nat.Defs
import Mathlib.Tactic.Common
import Chip8.Instruction.Basic

/-!
Instructions by the digits of their words.

The mask of an opcode covers the first digit of a word and a number of bits at its end, and
nothing in between. So the opcode of a word can be read off its first digit and the remainder
that it leaves.

* `toNat_and_mask`: what such a mask leaves of a word;
* `Opcode.matches_iff_digits`: the words of an opcode;
* `Instruction.opcode_eq_iff`: the opcode of an instruction is that of its word;
* `Instruction.toNat_nnn_add`: its address operand leaves room for a byte.
-/

namespace Chip8

/-- The first digit of a word, left in its place. -/
lemma and_firstDigit {n : Nat} (h : n < 2 ^ 16) : n &&& 0xF000 = (n / 2 ^ 12) <<< 12 := by
  apply Nat.eq_of_testBit_eq
  intro i
  have hmask : Nat.testBit 0xF000 i = (decide (12 ≤ i) && decide (i - 12 < 4)) := by
    rw [show 0xF000 = (2 ^ 4 - 1) <<< 12 from rfl, Nat.testBit_shiftLeft,
      Nat.testBit_two_pow_sub_one]
  rw [Nat.testBit_and, hmask, Nat.testBit_shiftLeft, Nat.testBit_div_two_pow]
  rcases Nat.lt_or_ge i 12 with hi | hi
  · simp [Nat.not_le.2 hi]
  rw [Nat.sub_add_cancel hi]
  rcases Nat.lt_or_ge i 16 with hi' | hi'
  · have : i - 12 < 4 := by omega
    simp [hi, this]
  · -- no bit beyond the sixteenth is set
    have hbit : n.testBit i = false :=
      Nat.testBit_lt_two_pow (Nat.lt_of_lt_of_le h (Nat.pow_le_pow_right (by decide) hi'))
    simp [hbit]

/-- A mask of the first digit and of `k` bits at the end leaves these of a word. -/
lemma toNat_and_mask (word : UInt16) {mask : UInt16} {k : Nat} (hk : k ≤ 12)
    (hmask : mask.toNat = 0xF000 + (2 ^ k - 1)) :
    (word &&& mask).toNat = word.toNat / 0x1000 * 0x1000 + word.toNat % 2 ^ k := by
  have hpow : 2 ^ k ≤ 2 ^ 12 := Nat.pow_le_pow_right (by decide) hk
  have hpos : 0 < 2 ^ k := Nat.two_pow_pos k
  have hrest : word.toNat % 2 ^ k < 2 ^ 12 := Nat.lt_of_lt_of_le (Nat.mod_lt _ hpos) hpow
  have hsplit : 0xF000 + (2 ^ k - 1) = 0xF000 ||| (2 ^ k - 1) :=
    Nat.shiftLeft_add_eq_or_of_lt (a := 15) (by omega : 2 ^ k - 1 < 2 ^ 12)
  have hshift : (word.toNat / 2 ^ 12) <<< 12 = word.toNat / 0x1000 * 0x1000 :=
    Nat.shiftLeft_eq _ 12
  calc (word &&& mask).toNat
      = word.toNat &&& (0xF000 ||| (2 ^ k - 1)) := by
        rw [UInt16.toNat_and, hmask, hsplit]
    _ = (word.toNat / 2 ^ 12) <<< 12 ||| word.toNat % 2 ^ k := by
        rw [Nat.and_or_distrib_left, Nat.and_two_pow_sub_one_eq_mod,
          and_firstDigit word.toNat_lt]
    _ = word.toNat / 0x1000 * 0x1000 + word.toNat % 2 ^ k := by
        rw [← Nat.shiftLeft_add_eq_or_of_lt hrest, hshift]

namespace Opcode

/-- The number of bits at the end of the word that tell the opcode apart, besides the
first digit. -/
def tailBits (op : Opcode) : Nat :=
  match op.format.mask with
  | 0xFFFF => 12
  | 0xF0FF => 8
  | 0xF00F => 4
  | _ => 0

/-- Every opcode is told apart by the first digit of its words and some bits at the end. -/
lemma toNat_mask (op : Opcode) :
    op.tailBits ≤ 12 ∧ op.format.mask.toNat = 0xF000 + (2 ^ op.tailBits - 1) := by
  have hall : ∀ op ∈ all,
      op.tailBits ≤ 12 ∧ op.format.mask.toNat = 0xF000 + (2 ^ op.tailBits - 1) := by decide
  exact hall op (mem_all op)

lemma pattern_and_mask (op : Opcode) :
    op.format.pattern &&& op.format.mask = op.format.pattern := by
  have hall : ∀ op ∈ all, op.format.pattern &&& op.format.mask = op.format.pattern := by decide
  exact hall op (mem_all op)

/-- **The words of an opcode**, by their first digit and their last bits. -/
theorem matches_iff_digits (op : Opcode) (word : UInt16) :
    op.Matches word ↔ word.toNat / 0x1000 = op.format.pattern.toNat / 0x1000 ∧
      word.toNat % 2 ^ op.tailBits = op.format.pattern.toNat % 2 ^ op.tailBits := by
  obtain ⟨htail, hmask⟩ := toNat_mask op
  have hpow : 2 ^ op.tailBits ≤ 2 ^ 12 := Nat.pow_le_pow_right (by decide) htail
  have hword : word.toNat % 2 ^ op.tailBits < 2 ^ 12 :=
    Nat.lt_of_lt_of_le (Nat.mod_lt _ (Nat.two_pow_pos _)) hpow
  have hpattern : op.format.pattern.toNat % 2 ^ op.tailBits < 2 ^ 12 :=
    Nat.lt_of_lt_of_le (Nat.mod_lt _ (Nat.two_pow_pos _)) hpow
  rw [Matches]
  conv_lhs => rw [← pattern_and_mask op]
  rw [← UInt16.toNat_inj, toNat_and_mask word htail hmask, toNat_and_mask _ htail hmask]
  omega

end Opcode

namespace Instruction

lemma opcode_eq_iff {i : Instruction} {op : Opcode} : i.opcode = op ↔ op.Matches i.word := by
  constructor
  · rintro rfl
    exact i.word_matches
  · exact fun h => Opcode.eq_of_matches i.word_matches h

lemma toNat_nnn_lt (i : Instruction) : i.nnn.toNat < 0x1000 :=
  Field.value_lt .nnn i.word

lemma n_lt (i : Instruction) : i.n < 0x10 :=
  Field.value_lt .n i.word

/-- The sum of the address operand and a byte is an address, so it does not wrap around. -/
lemma toNat_nnn_add (i : Instruction) (v : UInt8) :
    (i.nnn + v.toUInt16).toNat = i.nnn.toNat + v.toNat := by
  have hnnn := i.toNat_nnn_lt
  have hv := v.toNat_lt
  rw [UInt16.toNat_add, UInt8.toNat_toUInt16]
  show (i.nnn.toNat + v.toNat) % 65536 = _
  omega

end Instruction

end Chip8
