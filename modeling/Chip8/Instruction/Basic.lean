import Chip8.Architecture
import Chip8.Fault
import Chip8.Instruction.Format

/-!
Instructions: words that belong to an opcode, which says what to do, while the word
itself holds the operands.

* `Instruction.decode`: the instruction of a word;
* `decode_eq_ok_iff`, `decode_eq_error_iff`: an instruction is the one of its own
  word and of no other, and decoding fails exactly on words without an opcode;
* `Instruction.text`: an instruction as assembly.
-/

namespace Chip8

/-- A word and the opcode that it matches. -/
structure Instruction where
  opcode : Opcode
  word : UInt16
  word_matches : opcode.Matches word
  deriving DecidableEq, Repr

namespace Instruction

theorem ext_word {i j : Instruction} (h : i.word = j.word) : i = j := by
  obtain ⟨op, w, hw⟩ := i
  obtain ⟨op', w', hw'⟩ := j
  cases h
  cases Opcode.eq_of_matches hw hw'
  rfl

/-- The instruction of a word. -/
def decode (word : UInt16) : Except Fault Instruction :=
  match h : Opcode.ofWord? word with
  | some op => .ok ⟨op, word, Opcode.ofWord?_eq_some_iff.1 h⟩
  | none => .error (.unknownWord word)

@[simp] theorem decode_word (i : Instruction) : decode i.word = .ok i := by
  have h := Opcode.ofWord?_eq_some_iff.2 i.word_matches
  rw [decode]
  split
  · next op hop => exact congrArg Except.ok (ext_word rfl)
  · next hnone => simp [h] at hnone

/-- Decoding a word gives an instruction of that word. -/
theorem decode_eq_ok_iff {word : UInt16} {i : Instruction} :
    decode word = .ok i ↔ i.word = word := by
  constructor
  · intro h
    rw [decode] at h
    split at h <;> cases h
    rfl
  · rintro rfl
    exact decode_word i

/-- Decoding fails for a word that matches no opcode, and names that word. -/
theorem decode_eq_error_iff {word : UInt16} {f : Fault} :
    decode word = .error f ↔ f = .unknownWord word ∧ ∀ op, ¬ Opcode.Matches op word := by
  have hnone : Opcode.ofWord? word = none ↔ ∀ op, ¬ Opcode.Matches op word := by
    simp only [← Opcode.ofWord?_eq_some_iff]
    cases Opcode.ofWord? word <;> simp
  rw [← hnone]
  rw [decode]
  split <;> simp_all [eq_comm]

/-! ### Operands -/

/-- The number of the register `VX`. -/
def x (i : Instruction) : Fin registerCount :=
  ⟨(Field.x.value i.word).toNat, Field.x.value_lt i.word⟩

/-- The number of the register `VY`. -/
def y (i : Instruction) : Fin registerCount :=
  ⟨(Field.y.value i.word).toNat, Field.y.value_lt i.word⟩

/-- The count in the last digit. -/
def n (i : Instruction) : Nat :=
  (Field.n.value i.word).toNat

/-- The byte in the lower half. -/
def nn (i : Instruction) : UInt8 :=
  (Field.nn.value i.word).toUInt8

/-- The address in the lower three digits. -/
def nnn (i : Instruction) : UInt16 :=
  Field.nnn.value i.word

/-- The values of the operands, in the order of the format. -/
def operands (i : Instruction) : List UInt16 :=
  i.opcode.format.fields.map (·.value i.word)

/-! ### Text -/

/-- A piece of the assembly text; an operand has one digit for each of its nibbles. -/
def pieceText (i : Instruction) : Piece → String
  | .lit text => text
  | .arg field => String.ofList (Hex.fixed field.nibbles (field.value i.word).toNat)

/-- The instruction as assembly. -/
def text (i : Instruction) : String :=
  String.join (i.opcode.format.template.map i.pieceText)

end Instruction

end Chip8
