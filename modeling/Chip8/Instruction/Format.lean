import Chip8.Instruction.Field
import Chip8.Instruction.Opcode

/-!
How each opcode is written: as a word, and as assembly text.

A format fixes the bits of the word that tell the opcode apart (those of its
mask), lists the fields that hold the operands, and gives the text as a template
in which operands stand between fixed pieces.

* `Opcode.format`: the table of formats;
* `Opcode.eq_of_matches`: no word matches two opcodes;
* `Opcode.assemble`: the word of an opcode and operand values.
-/

namespace Chip8

/-- A piece of an assembly text: fixed text, or the place of an operand. -/
inductive Piece where
  | lit (text : String)
  | arg (field : Field)
  deriving DecidableEq, Repr

/-- A piece as the template spells it, operands as names in braces. -/
def Piece.source : Piece → String
  | .lit text => text
  | .arg field => "\x7b" ++ field.name ++ "\x7d"

/-- The written forms of an opcode. -/
structure Format where
  /-- The word with a letter for each digit that belongs to an operand. -/
  name : String
  /-- The word with zeros for the operands. -/
  pattern : UInt16
  /-- The bits in which every word of the opcode agrees with the pattern. -/
  mask : UInt16
  /-- The operands, in the order in which the instruction names them. -/
  fields : List Field
  /-- The assembly text. -/
  template : List Piece
  deriving DecidableEq, Repr

/-- The template of a format as one text. -/
def Format.source (f : Format) : String :=
  String.join (f.template.map Piece.source)

/-- The format of each opcode. -/
def Opcode.format : Opcode → Format
  | .clearScreen => ⟨"00E0", 0x00E0, 0xFFFF, [], [.lit "CLS"]⟩
  | .leave => ⟨"00EE", 0x00EE, 0xFFFF, [], [.lit "RET"]⟩
  | .jump => ⟨"1NNN", 0x1000, 0xF000, [.nnn], [.lit "JP ", .arg .nnn]⟩
  | .call => ⟨"2NNN", 0x2000, 0xF000, [.nnn], [.lit "CALL ", .arg .nnn]⟩
  | .skipIfByte =>
      ⟨"3XNN", 0x3000, 0xF000, [.x, .nn], [.lit "SE V", .arg .x, .lit ", ", .arg .nn]⟩
  | .skipUnlessByte =>
      ⟨"4XNN", 0x4000, 0xF000, [.x, .nn], [.lit "SNE V", .arg .x, .lit ", ", .arg .nn]⟩
  | .skipIfSame =>
      ⟨"5XY0", 0x5000, 0xF00F, [.x, .y], [.lit "SE V", .arg .x, .lit ", V", .arg .y]⟩
  | .setByte =>
      ⟨"6XNN", 0x6000, 0xF000, [.x, .nn], [.lit "LD V", .arg .x, .lit ", ", .arg .nn]⟩
  | .addByte =>
      ⟨"7XNN", 0x7000, 0xF000, [.x, .nn], [.lit "ADD V", .arg .x, .lit ", ", .arg .nn]⟩
  | .arithmetic .assign =>
      ⟨"8XY0", 0x8000, 0xF00F, [.x, .y], [.lit "LD V", .arg .x, .lit ", V", .arg .y]⟩
  | .arithmetic .or =>
      ⟨"8XY1", 0x8001, 0xF00F, [.x, .y], [.lit "OR V", .arg .x, .lit ", V", .arg .y]⟩
  | .arithmetic .and =>
      ⟨"8XY2", 0x8002, 0xF00F, [.x, .y], [.lit "AND V", .arg .x, .lit ", V", .arg .y]⟩
  | .arithmetic .xor =>
      ⟨"8XY3", 0x8003, 0xF00F, [.x, .y], [.lit "XOR V", .arg .x, .lit ", V", .arg .y]⟩
  | .arithmetic .add =>
      ⟨"8XY4", 0x8004, 0xF00F, [.x, .y], [.lit "ADD V", .arg .x, .lit ", V", .arg .y]⟩
  | .arithmetic .sub =>
      ⟨"8XY5", 0x8005, 0xF00F, [.x, .y], [.lit "SUB V", .arg .x, .lit ", V", .arg .y]⟩
  | .arithmetic .shiftRight =>
      ⟨"8XY6", 0x8006, 0xF00F, [.x, .y], [.lit "SHR V", .arg .x]⟩
  | .arithmetic .subFrom =>
      ⟨"8XY7", 0x8007, 0xF00F, [.x, .y], [.lit "SUBN V", .arg .x, .lit ", V", .arg .y]⟩
  | .arithmetic .shiftLeft =>
      ⟨"8XYE", 0x800E, 0xF00F, [.x, .y], [.lit "SHL V", .arg .x]⟩
  | .skipUnlessSame =>
      ⟨"9XY0", 0x9000, 0xF00F, [.x, .y], [.lit "SNE V", .arg .x, .lit ", V", .arg .y]⟩
  | .setIndex => ⟨"ANNN", 0xA000, 0xF000, [.nnn], [.lit "LD I, ", .arg .nnn]⟩
  | .jumpFromV0 => ⟨"BNNN", 0xB000, 0xF000, [.nnn], [.lit "JP V0, ", .arg .nnn]⟩
  | .randomByte =>
      ⟨"CXNN", 0xC000, 0xF000, [.x, .nn], [.lit "RND V", .arg .x, .lit ", ", .arg .nn]⟩
  | .drawSprite =>
      ⟨"DXYN", 0xD000, 0xF000, [.x, .y, .n],
        [.lit "DRW V", .arg .x, .lit ", V", .arg .y, .lit ", ", .arg .n]⟩
  | .skipIfKey => ⟨"EX9E", 0xE09E, 0xF0FF, [.x], [.lit "SKP V", .arg .x]⟩
  | .skipUnlessKey => ⟨"EXA1", 0xE0A1, 0xF0FF, [.x], [.lit "SKNP V", .arg .x]⟩
  | .readDelay => ⟨"FX07", 0xF007, 0xF0FF, [.x], [.lit "LD V", .arg .x, .lit ", DT"]⟩
  | .awaitKey => ⟨"FX0A", 0xF00A, 0xF0FF, [.x], [.lit "LD V", .arg .x, .lit ", K"]⟩
  | .startDelay => ⟨"FX15", 0xF015, 0xF0FF, [.x], [.lit "LD DT, V", .arg .x]⟩
  | .startSound => ⟨"FX18", 0xF018, 0xF0FF, [.x], [.lit "LD ST, V", .arg .x]⟩
  | .advanceIndex => ⟨"FX1E", 0xF01E, 0xF0FF, [.x], [.lit "ADD I, V", .arg .x]⟩
  | .locateDigit => ⟨"FX29", 0xF029, 0xF0FF, [.x], [.lit "LD F, V", .arg .x]⟩
  | .storeDecimal => ⟨"FX33", 0xF033, 0xF0FF, [.x], [.lit "LD B, V", .arg .x]⟩
  | .storeRegisters => ⟨"FX55", 0xF055, 0xF0FF, [.x], [.lit "LD [I], V", .arg .x]⟩
  | .fetchRegisters => ⟨"FX65", 0xF065, 0xF0FF, [.x], [.lit "LD V", .arg .x, .lit ", [I]"]⟩

namespace Opcode

/-- The word has the bits that tell the opcode apart. -/
def Matches (op : Opcode) (word : UInt16) : Prop :=
  word &&& op.format.mask = op.format.pattern

instance (op : Opcode) (word : UInt16) : Decidable (op.Matches word) :=
  inferInstanceAs (Decidable (_ = _))

/-- The opcodes that a word matches. -/
def matching (word : UInt16) : List Opcode :=
  all.filter (·.Matches word)

/-- The first opcode that a word matches. -/
def ofWord? (word : UInt16) : Option Opcode :=
  all.find? (·.Matches word)

/-- Any two opcodes differ in a bit that both of them fix. -/
theorem apart : ∀ op ∈ all, ∀ op' ∈ all, op ≠ op' →
    op.format.pattern &&& op'.format.mask ≠ op'.format.pattern &&& op.format.mask := by
  decide

/-- No word matches two opcodes. -/
theorem eq_of_matches {op op' : Opcode} {word : UInt16} (h : op.Matches word)
    (h' : op'.Matches word) : op = op' := by
  by_cases hne : op = op'
  · exact hne
  · refine absurd ?_ (apart op (mem_all op) op' (mem_all op') hne)
    rw [← h, ← h', UInt16.and_assoc, UInt16.and_assoc,
      UInt16.and_comm op.format.mask op'.format.mask]

/-- The opcode found in the table is the only one that the word matches. -/
theorem ofWord?_eq_some_iff {op : Opcode} {word : UInt16} :
    ofWord? word = some op ↔ op.Matches word := by
  constructor
  · intro h
    simpa using List.find?_some h
  · intro h
    cases hf : ofWord? word with
    | none => exact absurd h (by simpa using List.find?_eq_none.1 hf op (mem_all op))
    | some op' =>
      have h' : op'.Matches word := by simpa using List.find?_some hf
      rw [eq_of_matches h h']

/-! ### Assembling -/

/-- The pattern of an opcode with a value in each of its fields. -/
def assemble (op : Opcode) (values : List UInt16) : UInt16 :=
  (op.format.fields.zip values).foldl (fun word p => word ||| p.1.bits.place p.2)
    op.format.pattern

end Opcode

end Chip8
