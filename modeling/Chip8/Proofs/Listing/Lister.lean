import Mathlib.Tactic.Common
import Chip8.Proofs.Listing.Lines

/-!
Writing a listing with a cursor.

A lister keeps a program and a place in it. It writes line after line, moves on by two bytes, and
starts over when it is called again. The text of an instruction is spelt from the template of its
opcode as that stands in the table, with operands as names in braces: a name that is unknown, or
the name of an operand that the opcode does not have, could not be written.

* `Instruction.write_eq`: every instruction can be spelt, and its text is the result;
* `Lister.write_eq`: a lister writes the lines of its program, wherever its cursor is, and is back
  at the start afterwards.
-/

namespace Chip8

/-! ### Spelling an instruction -/

/-- The field of a name. -/
def Field.ofName? (name : String) : Option Field :=
  [Field.x, .y, .n, .nn, .nnn].find? (·.name = name)

lemma Field.ofName?_name (f : Field) : Field.ofName? f.name = some f := by
  cases f <;> decide

namespace Instruction

/-- The value of an operand, looked up among those of the opcode. -/
def operand? (i : Instruction) (f : Field) : Option UInt16 :=
  (i.opcode.format.fields.idxOf? f).bind fun k => i.operands[k]?

/-- The digits of the operand of a name, if the opcode has it. -/
def spellOperand (i : Instruction) (name : String) : Except Fault (List Char) :=
  match Field.ofName? name with
  | none => .error .unwritable
  | some f =>
    match i.operand? f with
    | none => .error .unwritable
    | some value => .ok (Hex.padded f.nibbles value.toNat)

/-- Copies a text, with the operands in the place of their names in braces. -/
def spell (i : Instruction) : List Char → Except Fault (List Char)
  | [] => .ok []
  | c :: rest =>
    if c = '\x7b' then
      match i.spellOperand (String.ofList (rest.takeWhile (· ≠ '\x7d'))) with
      | .error f => .error f
      | .ok digits => (i.spell ((rest.dropWhile (· ≠ '\x7d')).drop 1)).map (digits ++ ·)
    else (i.spell rest).map (c :: ·)
termination_by text => text.length
decreasing_by
  · have hle := (rest.dropWhile_sublist (· ≠ '\x7d')).length_le
    simp only [List.length_drop, List.length_cons]
    omega
  · simp

/-- The instruction as assembly, unless its template cannot be spelt. -/
def write (i : Instruction) : Except Fault String :=
  (i.spell i.opcode.format.source.toList).map String.ofList

/-- The piece can be spelt: it is text without a brace, or an operand that the opcode has. -/
def CanSpell (op : Opcode) : Piece → Prop
  | .lit text => '\x7b' ∉ text.toList
  | .arg f => f ∈ op.format.fields

instance (op : Opcode) : DecidablePred (CanSpell op)
  | .lit text => inferInstanceAs (Decidable ('\x7b' ∉ text.toList))
  | .arg f => inferInstanceAs (Decidable (f ∈ op.format.fields))

variable {i : Instruction}

lemma operand?_eq_some {f : Field} (hf : f ∈ i.opcode.format.fields) :
    i.operand? f = some (f.value i.word) := by
  obtain ⟨k, hk⟩ := Option.isSome_iff_exists.1 (List.isSome_idxOf?.2 hf)
  obtain ⟨hlt, hfield, -⟩ := List.idxOf?_eq_some_iff.1 hk
  rw [operand?, hk, Option.bind_some, operands, List.getElem?_map, List.getElem?_eq_getElem hlt,
    hfield]
  rfl

/-- No operand has more digits than its field. -/
lemma padded_value (f : Field) (word : UInt16) :
    Hex.padded f.nibbles (f.value word).toNat = Hex.fixed f.nibbles (f.value word).toNat := by
  have hcount : 0 < f.nibbles ∧ f.count = 16 ^ f.nibbles := by cases f <;> decide
  have hwidth : Hex.width (f.value word).toNat ≤ f.nibbles :=
    (Hex.width_le_iff hcount.1).2 (hcount.2 ▸ f.value_lt word)
  rw [Hex.padded, Nat.max_eq_left hwidth]

lemma spellOperand_name {f : Field} (hf : f ∈ i.opcode.format.fields) :
    i.spellOperand f.name = .ok (Hex.fixed f.nibbles (f.value i.word).toNat) := by
  simp only [spellOperand, Field.ofName?_name, operand?_eq_some hf, padded_value]

lemma spell_append {text rest spelt : List Char} (hbrace : '\x7b' ∉ text)
    (h : i.spell rest = .ok spelt) : i.spell (text ++ rest) = .ok (text ++ spelt) := by
  induction text with
  | nil => exact h
  | cons c text ih =>
    rw [List.mem_cons, not_or] at hbrace
    rw [List.cons_append, spell, if_neg (Ne.symm hbrace.1), ih hbrace.2]
    rfl

lemma spell_operand {f : Field} {rest spelt : List Char} (hf : f ∈ i.opcode.format.fields)
    (h : i.spell rest = .ok spelt) :
    i.spell ((Piece.arg f).source.toList ++ rest) =
      .ok ((i.pieceText (.arg f)).toList ++ spelt) := by
  have hname : ∀ c ∈ f.name.toList, decide (c ≠ '\x7d') = true := by
    cases f <;> simp [Field.name]
  have hsource : (Piece.arg f).source.toList ++ rest =
      '\x7b' :: (f.name.toList ++ '\x7d' :: rest) := by
    simp [Piece.source]
  have htake : (f.name.toList ++ '\x7d' :: rest).takeWhile (· ≠ '\x7d') = f.name.toList := by
    rw [List.takeWhile_append_of_pos hname]
    simp
  have hdrop : (f.name.toList ++ '\x7d' :: rest).dropWhile (· ≠ '\x7d') = '\x7d' :: rest := by
    rw [List.dropWhile_append_of_pos hname]
    simp
  rw [hsource, spell, if_pos rfl, htake, hdrop, String.ofList_toList, spellOperand_name hf]
  simp [h, Except.map, pieceText]

/-- Pieces are spelt one behind the other, if the opcode has the operands that they name. -/
lemma spell_pieces {pieces : List Piece}
    (hpieces : ∀ piece ∈ pieces, CanSpell i.opcode piece) :
    i.spell (pieces.flatMap fun piece => piece.source.toList) =
      .ok (pieces.flatMap fun piece => (i.pieceText piece).toList) := by
  induction pieces with
  | nil => rw [List.flatMap_nil, spell, List.flatMap_nil]
  | cons piece rest ih =>
    rw [List.forall_mem_cons] at hpieces
    rw [List.flatMap_cons, List.flatMap_cons]
    cases piece with
    | lit text => exact spell_append hpieces.1 (ih hpieces.2)
    | arg f => exact spell_operand hpieces.1 (ih hpieces.2)

/-- The text of an opcode has no brace of its own, and names only operands that the opcode has. -/
lemma canSpell (op : Opcode) : ∀ piece ∈ op.format.template, CanSpell op piece := by
  have hall : ∀ op ∈ Opcode.all, ∀ piece ∈ op.format.template, CanSpell op piece := by decide
  exact hall op (Opcode.mem_all op)

/-- **Every instruction can be spelt**, and its text is the result. -/
theorem write_eq (i : Instruction) : i.write = .ok i.text := by
  have hsource : i.opcode.format.source.toList =
      i.opcode.format.template.flatMap fun piece => piece.source.toList := by
    rw [Format.source, String.toList_join, List.flatMap_map]
  rw [write, hsource, spell_pieces (canSpell i.opcode), ← toList_text]
  simp [Except.map]

end Instruction

/-! ### Writing line by line -/

/-- A program that is listed, and the place that the listing has reached. -/
structure Lister where
  program : List UInt8
  cursor : Nat
  deriving DecidableEq, Repr

namespace Lister

/-- A lister of a program before its first line. -/
def start (program : List UInt8) : Lister :=
  ⟨program, 0⟩

/-- What is written for the bytes at the cursor; behind the end there is nothing to write. -/
def line (l : Lister) : Except Fault String :=
  let address := Hex.address (programStart + l.cursor)
  match l.program.drop l.cursor with
  | high :: low :: _ =>
    let word := Memory.wordOf high low
    match Instruction.decode word with
    | .ok i => i.write.map fun text => address ++ ": " ++ Hex.word word ++ "  " ++ text ++ "\n"
    | .error _ => .ok (address ++ ": " ++ Hex.word word ++ "  DW 0x" ++ Hex.word word ++ "\n")
  | [b] => .ok (address ++ ": " ++ Hex.byte b ++ "    DB 0x" ++ Hex.byte b ++ "\n")
  | [] => .ok ""

/-- Writes from the cursor to the end of the program, and goes back to the start; a line that
cannot be written ends it where it is. -/
def writeOn (l : Lister) : Except Fault String × Lister :=
  if l.cursor < l.program.length then
    match l.line with
    | .error f => (.error f, l)
    | .ok text =>
      let (rest, l') := writeOn { l with cursor := l.cursor + 2 }
      (rest.map (text ++ ·), l')
  else (.ok "", { l with cursor := 0 })
termination_by l.program.length - l.cursor

/-- Writes the listing of the program. -/
def write (l : Lister) : Except Fault String × Lister :=
  writeOn { l with cursor := 0 }

variable {l : Lister}

lemma line_of_cons {high low : UInt8} {rest : List UInt8}
    (h : l.program.drop l.cursor = high :: low :: rest) :
    l.line = .ok (Row.assembly ⟨programStart + l.cursor, [high, low]⟩ ++ "\n") := by
  rw [line, h]
  simp only [Row.assembly, Row.head, Row.reading?, Reading.ofWord, Hex.word_wordOf]
  cases Instruction.decode (Memory.wordOf high low) with
  | ok i => simp [i.write_eq, Except.map, Reading.text, String.append_assoc]
  | error f => simp [Reading.text, Hex.word_wordOf, String.append_assoc]

lemma line_of_singleton {b : UInt8} (h : l.program.drop l.cursor = [b]) :
    l.line = .ok (Row.assembly ⟨programStart + l.cursor, [b]⟩ ++ "\n") := by
  rw [line, h]
  simp [Row.assembly, Row.head, Row.reading?, Reading.text, String.append_assoc]

/-- In front of the end of the program there is a row, which is written as its line, and the
other rows start two bytes further. -/
lemma exists_row (h : l.cursor < l.program.length) :
    ∃ row : Row, l.line = .ok (row.assembly ++ "\n") ∧
      rows (programStart + l.cursor) (l.program.drop l.cursor).toArray =
        row :: rows (programStart + (l.cursor + 2)) (l.program.drop (l.cursor + 2)).toArray := by
  have hnext : l.program.drop (l.cursor + 2) = (l.program.drop l.cursor).drop 2 := by
    rw [List.drop_drop]
  match hleft : l.program.drop l.cursor with
  | [] =>
    rw [List.drop_eq_nil_iff] at hleft
    omega
  | [b] =>
    refine ⟨_, line_of_singleton hleft, ?_⟩
    rw [hnext, hleft, rows_singleton]
    exact congrArg _ (rows_nil _).symm
  | high :: low :: rest =>
    refine ⟨_, line_of_cons hleft, ?_⟩
    rw [hnext, hleft, rows_cons_cons]
    rfl

/-- **Writing on from the cursor** gives the lines of the rows that are left. -/
theorem writeOn_eq (l : Lister) :
    l.writeOn =
      (.ok (unlines ((rows (programStart + l.cursor) (l.program.drop l.cursor).toArray).map
        Row.assembly)), start l.program) := by
  -- along the lines that are written; each row of the listing moves the cursor on by itself
  fun_induction writeOn l with
  | case1 l hlt f hline =>
    obtain ⟨row, hrow, -⟩ := exists_row hlt
    simp [hline] at hrow
  | case2 l hlt text hline rest l' hrest ih =>
    obtain ⟨row, hrow, hrows⟩ := exists_row hlt
    obtain rfl : text = row.assembly ++ "\n" := by simpa [hline] using hrow
    obtain ⟨rfl, rfl⟩ := Prod.mk.inj (hrest.symm.trans ih)
    rw [hrows]
    simp [Except.map, unlines]
  | case3 l hend =>
    rw [List.drop_eq_nil_of_le (by omega)]
    rfl

/-- **A lister writes the lines of its program**, wherever its cursor is, and is back at the
start afterwards. -/
theorem write_eq (l : Lister) :
    l.write = (.ok (unlines (assembly l.program)), start l.program) :=
  writeOn_eq { l with cursor := 0 }

end Lister

end Chip8
