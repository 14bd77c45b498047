import Mathlib.Tactic.Common
import Chip8.Listing.Assembly
import Chip8.Proofs.Hexadecimal

/-!
The lines of a listing as they are read.

A line is an address with a colon, the digits of one or two bytes, and what these bytes are read
as: an instruction, which starts with its mnemonic, or data, marked with `DW` or `DB`. Blanks
divide a line into columns, so all of this can be found again in the text of the line.

* `Line.address`, `Line.digits`, `Line.mnemonic`: the parts of a line, found in its text;
* `address_assembly`, `digits_assembly`, `mnemonic_assembly`: the parts of the line of a row;
* `mnemonic_assembly_iff`: the lines that are marked as data;
* `raise_assembly`, `narrow_assembly`: a line with another address, and with fewer blanks.
-/

namespace Chip8

/-! ### Columns -/

namespace Line

/-- The columns of a text: its runs of characters other than blanks. -/
def columns (text : List Char) : List (List Char) :=
  (text.splitOn ' ').filter fun column => !column.isEmpty

/-- The address of a line: what stands before the first colon. -/
def address (line : String) : List Char :=
  line.toList.takeWhile (· ≠ ':')

/-- The second column of a line, which has the digits of the bytes. -/
def digits (line : String) : List Char :=
  (columns line.toList).getD 1 []

/-- The third column of a line, which says what the bytes are read as. -/
def mnemonic (line : String) : String :=
  String.ofList ((columns line.toList).getD 2 [])

/-- The line is that of an instruction: it is not marked as data. -/
def IsInstruction (line : String) : Prop :=
  mnemonic line ≠ "DW" ∧ mnemonic line ≠ "DB"

/-- The line with its address moved on. -/
def raise (distance : Nat) (line : String) : String :=
  match Numeral.value? 16 (address line) with
  | some a => Hex.address (a + distance) ++ String.ofList (line.toList.dropWhile (· ≠ ':'))
  | none => line

/-- The text with the first two blanks that stand side by side made one. -/
def narrow : List Char → List Char
  | ' ' :: ' ' :: rest => ' ' :: rest
  | c :: rest => c :: narrow rest
  | [] => []

variable {text rest : List Char}

lemma columns_blank (rest : List Char) : columns (' ' :: rest) = columns rest := by
  have hnil : ' ' ∉ ([] : List Char) := List.not_mem_nil
  have h := List.splitOn_append_cons_self_of_not_mem hnil rest
  rw [List.nil_append] at h
  simp [columns, h]

/-- A run of characters that ends at a blank is a column. -/
lemma columns_append (hblank : ' ' ∉ text) (hne : text ≠ []) (rest : List Char) :
    columns (text ++ ' ' :: rest) = text :: columns rest := by
  simp [columns, List.splitOn_append_cons_self_of_not_mem hblank, hne]

/-- A run of characters that ends with the text is its only column. -/
lemma columns_of_not_mem (hblank : ' ' ∉ text) (hne : text ≠ []) : columns text = [text] := by
  simp [columns, List.splitOn_eq_singleton hblank, hne]

/-- What is left of a text behind its first word is nothing, or starts with a blank. -/
lemma dropWhile_cases (text : List Char) :
    text.dropWhile (· ≠ ' ') = [] ∨ ∃ rest, text.dropWhile (· ≠ ' ') = ' ' :: rest := by
  induction text with
  | nil => exact .inl rfl
  | cons c text ih =>
    by_cases hc : c = ' '
    · subst hc
      exact .inr ⟨text, by simp⟩
    · simpa [hc] using ih

/-- The first word of a text does not change with what follows on a blank. -/
lemma takeWhile_append_of_mem (hblank : ' ' ∈ text) (rest : List Char) :
    (text ++ rest).takeWhile (· ≠ ' ') = text.takeWhile (· ≠ ' ') := by
  induction text with
  | nil => simp at hblank
  | cons c text ih =>
    by_cases hc : c = ' '
    · simp [hc]
    · have hmem : ' ' ∈ text := (List.mem_cons.1 hblank).resolve_left (Ne.symm hc)
      simpa [hc] using ih hmem

/-- The first column of a text that starts with a word is this word. -/
lemma head?_columns (hne : text.takeWhile (· ≠ ' ') ≠ []) :
    (columns text).head? = some (text.takeWhile (· ≠ ' ')) := by
  have hblank : ' ' ∉ text.takeWhile (· ≠ ' ') := fun h => by
    simpa using List.all_eq_true.1 (List.all_takeWhile (l := text) (p := (· ≠ ' '))) ' ' h
  have hsplit : text.takeWhile (· ≠ ' ') ++ text.dropWhile (· ≠ ' ') = text :=
    List.takeWhile_append_dropWhile
  rcases dropWhile_cases text with hdrop | ⟨rest, hdrop⟩
  · rw [hdrop, List.append_nil] at hsplit
    rw [hsplit] at hblank hne ⊢
    rw [columns_of_not_mem hblank hne, List.head?_cons]
  · rw [hdrop] at hsplit
    have hcolumns := columns_append hblank hne rest
    rw [hsplit] at hcolumns
    rw [hcolumns, List.head?_cons]

lemma narrow_append (hblank : ' ' ∉ text) (rest : List Char) :
    narrow (text ++ rest) = text ++ narrow rest := by
  induction text with
  | nil => rfl
  | cons c text ih =>
    rw [List.mem_cons, not_or] at hblank
    rw [List.cons_append, narrow, ih hblank.2, List.cons_append]
    rintro rest' rfl
    exact absurd rfl hblank.1

lemma narrow_blank {c : Char} (hc : c ≠ ' ') (rest : List Char) :
    narrow (' ' :: c :: rest) = ' ' :: narrow (c :: rest) := by
  rw [narrow]
  rintro rest' - h
  exact hc (List.cons.inj h).1

end Line

/-! ### The text of an instruction -/

namespace Opcode

/-- The word with which the assembly text of an opcode starts. -/
def mnemonic (op : Opcode) : List Char :=
  match op.format.template with
  | .lit text :: _ => text.toList.takeWhile (· ≠ ' ')
  | _ => []

/-- The template starts with a word, which ends at a blank or with the text. -/
def StartsWithWord : List Piece → Prop
  | .lit text :: rest => ' ' ∈ text.toList ∨ rest = []
  | _ => False

instance : DecidablePred StartsWithWord
  | .lit text :: rest => inferInstanceAs (Decidable (' ' ∈ text.toList ∨ rest = []))
  | [] | .arg _ :: _ => isFalse id

lemma startsWithWord (op : Opcode) : StartsWithWord op.format.template := by
  have hall : ∀ op ∈ all, StartsWithWord op.format.template := by decide
  exact hall op (mem_all op)

lemma mnemonic_ne (op : Opcode) :
    op.mnemonic ≠ [] ∧ op.mnemonic ≠ ['D', 'W'] ∧ op.mnemonic ≠ ['D', 'B'] := by
  have hall : ∀ op ∈ all,
      op.mnemonic ≠ [] ∧ op.mnemonic ≠ ['D', 'W'] ∧ op.mnemonic ≠ ['D', 'B'] := by decide
  exact hall op (mem_all op)

end Opcode

namespace Instruction

variable (i : Instruction)

lemma toList_text :
    i.text.toList = i.opcode.format.template.flatMap fun piece => (i.pieceText piece).toList := by
  rw [text, String.toList_join, List.flatMap_map]

lemma takeWhile_text : i.text.toList.takeWhile (· ≠ ' ') = i.opcode.mnemonic := by
  have hword := i.opcode.startsWithWord
  rw [toList_text, Opcode.mnemonic]
  generalize i.opcode.format.template = template at hword ⊢
  match template with
  | [] | .arg _ :: _ => exact absurd hword id
  | .lit t :: rest =>
    rw [List.flatMap_cons, pieceText]
    rcases hword with hblank | rfl
    · exact Line.takeWhile_append_of_mem hblank _
    · rw [List.flatMap_nil, List.append_nil]

lemma newline_not_mem_text : '\n' ∉ i.text.toList := by
  have hsource : ∀ op ∈ Opcode.all, ∀ piece ∈ op.format.template,
      '\n' ∉ piece.source.toList := by decide
  rw [toList_text, List.mem_flatMap]
  rintro ⟨piece, hmem, hnewline⟩
  cases piece with
  | lit t => exact hsource _ (Opcode.mem_all _) _ hmem hnewline
  | arg field =>
    rw [pieceText, String.toList_ofList] at hnewline
    exact Hex.not_mem_fixed (by decide) _ _ hnewline

end Instruction

/-! ### The line of a row -/

/-- The digits of bytes, two for each. -/
def digitsOf (bytes : List UInt8) : List Char :=
  bytes.flatMap fun b => (Hex.byte b).toList

@[simp] lemma length_digitsOf (bytes : List UInt8) :
    (digitsOf bytes).length = 2 * bytes.length := by
  induction bytes with
  | nil => rfl
  | cons b rest ih =>
    rw [digitsOf, List.flatMap_cons, ← digitsOf, List.length_append, ih, Hex.byte,
      String.toList_ofList, Hex.length_fixed, List.length_cons]
    omega

lemma digitsOf_pair (high low : UInt8) :
    digitsOf [high, low] = (Hex.word (Memory.wordOf high low)).toList := by
  rw [Hex.word_wordOf, String.toList_append]
  simp only [digitsOf, List.flatMap_cons, List.flatMap_nil, List.append_nil]

/-- The mnemonic of a reading; data are marked by their size. -/
def Reading.mnemonic : Reading → List Char
  | .instruction i => i.opcode.mnemonic
  | .dataWord _ => ['D', 'W']
  | .dataByte _ => ['D', 'B']

variable {r : Row} {reading : Reading}

lemma not_mem_digitsOf {c : Char} (h : ∀ k < 16, Hex.digit k ≠ c) (bytes : List UInt8) :
    c ∉ digitsOf bytes := by
  rw [digitsOf, List.mem_flatMap]
  rintro ⟨b, -, hb⟩
  rw [Hex.byte, String.toList_ofList] at hb
  exact Hex.not_mem_fixed h _ _ hb

lemma not_mem_address {c : Char} (h : ∀ k < 16, Hex.digit k ≠ c) (a : Nat) :
    c ∉ (Hex.address a).toList := by
  rw [Hex.address, String.toList_ofList, Hex.padded]
  exact Hex.not_mem_fixed h _ _

lemma ne_colon_of_mem_address (a : Nat) :
    ∀ c ∈ (Hex.address a).toList, decide (c ≠ ':') = true := fun c hc => by
  have hcolon : ':' ∉ (Hex.address a).toList := not_mem_address (by decide) a
  simpa using fun h : c = ':' => hcolon (h ▸ hc)

/-- An address with a colon behind it is that of its line. -/
lemma Line.address_eq {line : String} {a : Nat} {rest : List Char}
    (h : line.toList = (Hex.address a).toList ++ ':' :: rest) :
    Line.address line = (Hex.address a).toList := by
  rw [Line.address, h, List.takeWhile_append_of_pos (ne_colon_of_mem_address a)]
  simp

lemma Line.columns_address (a : Nat) (rest : List Char) :
    columns ((Hex.address a).toList ++ ':' :: ' ' :: rest) =
      ((Hex.address a).toList ++ [':']) :: columns rest := by
  have haddress : ' ' ∉ (Hex.address a).toList ++ [':'] := by
    simp [not_mem_address (show ∀ k < 16, Hex.digit k ≠ ' ' by decide)]
  have hcolumns := columns_append haddress (by simp) rest
  rwa [List.append_assoc] at hcolumns

lemma digitsOf_ne_nil (h : r.reading? = some reading) : digitsOf r.bytes ≠ [] := by
  obtain ⟨a, bytes⟩ := r
  match bytes with
  | [] => simp [Row.reading?] at h
  | b :: rest => simp [digitsOf, Hex.byte, Hex.fixed]

/-- What stands in the line of a row: address, bytes, and what these are read as. -/
lemma toList_assembly (h : r.reading? = some reading) :
    r.assembly.toList =
      (Hex.address r.address).toList ++
        ':' :: ' ' :: (digitsOf r.bytes ++ reading.text.toList) := by
  simp [Row.assembly, Row.head, h, digitsOf, List.flatMap_map]

/-- The text of a reading starts with a blank, and its first column is the mnemonic. -/
lemma Reading.exists_text (reading : Reading) :
    ∃ text, reading.text.toList = ' ' :: text ∧
      (Line.columns text).head? = some reading.mnemonic := by
  cases reading with
  | instruction i =>
    refine ⟨' ' :: i.text.toList, by simp [Reading.text], ?_⟩
    have hne : i.text.toList.takeWhile (· ≠ ' ') ≠ [] := by
      rw [i.takeWhile_text]
      exact i.opcode.mnemonic_ne.1
    rw [Line.columns_blank, Line.head?_columns hne, i.takeWhile_text]
    rfl
  | dataWord w =>
    refine ⟨' ' :: (['D', 'W'] ++ ' ' :: ("0x" ++ Hex.word w).toList), by simp [Reading.text], ?_⟩
    rw [Line.columns_blank, Line.columns_append (by decide) (by decide)]
    rfl
  | dataByte b =>
    refine ⟨' ' :: ' ' :: ' ' :: (['D', 'B'] ++ ' ' :: ("0x" ++ Hex.byte b).toList),
      by simp [Reading.text], ?_⟩
    simp only [Line.columns_blank]
    rw [Line.columns_append (by decide) (by decide)]
    rfl

/-- **The columns of the line of a row** start with its address, its bytes and its mnemonic. -/
lemma columns_assembly (h : r.reading? = some reading) :
    ∃ rest, Line.columns r.assembly.toList =
      ((Hex.address r.address).toList ++ [':']) ::
        digitsOf r.bytes :: reading.mnemonic :: rest := by
  obtain ⟨text, htext, hmnemonic⟩ := reading.exists_text
  have hdigits : ' ' ∉ digitsOf r.bytes := not_mem_digitsOf (by decide) r.bytes
  obtain ⟨rest, hrest⟩ : ∃ rest, Line.columns text = reading.mnemonic :: rest := by
    cases hcolumns : Line.columns text with
    | nil => simp [hcolumns] at hmnemonic
    | cons first rest =>
      rw [hcolumns, List.head?_cons, Option.some.injEq] at hmnemonic
      exact ⟨rest, by rw [hmnemonic]⟩
  refine ⟨rest, ?_⟩
  rw [toList_assembly h, htext, Line.columns_address,
    Line.columns_append hdigits (digitsOf_ne_nil h), hrest]

lemma address_assembly (h : r.reading? = some reading) :
    Line.address r.assembly = (Hex.address r.address).toList :=
  Line.address_eq (toList_assembly h)

lemma digits_assembly (h : r.reading? = some reading) :
    Line.digits r.assembly = digitsOf r.bytes := by
  obtain ⟨rest, hcolumns⟩ := columns_assembly h
  rw [Line.digits, hcolumns]
  rfl

lemma mnemonic_assembly (h : r.reading? = some reading) :
    Line.mnemonic r.assembly = String.ofList reading.mnemonic := by
  obtain ⟨rest, hcolumns⟩ := columns_assembly h
  rw [Line.mnemonic, hcolumns]
  rfl

/-- A line is marked `DW` if it is that of a data word, and `DB` if it is that of a data byte. -/
lemma mnemonic_assembly_iff (h : r.reading? = some reading) :
    (Line.mnemonic r.assembly = "DW" ↔ ∃ w, reading = .dataWord w) ∧
      (Line.mnemonic r.assembly = "DB" ↔ ∃ b, reading = .dataByte b) := by
  have hword : "DW" = String.ofList ['D', 'W'] := rfl
  have hbyte : "DB" = String.ofList ['D', 'B'] := rfl
  rw [mnemonic_assembly h, hword, hbyte, String.ofList_inj, String.ofList_inj]
  cases reading with
  | instruction i => simp [Reading.mnemonic, i.opcode.mnemonic_ne]
  | dataWord w => simp [Reading.mnemonic]
  | dataByte b => simp [Reading.mnemonic]

lemma newline_not_mem_assembly (h : r.reading? = some reading) :
    '\n' ∉ r.assembly.toList := by
  have hnewline : ∀ k < 16, Hex.digit k ≠ '\n' := by decide
  have hbytes : '\n' ∉ digitsOf r.bytes := not_mem_digitsOf hnewline r.bytes
  have hreading : '\n' ∉ reading.text.toList := by
    cases reading with
    | instruction i => simp [Reading.text, i.newline_not_mem_text]
    | dataWord w => simp [Reading.text, Hex.word, Hex.not_mem_fixed hnewline]
    | dataByte b => simp [Reading.text, Hex.byte, Hex.not_mem_fixed hnewline]
  rw [toList_assembly h]
  simp [not_mem_address hnewline, hbytes, hreading]

/-- Raising the line of a row gives the line of the row that lies so much further. -/
lemma raise_assembly (h : r.reading? = some reading) (distance : Nat) :
    Line.raise distance r.assembly =
      ({ r with address := r.address + distance } : Row).assembly := by
  have hmoved : ({ r with address := r.address + distance } : Row).reading? = some reading := h
  rw [Line.raise, address_assembly h, Hex.value?_address]
  apply String.toList_injective
  rw [toList_assembly hmoved, toList_assembly h]
  simp only [String.toList_append, String.toList_ofList]
  rw [List.dropWhile_append_of_pos (ne_colon_of_mem_address r.address)]
  simp

/-- The line of a row of two bytes with one blank less in front of what the bytes are read as. -/
lemma narrow_assembly {text : List Char} (h : r.reading? = some reading)
    (htext : reading.text.toList = ' ' :: ' ' :: text) :
    Line.narrow r.assembly.toList =
      (Hex.address r.address).toList ++ ':' :: ' ' :: (digitsOf r.bytes ++ ' ' :: text) := by
  have hblank : ∀ k < 16, Hex.digit k ≠ ' ' := by decide
  have haddress : ' ' ∉ (Hex.address r.address).toList ++ [':'] := by
    simp [not_mem_address hblank]
  obtain ⟨c, digits, hdigits⟩ := List.exists_cons_of_ne_nil (digitsOf_ne_nil h)
  have hnot : ' ' ∉ c :: digits := hdigits ▸ not_mem_digitsOf hblank r.bytes
  have hsplit : r.assembly.toList =
      ((Hex.address r.address).toList ++ [':']) ++ ' ' :: (c :: digits ++ ' ' :: ' ' :: text) := by
    rw [toList_assembly h, htext, hdigits]
    simp
  have hc : c ≠ ' ' := fun h => hnot (by simp [h])
  rw [hsplit, Line.narrow_append haddress, List.cons_append, Line.narrow_blank hc,
    ← List.cons_append, Line.narrow_append hnot, Line.narrow, hdigits]
  simp

/-! ### The lines of a program -/

lemma rows_nil (start : Nat) : rows start #[] = [] := rfl

lemma rowAt_eq (start : Nat) (bytes : List UInt8) (i : Nat) :
    rowAt start bytes.toArray i = ⟨start + 2 * i, (bytes.drop (2 * i)).take 2⟩ :=
  congrArg (Row.mk (start + 2 * i)) (bytes_rowAt start bytes.toArray i)

lemma rows_singleton (start : Nat) (b : UInt8) :
    rows start [b].toArray = [⟨start, [b]⟩] := by
  have hrow := rowAt_eq start [b] 0
  simp only [rows, List.size_toArray, List.length_singleton]
  simpa using hrow

lemma rows_cons_cons (start : Nat) (high low : UInt8) (rest : List UInt8) :
    rows start (high :: low :: rest).toArray =
      ⟨start, [high, low]⟩ :: rows (start + 2) rest.toArray := by
  have hcount : ((high :: low :: rest).length + 1) / 2 = (rest.length + 1) / 2 + 1 := by
    simp only [List.length_cons]
    omega
  have hfirst : rowAt start (high :: low :: rest).toArray 0 = ⟨start, [high, low]⟩ :=
    rowAt_eq start _ 0
  have hshift : ∀ i, rowAt start (high :: low :: rest).toArray (i + 1) =
      rowAt (start + 2) rest.toArray i := fun i => by
    rw [rowAt_eq, rowAt_eq, show 2 * (i + 1) = 2 * i + 1 + 1 by omega, List.drop_succ_cons,
      List.drop_succ_cons, show start + (2 * i + 1 + 1) = start + 2 + 2 * i by omega]
  rw [rows, rows, List.size_toArray, List.size_toArray, hcount, List.range_succ_eq_map,
    List.map_cons, List.map_map, hfirst]
  exact congrArg _ (List.map_congr_left fun i _ => hshift i)

/-- The line of a full word shows its two bytes. -/
lemma getElem?_assembly {program : List UInt8} {i : Nat} (h : 2 * i + 1 < program.length) :
    (assembly program)[i]? =
      some (Row.assembly ⟨programStart + 2 * i, [program[2 * i], program[2 * i + 1]]⟩) := by
  have hi : i < (program.length + 1) / 2 := by omega
  have hbytes : (program.drop (2 * i)).take 2 = [program[2 * i], program[2 * i + 1]] := by
    rw [List.drop_eq_getElem_cons (by omega), List.drop_eq_getElem_cons h]
    rfl
  simp [assembly, rows, hi, rowAt_eq, hbytes]

end Chip8
