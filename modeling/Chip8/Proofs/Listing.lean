import Mathlib.Data.List.Induction
import Chip8.Proofs.Listing.Lister

/-!
The listing of a program loses nothing.

Whatever the bytes and however many, the listing is written to its end, and once more if it is
asked for again. It has a line for every two bytes and one for an odd byte at the end; each line
tells where its bytes lie, and from the second columns the program can be read back. Listings of
programs that follow on each other follow on each other.

* `flatMap_bytes_rows`, `getElem?_rows_eq_some`, `rows_append`, `rows_add`: the rows of a program;
* `readBytes_digitsOf`, `flatMap_digits_rows`: bytes are read back from their digits;
* `Line.Shows`, `shows_of_getElem?`: what a line of a listing shows;
* `listing_loses_nothing`: all of this together.
-/

namespace Chip8

/-! ### Rows -/

/-- The rows of a program hold its bytes, one behind the other. -/
lemma flatMap_bytes_rows (start : Nat) (program : List UInt8) :
    (rows start program.toArray).flatMap Row.bytes = program := by
  induction program using List.twoStepInduction generalizing start with
  | nil => rw [rows_nil, List.flatMap_nil]
  | singleton b => simp [rows_singleton]
  | cons_cons high low rest ih _ => simp [rows_cons_cons, ih]

lemma exists_reading (start : Nat) (program : List UInt8) :
    ∀ r ∈ rows start program.toArray, ∃ reading, r.reading? = some reading := by
  induction program using List.twoStepInduction generalizing start with
  | nil => simp [rows_nil]
  | singleton b => simp [rows_singleton, Row.reading?]
  | cons_cons high low rest ih _ => simpa [rows_cons_cons, Row.reading?] using ih (start + 2)

/-- **The rows of a program behind another one** follow on the rows of that one, if it ends with
a full row. -/
lemma rows_append (start : Nat) {first : List UInt8} (heven : first.length % 2 = 0)
    (program : List UInt8) :
    rows start (first ++ program).toArray =
      rows start first.toArray ++ rows (start + first.length) program.toArray := by
  induction first using List.twoStepInduction generalizing start with
  | nil => simp [rows_nil]
  | singleton b => simp at heven
  | cons_cons high low rest ih _ =>
    have hrest : rest.length % 2 = 0 := by
      simp only [List.length_cons] at heven
      omega
    rw [List.cons_append, List.cons_append, rows_cons_cons, rows_cons_cons, ih _ hrest,
      List.cons_append, List.length_cons, List.length_cons, Nat.add_assoc, Nat.add_comm 2]

lemma rows_add (start distance : Nat) (program : Array UInt8) :
    rows (start + distance) program =
      (rows start program).map fun r => { r with address := r.address + distance } := by
  rw [rows, rows, List.map_map]
  refine List.map_congr_left fun i _ => ?_
  simp only [rowAt, Function.comp_apply, Row.mk.injEq, and_true]
  omega

lemma map_assembly_rows_add (start distance : Nat) (program : List UInt8) :
    (rows (start + distance) program.toArray).map Row.assembly =
      ((rows start program.toArray).map Row.assembly).map (Line.raise distance) := by
  rw [rows_add, List.map_map, List.map_map]
  refine List.map_congr_left fun r hr => ?_
  obtain ⟨reading, hreading⟩ := exists_reading start program r hr
  exact (raise_assembly hreading distance).symm

/-! ### Reading the bytes back -/

/-- The bytes that digits stand for, two for each. -/
def Line.readBytes : List Char → Option (List UInt8)
  | [] => some []
  | [_] => none
  | c :: d :: rest => do
    let high ← Numeral.digit? 16 c
    let low ← Numeral.digit? 16 d
    let bytes ← readBytes rest
    some (UInt8.ofNat (high * 16 + low) :: bytes)

/-- **Bytes are read back from their digits.** -/
lemma readBytes_digitsOf (bytes : List UInt8) : Line.readBytes (digitsOf bytes) = some bytes := by
  induction bytes with
  | nil => rfl
  | cons b rest ih =>
    have hb : b.toNat < 256 := b.toNat_lt
    have hhigh : b.toNat / 16 % 16 < 16 := Nat.mod_lt _ (by decide)
    have hlow : b.toNat % 16 < 16 := Nat.mod_lt _ (by decide)
    have hsum : b.toNat / 16 % 16 * 16 + b.toNat % 16 = b.toNat := by omega
    have hdigits : digitsOf (b :: rest) =
        Hex.digit (b.toNat / 16 % 16) :: Hex.digit (b.toNat % 16) :: digitsOf rest := by
      simp [digitsOf, Hex.byte, Hex.fixed]
    rw [hdigits, Line.readBytes, Hex.digit?_digit hhigh, Hex.digit?_digit hlow, ih]
    simp only [Option.bind_eq_bind, Option.bind_some, hsum, UInt8.ofNat_toNat]

/-- Second columns that have the digits of the rows have those of the program. -/
lemma flatMap_digits_rows {text : Row → String} {start : Nat} {program : List UInt8}
    (h : ∀ r ∈ rows start program.toArray, Line.digits (text r) = digitsOf r.bytes) :
    ((rows start program.toArray).map text).flatMap Line.digits = digitsOf program :=
  calc ((rows start program.toArray).map text).flatMap Line.digits
      = (rows start program.toArray).flatMap fun r => digitsOf r.bytes := by
        rw [List.flatMap_map, List.flatMap_def, List.flatMap_def, List.map_congr_left h]
    _ = digitsOf ((rows start program.toArray).flatMap Row.bytes) := by
        simp [digitsOf, List.flatMap_assoc]
    _ = digitsOf program := by rw [flatMap_bytes_rows]

lemma flatMap_digits_assembly (program : List UInt8) :
    (assembly program).flatMap Line.digits = digitsOf program :=
  flatMap_digits_rows fun r hr => by
    obtain ⟨reading, hreading⟩ := exists_reading programStart program r hr
    exact digits_assembly hreading

/-! ### What a line shows -/

/-- The line shows the bytes of a program from twice its number on: their place, their digits,
and whether they are an instruction, a data word or an odd byte. -/
structure Line.Shows (program : List UInt8) (i : Nat) (line : String) : Prop where
  address : Line.address line =
    ((Nat.toDigits 16 (0x200 + 2 * i)).map Char.toUpper).leftpad 4 '0'
  digits : (Line.digits line).length = if 2 * i + 1 < program.length then 4 else 2
  dataWord (h : 2 * i + 1 < program.length) : Line.mnemonic line = "DW" ↔
    ∀ instruction,
      Instruction.decode (Memory.wordOf program[2 * i] program[2 * i + 1]) ≠ .ok instruction
  dataByte : Line.mnemonic line = "DB" ↔ 2 * i + 1 = program.length
  newline : '\n' ∉ line.toList

lemma getElem?_rows_eq_some {start i : Nat} {program : List UInt8} {r : Row}
    (h : (rows start program.toArray)[i]? = some r) :
    2 * i < program.length ∧ r = ⟨start + 2 * i, (program.drop (2 * i)).take 2⟩ := by
  rw [rows, List.getElem?_map, List.size_toArray] at h
  obtain ⟨k, hk, rfl⟩ := Option.map_eq_some_iff.1 h
  obtain ⟨hlt, rfl⟩ := List.getElem?_eq_some_iff.1 hk
  rw [List.length_range] at hlt
  rw [List.getElem_range, rowAt_eq]
  exact ⟨by omega, rfl⟩

lemma getElem?_assembly_eq_some {program : List UInt8} {i : Nat} {line : String}
    (h : (assembly program)[i]? = some line) :
    2 * i < program.length ∧
      line = Row.assembly ⟨programStart + 2 * i, (program.drop (2 * i)).take 2⟩ := by
  rw [assembly, List.getElem?_map] at h
  obtain ⟨r, hr, rfl⟩ := Option.map_eq_some_iff.1 h
  obtain ⟨hi, rfl⟩ := getElem?_rows_eq_some hr
  exact ⟨hi, rfl⟩

/-- The line of a row that holds `bytes` at the place of row `i`. -/
lemma Line.Shows.of_reading {program bytes : List UInt8} {i : Nat} {reading : Reading}
    (hreading : Row.reading? ⟨programStart + 2 * i, bytes⟩ = some reading)
    (hlength : 2 * bytes.length = if 2 * i + 1 < program.length then 4 else 2)
    (hword : ∀ h : 2 * i + 1 < program.length, (∃ w, reading = .dataWord w) ↔
      ∀ instruction,
        Instruction.decode (Memory.wordOf program[2 * i] program[2 * i + 1]) ≠ .ok instruction)
    (hbyte : (∃ b, reading = .dataByte b) ↔ 2 * i + 1 = program.length) :
    Line.Shows program i (Row.assembly ⟨programStart + 2 * i, bytes⟩) where
  address := by rw [address_assembly hreading, Hex.toList_address]
  digits := by rw [digits_assembly hreading, length_digitsOf, hlength]
  dataWord h := (mnemonic_assembly_iff hreading).1.trans (hword h)
  dataByte := (mnemonic_assembly_iff hreading).2.trans hbyte
  newline := newline_not_mem_assembly hreading

/-- A word is read as data exactly if it is no instruction, and never as a byte. -/
lemma Reading.ofWord_eq_iff (w : UInt16) :
    ((∃ v, Reading.ofWord w = .dataWord v) ↔ ∀ i, Instruction.decode w ≠ .ok i) ∧
      ∀ b, Reading.ofWord w ≠ .dataByte b := by
  rw [Reading.ofWord]
  cases Instruction.decode w <;> simp

/-- **What the lines of a listing show.** -/
theorem shows_of_getElem? {program : List UInt8} {i : Nat} {line : String}
    (h : (assembly program)[i]? = some line) : Line.Shows program i line := by
  obtain ⟨hi, rfl⟩ := getElem?_assembly_eq_some h
  by_cases hfull : 2 * i + 1 < program.length
  · have hbytes : (program.drop (2 * i)).take 2 = [program[2 * i], program[2 * i + 1]] := by
      rw [List.drop_eq_getElem_cons hi, List.drop_eq_getElem_cons hfull]
      rfl
    obtain ⟨hword, hbyte⟩ :=
      Reading.ofWord_eq_iff (Memory.wordOf program[2 * i] program[2 * i + 1])
    rw [hbytes]
    refine .of_reading rfl ?_ (fun _ => hword) ?_
    · rw [if_pos hfull]
      rfl
    · exact ⟨fun ⟨b, hb⟩ => absurd hb (hbyte b), fun hend => by omega⟩
  · -- the last byte of a program of odd length stands alone
    have hbytes : (program.drop (2 * i)).take 2 = [program[2 * i]] := by
      rw [List.drop_eq_getElem_cons hi, List.drop_eq_nil_of_le (by omega)]
      rfl
    rw [hbytes]
    refine .of_reading rfl ?_ (fun h => absurd h hfull) ?_
    · rw [if_neg hfull]
      rfl
    · exact ⟨fun _ => by omega, fun _ => ⟨_, rfl⟩⟩

/-! ### The whole listing -/

lemma length_assembly (program : List UInt8) :
    (assembly program).length = (program.length + 1) / 2 := by
  simp [assembly]

/-- If there is a line for every two of `size` bytes and one for an odd byte at the end, and a line
is one of a single byte if it is at the end, then the last line is one exactly if the size is
odd. -/
lemma exists_getLast?_iff {lines : List String} {size : Nat} {single : String → Prop}
    (length : lines.length = (size + 1) / 2)
    (atEnd : ∀ i line, lines[i]? = some line → (single line ↔ 2 * i + 1 = size)) :
    (∃ line ∈ lines.getLast?, single line) ↔ size % 2 = 1 := by
  rw [List.getLast?_eq_getElem?, length]
  constructor
  · rintro ⟨line, hline, hsingle⟩
    have hend := (atEnd _ _ hline).1 hsingle
    omega
  · intro hodd
    have hlt : (size + 1) / 2 - 1 < lines.length := by omega
    have hline := List.getElem?_eq_getElem hlt
    refine ⟨_, hline, (atEnd _ _ hline).2 ?_⟩
    omega

lemma getLast?_assembly_iff (program : List UInt8) :
    (∃ line ∈ (assembly program).getLast?, Line.mnemonic line = "DB") ↔
      program.length % 2 = 1 :=
  exists_getLast?_iff (length_assembly program) fun _ _ hline => (shows_of_getElem? hline).dataByte

/-- **The listing of a program loses nothing.** It is written to its end, and the same again if
it is asked for once more. It has a line for every two bytes and one for an odd byte at the end,
and each line shows where it lies and what it holds. The second columns give the program back.
The last line is that of a byte exactly if the length is odd. A program behind another one of even
length is listed behind it, with its addresses moved on by that length. -/
theorem listing_loses_nothing (program : List UInt8) :
    (Lister.start program).write.1 = .ok (unlines (assembly program)) ∧
    (Lister.start program).write.2.write.1 = .ok (unlines (assembly program)) ∧
    (assembly program).length = (program.length + 1) / 2 ∧
    (∀ i line, (assembly program)[i]? = some line → Line.Shows program i line) ∧
    Line.readBytes ((assembly program).flatMap Line.digits) = some program ∧
    ((∃ line ∈ (assembly program).getLast?, Line.mnemonic line = "DB") ↔
      program.length % 2 = 1) ∧
    (∀ first : List UInt8, first.length % 2 = 0 →
      assembly (first ++ program) =
        assembly first ++ (assembly program).map (Line.raise first.length)) := by
  refine ⟨by rw [Lister.write_eq]; rfl, by rw [Lister.write_eq, Lister.write_eq]; rfl,
    length_assembly program, fun i line => shows_of_getElem?, ?_, getLast?_assembly_iff program,
    fun first heven => ?_⟩
  · rw [flatMap_digits_assembly, readBytes_digitsOf]
  · -- an even number of bytes ends with a full row, so the second program begins one of its own
    rw [assembly, rows_append _ heven, List.map_append, map_assembly_rows_add]
    rfl

/-- A program of two words, one of which is no instruction, and an odd byte. -/
def scrap : List UInt8 :=
  [0xA2, 0x1E, 0xFF, 0xFF, 0xD0]

/-- The second line of the program shows a data word, the last one a byte, and behind another
program the lines are two bytes further on. -/
theorem listing_loses_nothing_scrap :
    Line.Shows scrap 1 "0202: FFFF  DW 0xFFFF" ∧
    (∀ i, Instruction.decode (Memory.wordOf 0xFF 0xFF) ≠ .ok i) ∧
    (∃ line ∈ (assembly scrap).getLast?, Line.mnemonic line = "DB") ∧
    assembly ([0x00, 0xE0] ++ scrap) =
      ["0200: 00E0  CLS", "0202: A21E  LD I, 21E", "0204: FFFF  DW 0xFFFF",
        "0206: D0    DB 0xD0"] := by
  obtain ⟨-, -, -, hshows, -, hlast, happend⟩ := listing_loses_nothing scrap
  have hline : (assembly scrap)[1]? = some "0202: FFFF  DW 0xFFFF" := by decide +kernel
  have hword : 2 * 1 + 1 < scrap.length := by decide
  refine ⟨hshows 1 _ hline, ?_, hlast.2 rfl, ?_⟩
  · exact ((hshows 1 _ hline).dataWord hword).1 (by decide +kernel)
  · rw [happend [0x00, 0xE0] rfl]
    decide +kernel

end Chip8
