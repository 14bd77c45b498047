import Mathlib.Data.List.Forall2
import Mathlib.Tactic.Common
import Chip8.Proofs.Digits
import Chip8.Proofs.Listing.Lister

/-!
Assembling and decoding are inverse.

The fields of an opcode and the bits that tell it apart share the sixteen bits of a word among
them, without a gap and without an overlap. So values that are put into the fields can be read
back from the word, and a word is made up of its pattern and the values of its fields.

* `Field.place_value`, `Field.value_place`: one field of a word;
* `fill_values`, `map_value_fill`: many fields of a word;
* `Opcode.disjoint`, `Opcode.covers`: the fields of an opcode;
* `Instruction.assemble_operands`, `Statement.operands_instruction`: words and operands;
* `map_assembly_rows`: the listing of assembled statements;
* `assembling_inverts_decoding`: all of this together.
-/

namespace Chip8

/-! ### One field -/

namespace Field

/-- The value has no more digits than the field. -/
def Fits (f : Field) (value : UInt16) : Prop :=
  value.toNat < f.count

instance (f : Field) (value : UInt16) : Decidable (f.Fits value) :=
  inferInstanceAs (Decidable (_ < _))

/-- The mask of a field has the bits of its values, moved to where the field is. -/
lemma toNat_mask (f : Field) :
    f.bits.mask.toNat = (f.count - 1) <<< f.bits.shift.toNat ∧ f.bits.shift.toNat < 16 := by
  cases f <;> decide

/-- **A field that is read and put back** is what its mask leaves of the word. -/
lemma place_value (f : Field) (word : UInt16) :
    f.bits.place (f.value word) = word &&& f.bits.mask := by
  obtain ⟨hmask, hshift⟩ := toNat_mask f
  have hclear (n m s : Nat) : (n &&& m <<< s) >>> s <<< s = n &&& m <<< s := by
    apply Nat.eq_of_testBit_eq
    intro i
    rw [Nat.testBit_shiftLeft, Nat.testBit_shiftRight, Nat.testBit_and, Nat.testBit_and,
      Nat.testBit_shiftLeft, Nat.testBit_shiftLeft]
    rcases Nat.lt_or_ge i s with hi | hi
    · simp [Nat.not_le.2 hi]
    · simp [hi]
  have hlt : word.toNat &&& f.bits.mask.toNat < 2 ^ 16 :=
    Nat.lt_of_le_of_lt Nat.and_le_left word.toNat_lt
  rw [BitField.place, value, BitField.extract, ← UInt16.toNat_inj, UInt16.toNat_shiftLeft,
    UInt16.toNat_shiftRight, UInt16.toNat_and, Nat.mod_eq_of_lt hshift]
  rw [hmask] at hlt ⊢
  rw [hclear, Nat.mod_eq_of_lt hlt]

/-- **A value that is put into a field is read back**, if it fits. -/
lemma value_place {f : Field} {v : UInt16} (h : f.Fits v) : f.value (f.bits.place v) = v := by
  have hplace : (f.bits.place v).toNat = v.toNat * f.weight := by
    have hv : v.toNat < f.count := h
    have hpow : 2 ^ (f.bits.shift.toNat % 16) = f.weight := by cases f <;> rfl
    have hlt : v.toNat * f.weight < 2 ^ 16 := by
      cases f <;> simp only [weight, count] at hv ⊢ <;> omega
    rw [BitField.place, UInt16.toNat_shiftLeft, Nat.shiftLeft_eq, hpow, Nat.mod_eq_of_lt hlt]
  have hweight : 0 < f.weight := by cases f <;> decide
  rw [← UInt16.toNat_inj, toNat_value, hplace, Nat.mul_div_cancel _ hweight, Nat.mod_eq_of_lt h]

/-- A value that fits lies within the mask of its field. -/
lemma place_and_mask {f : Field} {v : UInt16} (h : f.Fits v) :
    f.bits.place v &&& f.bits.mask = f.bits.place v := by
  rw [← place_value, value_place h]

lemma place_and_of_disjoint {f : Field} {v mask : UInt16} (h : f.Fits v)
    (apart : f.bits.mask &&& mask = 0) : f.bits.place v &&& mask = 0 := by
  rw [← place_and_mask h, UInt16.and_assoc, apart, UInt16.and_zero]

end Field

/-! ### Many fields -/

/-- A word with values put into fields on top of what it has. -/
def fill (word : UInt16) (fields : List Field) (values : List UInt16) : UInt16 :=
  (fields.zip values).foldl (fun word p => word ||| p.1.bits.place p.2) word

lemma fill_cons (word : UInt16) (f : Field) (fields : List Field) (v : UInt16)
    (values : List UInt16) :
    fill word (f :: fields) (v :: values) = fill (word ||| f.bits.place v) fields values := rfl

/-- Both of two words leave of a third what each of them leaves. -/
lemma and_or_distrib (a b c : UInt16) : a &&& (b ||| c) = a &&& b ||| a &&& c :=
  UInt16.toBitVec_inj.1 BitVec.and_or_distrib_left

lemma or_and_distrib (a b c : UInt16) : (a ||| b) &&& c = a &&& c ||| b &&& c := by
  rw [UInt16.and_comm, and_or_distrib, UInt16.and_comm c a, UInt16.and_comm c b]

section Fill

variable {word mask : UInt16} {fields : List Field} {values : List UInt16}

/-- Values do not show where their fields have no bits. -/
lemma fill_and_of_disjoint (fits : List.Forall₂ Field.Fits fields values)
    (apart : ∀ f ∈ fields, f.bits.mask &&& mask = 0) :
    fill word fields values &&& mask = word &&& mask := by
  induction fits generalizing word with
  | nil => rfl
  | @cons f v fields values hv _ ih =>
    rw [List.forall_mem_cons] at apart
    rw [fill_cons, ih apart.2, or_and_distrib, Field.place_and_of_disjoint hv apart.1,
      UInt16.or_zero]

/-- **Values that are put into fields are read back**, if no two of the fields overlap and the
word is empty there. -/
theorem map_value_fill (fits : List.Forall₂ Field.Fits fields values)
    (apart : fields.Pairwise fun f g => f.bits.mask &&& g.bits.mask = 0)
    (empty : ∀ f ∈ fields, word &&& f.bits.mask = 0) :
    fields.map (·.value (fill word fields values)) = values := by
  induction fits generalizing word with
  | nil => rfl
  | @cons f v fields values hv htail ih =>
    rw [List.forall_mem_cons] at empty
    obtain ⟨hf, hrest⟩ := List.pairwise_cons.1 apart
    -- filling the other fields leaves the bits of the first one as they are
    have hfirst : f.value (fill (word ||| f.bits.place v) fields values) = v := by
      have hsym : ∀ g ∈ fields, g.bits.mask &&& f.bits.mask = 0 := fun g hg =>
        (UInt16.and_comm _ _).trans (hf g hg)
      have hmask : fill (word ||| f.bits.place v) fields values &&& f.bits.mask =
          f.bits.place v &&& f.bits.mask := by
        rw [fill_and_of_disjoint htail hsym, or_and_distrib, empty.1, UInt16.zero_or]
      calc f.value (fill (word ||| f.bits.place v) fields values)
          = (f.bits.place v &&& f.bits.mask) >>> f.bits.shift := by
            rw [← hmask, Field.value, BitField.extract]
        _ = v := Field.value_place hv
    -- and the first one has left the others empty
    have hempty : ∀ g ∈ fields, (word ||| f.bits.place v) &&& g.bits.mask = 0 := fun g hg => by
      rw [or_and_distrib, empty.2 g hg, Field.place_and_of_disjoint hv (hf g hg), UInt16.or_zero]
    rw [fill_cons, List.map_cons, hfirst, ih hrest hempty]

/-- **The values of fields that are put back** add to a part of the word what the masks of the
fields leave of it. -/
theorem fill_values (word mask : UInt16) (fields : List Field) :
    fill (word &&& mask) fields (fields.map (·.value word)) =
      word &&& fields.foldl (fun mask f => mask ||| f.bits.mask) mask := by
  induction fields generalizing mask with
  | nil => rfl
  | cons f fields ih =>
    rw [List.map_cons, fill_cons, Field.place_value, ← and_or_distrib, ih, List.foldl_cons]

end Fill

/-! ### The fields of an opcode -/

namespace Opcode

/-- No bit of a word belongs to two fields, or to a field and to what tells the opcode apart. -/
lemma disjoint (op : Opcode) :
    (∀ f ∈ op.format.fields, f.bits.mask &&& op.format.mask = 0) ∧
      op.format.fields.Pairwise fun f g => f.bits.mask &&& g.bits.mask = 0 := by
  have hall : ∀ op ∈ all, (∀ f ∈ op.format.fields, f.bits.mask &&& op.format.mask = 0) ∧
      op.format.fields.Pairwise fun f g => f.bits.mask &&& g.bits.mask = 0 := by decide
  exact hall op (mem_all op)

/-- Every bit of a word belongs to a field, or to what tells the opcode apart. -/
lemma covers (op : Opcode) :
    op.format.fields.foldl (fun mask f => mask ||| f.bits.mask) op.format.mask = 0xFFFF := by
  have hall : ∀ op ∈ all,
      op.format.fields.foldl (fun mask f => mask ||| f.bits.mask) op.format.mask = 0xFFFF := by
    decide
  exact hall op (mem_all op)

end Opcode

namespace Instruction

/-- **A word is made up of the pattern of its opcode and its operands.** -/
theorem assemble_operands (i : Instruction) : i.opcode.assemble i.operands = i.word := by
  have hpattern : i.opcode.format.pattern = i.word &&& i.opcode.format.mask := i.word_matches.symm
  have hfull : (0xFFFF : UInt16) = -1 := rfl
  calc i.opcode.assemble i.operands
      = fill i.opcode.format.pattern i.opcode.format.fields i.operands := rfl
    _ = i.word &&& 0xFFFF := by
      rw [hpattern, operands, fill_values, i.opcode.covers]
    _ = i.word := by rw [hfull, UInt16.and_neg_one]

end Instruction

/-! ### Statements -/

/-- An opcode and a value for each of its operands, as they stand in an assembly program. -/
structure Statement where
  opcode : Opcode
  values : List UInt16
  fits : List.Forall₂ Field.Fits opcode.format.fields values
  deriving DecidableEq, Repr

namespace Statement

variable (s : Statement)

/-- The word of a statement: the pattern of the opcode, and the values in their fields. -/
def word : UInt16 :=
  s.opcode.assemble s.values

/-- The value of an operand, if the opcode has it. -/
def value? (f : Field) : Option UInt16 :=
  (s.opcode.format.fields.zip s.values).lookup f

/-- A piece of the assembly text. An operand has as many upper-case digits as its field, with
zeros in front. -/
def pieceText : Piece → String
  | .lit text => text
  | .arg f => String.ofList
      (((Nat.toDigits 16 ((s.value? f).getD 0).toNat).map Char.toUpper).leftpad f.nibbles '0')

/-- The assembly text of a statement: that of the opcode, with the operands in their places. -/
def text : String :=
  String.join (s.opcode.format.template.map s.pieceText)

/-- The line of a statement that is stored at an address. -/
def line (address : Nat) : String :=
  Hex.address address ++ ": " ++ Hex.word s.word ++ "  " ++ s.text

lemma matches_word : s.opcode.Matches s.word := by
  obtain ⟨hmask, -⟩ := s.opcode.disjoint
  calc s.word &&& s.opcode.format.mask
      = s.opcode.format.pattern &&& s.opcode.format.mask := fill_and_of_disjoint s.fits hmask
    _ = s.opcode.format.pattern := s.opcode.pattern_and_mask

/-- The instruction of a statement. -/
def instruction : Instruction :=
  ⟨s.opcode, s.word, s.matches_word⟩

/-- **The operands of a statement are read back from its word.** -/
theorem operands_instruction : s.instruction.operands = s.values := by
  obtain ⟨hmask, hfields⟩ := s.opcode.disjoint
  refine map_value_fill s.fits hfields fun f hf => ?_
  -- the pattern lies within the mask of the opcode, where the field has no bits
  rw [← s.opcode.pattern_and_mask, UInt16.and_assoc, UInt16.and_comm s.opcode.format.mask,
    hmask f hf, UInt16.and_zero]

lemma decode_word : Instruction.decode s.word = .ok s.instruction :=
  Instruction.decode_eq_ok_iff.2 rfl

/-- **Whatever the order of the table**, the opcode of a statement is the first that its word
matches. -/
theorem find?_eq_some {table : List Opcode} (complete : s.opcode ∈ table) :
    table.find? (·.Matches s.word) = some s.opcode := by
  induction table with
  | nil => exact absurd complete List.not_mem_nil
  | cons op table ih =>
    by_cases hop : op.Matches s.word
    · obtain rfl : op = s.opcode := Opcode.eq_of_matches hop s.matches_word
      simp [hop]
    · have hne : s.opcode ≠ op := fun h => hop (h ▸ s.matches_word)
      rw [List.find?_cons_of_neg (by simpa using hop)]
      exact ih ((List.mem_cons.1 complete).resolve_left hne)

/-! ### The text of a statement -/

lemma value?_eq_some {f : Field} (hf : f ∈ s.opcode.format.fields) :
    s.value? f = some (f.value s.word) := by
  have hlookup (fields : List Field) (h : f ∈ fields) :
      (fields.zip (fields.map (·.value s.word))).lookup f = some (f.value s.word) := by
    induction fields with
    | nil => exact absurd h List.not_mem_nil
    | cons g fields ih =>
      by_cases hg : f = g
      · subst hg
        simp
      · simpa [List.lookup_cons, beq_false_of_ne hg] using ih ((List.mem_cons.1 h).resolve_left hg)
  have hvalues : s.opcode.format.fields.map (·.value s.word) = s.values := s.operands_instruction
  rw [value?, ← hvalues]
  exact hlookup _ hf

lemma text_instruction : s.instruction.text = s.text := by
  have hpiece : ∀ piece ∈ s.opcode.format.template,
      s.instruction.pieceText piece = s.pieceText piece := fun piece hpiece => by
    cases piece with
    | lit text => rfl
    | arg f =>
      have hf : f ∈ s.opcode.format.fields := Instruction.canSpell s.opcode _ hpiece
      have hcount : 0 < f.nibbles ∧ f.count = 16 ^ f.nibbles := by cases f <;> decide
      have hlt : (f.value s.word).toNat < 16 ^ f.nibbles := hcount.2 ▸ f.value_lt s.word
      rw [pieceText, s.value?_eq_some hf, Option.getD_some, ← Hex.fixed_eq_leftpad hcount.1 hlt]
      rfl
  exact congrArg String.join (List.map_congr_left hpiece)

/-- The line of the row that holds the word of a statement. -/
lemma assembly_row (address : Nat) :
    Row.assembly ⟨address, Memory.bytesOf s.word⟩ = s.line address := by
  have hreading : Row.reading? ⟨address, Memory.bytesOf s.word⟩ =
      some (.instruction s.instruction) := by
    simp only [Row.reading?, Memory.bytesOf, Memory.wordOf_bytesOf, Reading.ofWord, s.decode_word]
  have hbytes : String.join ((Memory.bytesOf s.word).map Hex.byte) = Hex.word s.word := by
    rw [← Memory.wordOf_bytesOf s.word, Hex.word_wordOf, Memory.wordOf_bytesOf]
    simp [Memory.bytesOf]
  rw [Row.assembly, hreading, Row.head, hbytes, Option.map_some, Option.getD_some, Reading.text,
    s.text_instruction, line]
  simp only [String.append_assoc]

end Statement

/-- **The listing of assembled statements** has the line of each of them. -/
theorem map_assembly_rows (start : Nat) (program : List Statement) :
    (rows start (Memory.bytesOfWords (program.map Statement.word)).toArray).map Row.assembly =
      program.mapIdx fun i s => s.line (start + 2 * i) := by
  induction program generalizing start with
  | nil => rfl
  | cons s program ih =>
    have hrows : rows start (Memory.bytesOfWords ((s :: program).map Statement.word)).toArray =
        ⟨start, Memory.bytesOf s.word⟩ ::
          rows (start + 2) (Memory.bytesOfWords (program.map Statement.word)).toArray :=
      rows_cons_cons start _ _ _
    rw [hrows, List.map_cons, ih, s.assembly_row, List.mapIdx_cons]
    refine congrArg _ (congrArg (List.mapIdx · program) ?_)
    funext i s'
    rw [Nat.add_assoc, Nat.mul_succ, Nat.add_comm 2]

/-- A full word that is not listed as data is an instruction. -/
lemma exists_decode_of_mnemonic_ne {rom : List UInt8} {i : Nat} {line : String} {high low : UInt8}
    (hhigh : rom[2 * i]? = some high) (hlow : rom[2 * i + 1]? = some low)
    (hline : (assembly rom)[i]? = some line) (hword : Line.mnemonic line ≠ "DW") :
    ∃ instruction, Instruction.decode (Memory.wordOf high low) = .ok instruction := by
  obtain ⟨-, rfl⟩ := List.getElem?_eq_some_iff.1 hhigh
  obtain ⟨hfull, rfl⟩ := List.getElem?_eq_some_iff.1 hlow
  rw [getElem?_assembly hfull, Option.some.injEq] at hline
  have hreading : Row.reading? ⟨programStart + 2 * i, [rom[2 * i], rom[2 * i + 1]]⟩ =
      some (.ofWord (Memory.wordOf rom[2 * i] rom[2 * i + 1])) := rfl
  cases hdecode : Instruction.decode (Memory.wordOf rom[2 * i] rom[2 * i + 1]) with
  | ok instruction => exact ⟨instruction, rfl⟩
  | error f =>
    have hdata : Reading.ofWord (Memory.wordOf rom[2 * i] rom[2 * i + 1]) =
        .dataWord (Memory.wordOf rom[2 * i] rom[2 * i + 1]) := by
      rw [Reading.ofWord, hdecode]
    exact absurd ((mnemonic_assembly_iff hreading).1.2 ⟨_, hdata⟩) (hline ▸ hword)

/-- **Assembling and decoding are inverse over whole programs.** The word of every statement of a
program decodes to the opcode and the operands of the statement, and in whatever order the opcodes
are tried, the one of the statement is found. The listing of the bytes of the words has a line for
each statement, which ends in its text. The other way round, every full word of a program that is
not listed as data is the word that its opcode and its operands are assembled to. -/
theorem assembling_inverts_decoding :
    (∀ program : List Statement,
      (∀ s ∈ program,
        (∃ i, Instruction.decode s.word = .ok i ∧ i.opcode = s.opcode ∧ i.operands = s.values) ∧
        ∀ table : List Opcode, table.Perm Opcode.all →
          table.find? (·.Matches s.word) = some s.opcode) ∧
      assembly (Memory.bytesOfWords (program.map Statement.word)) =
        program.mapIdx fun i s =>
          Hex.address (0x200 + 2 * i) ++ ": " ++ Hex.word s.word ++ "  " ++ s.text) ∧
    (∀ (rom : List UInt8) (i : Nat) (line : String) (high low : UInt8),
      rom[2 * i]? = some high → rom[2 * i + 1]? = some low →
      (assembly rom)[i]? = some line → Line.mnemonic line ≠ "DW" →
      ∃ instruction, Instruction.decode (Memory.wordOf high low) = .ok instruction ∧
        instruction.opcode.assemble instruction.operands = Memory.wordOf high low) := by
  refine ⟨fun program => ⟨fun s _ => ⟨?_, fun table hperm => ?_⟩, ?_⟩,
    fun rom i line high low hhigh hlow hline hword => ?_⟩
  · exact ⟨s.instruction, s.decode_word, rfl, s.operands_instruction⟩
  · exact s.find?_eq_some (hperm.mem_iff.2 (Opcode.mem_all s.opcode))
  · exact map_assembly_rows programStart program
  · obtain ⟨instruction, hdecode⟩ := exists_decode_of_mnemonic_ne hhigh hlow hline hword
    refine ⟨instruction, hdecode, ?_⟩
    rw [instruction.assemble_operands, Instruction.decode_eq_ok_iff.1 hdecode]

/-- A sprite of fifteen rows, with the last two registers for its place. -/
def sprite : Statement :=
  ⟨.drawSprite, [14, 15, 15], by decide⟩

/-- A shift, in whose word there are two registers and in whose text there is one. -/
def shift : Statement :=
  ⟨.arithmetic .shiftRight, [3, 10], by decide⟩

/-- Both statements are decoded and listed, also if the table is tried from its end. A word that
nobody assembled is made up of its parts, too. -/
theorem assembling_inverts_decoding_shift :
    (∃ i, Instruction.decode shift.word = .ok i ∧ i.opcode = .arithmetic .shiftRight ∧
      i.operands = [3, 10]) ∧
    Opcode.all.reverse.find? (·.Matches sprite.word) = some .drawSprite ∧
    assembly (Memory.bytesOfWords ([sprite, shift].map Statement.word)) =
      ["0200: DEFF  DRW VE, VF, F", "0202: 83A6  SHR V3"] ∧
    ∃ i, Instruction.decode (Memory.wordOf 0xF4 0x1E) = .ok i ∧
      i.opcode.assemble i.operands = Memory.wordOf 0xF4 0x1E := by
  obtain ⟨hprogram, hrom⟩ := assembling_inverts_decoding
  obtain ⟨hdecode, hlisting⟩ := hprogram [sprite, shift]
  refine ⟨(hdecode shift (by decide)).1, ?_, ?_, ?_⟩
  · exact (hdecode sprite (by decide)).2 _ Opcode.all.reverse_perm
  · rw [hlisting]
    decide +kernel
  · exact hrom [0xF4, 0x1E] 0 "0200: F41E  ADD I, V4" 0xF4 0x1E rfl rfl (by decide +kernel)
      (by decide +kernel)

end Chip8
