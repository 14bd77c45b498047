import Chip8.Instruction.Basic
import Chip8.Proofs.Guarded.Basic

/-!
Instructions on a host that checks every access.

Decoding a word puts its operands into an array with room for three, and the first of them are
taken out of it by whoever executes the instruction. That the opcode has as many operands as are
asked for is nowhere written down but in the table of formats, and the same holds for the
operands that stand in the assembly text.

* `decode_eq_some`: no word makes the host break down;
* `operand_eq_some`, `operandPair_eq_some`, `operandTriple_eq_some`: nor does asking for operands
  that the format has;
* `text_eq_some`: the text of every instruction can be written.
-/

namespace Chip8.Guarded

/-- The most operands of an instruction. -/
abbrev operandCapacity : Nat := 3

/-! ### Decoding -/

/-- The value that a word has in a field. -/
def extract (b : BitField) (word : UInt16) : Option UInt16 :=
  if b.shift < 16 then some (b.extract word) else none

/-- The operands of an instruction, with zeros behind them. -/
def arguments (i : Instruction) : Option (Vector UInt16 operandCapacity) := do
  let values ← (i.opcode.format.fields.take operandCapacity).mapM fun f => extract f.bits i.word
  some (.ofFn fun k => values.getD k 0)

/-- The instruction of a word. -/
def decode (word : UInt16) : Option (Except Fault Instruction) :=
  match Instruction.decode word with
  | .error f => some (.error f)
  | .ok i => do
    let _ ← arguments i
    some (.ok i)

variable {i : Instruction}

lemma extract_eq_some (f : Field) (word : UInt16) :
    extract f.bits word = some (f.value word) := by
  cases f <;> rfl

/-- No format has more operands than there is room for. -/
lemma length_fields_le (op : Opcode) : op.format.fields.length ≤ operandCapacity := by
  have hall : ∀ op ∈ Opcode.all, op.format.fields.length ≤ operandCapacity := by decide
  exact hall op (Opcode.mem_all op)

lemma arguments_eq_some (i : Instruction) :
    arguments i = some (.ofFn fun k => i.operands.getD k 0) := by
  have hvalues : i.opcode.format.fields.mapM (fun f => extract f.bits i.word) =
      some i.operands :=
    mapM_eq_some fun f _ => extract_eq_some f i.word
  rw [arguments, List.take_of_length_le (length_fields_le i.opcode), hvalues]
  rfl

/-- **Decoding does not break down**, whatever the word. -/
theorem decode_eq_some (word : UInt16) : decode word = some (Instruction.decode word) := by
  rw [decode]
  cases Instruction.decode word with
  | error f => rfl
  | ok i =>
    simp only [arguments_eq_some]
    rfl

/-! ### Operands -/

/-- The first `count` operands, if the opcode has that many. -/
def operands (i : Instruction) (count : Nat) : Option (List UInt16) :=
  if count ≤ i.opcode.format.fields.length then do
    let values ← arguments i
    range values 0 count
  else none

/-- The only operand that is needed. -/
def operand (i : Instruction) : Option UInt16 := do
  match ← operands i 1 with
  | [a] => some a
  | _ => none

/-- The two operands that are needed. -/
def operandPair (i : Instruction) : Option (UInt16 × UInt16) := do
  match ← operands i 2 with
  | [a, b] => some (a, b)
  | _ => none

/-- The three operands that are needed. -/
def operandTriple (i : Instruction) : Option (UInt16 × UInt16 × UInt16) := do
  match ← operands i 3 with
  | [a, b, c] => some (a, b, c)
  | _ => none

lemma operands_eq_some {count : Nat} (h : count ≤ i.operands.length) :
    operands i count = some (i.operands.take count) := by
  have hfields : count ≤ i.opcode.format.fields.length := by
    simpa [Instruction.operands] using h
  have hroom : 0 + count ≤ operandCapacity := by
    have := length_fields_le i.opcode
    omega
  rw [operands, if_pos hfields, arguments_eq_some]
  simp only [Option.bind_eq_bind, Option.bind_some]
  rw [← Nat.zero_add count, range_eq_some hroom]
  refine congrArg some (List.ext_getElem ?_ fun k hk hk' => ?_)
  · simp only [List.length_ofFn, List.length_take]
    omega
  · have hlt : k < i.operands.length := by
      simp only [List.length_ofFn] at hk
      omega
    simp [hlt]

variable {f g k : Field} {rest : List Field}

theorem operand_eq_some (h : i.opcode.format.fields = f :: rest) :
    operand i = some (f.value i.word) := by
  have hvalues : i.operands = f.value i.word :: rest.map (·.value i.word) := by
    rw [Instruction.operands, h, List.map_cons]
  rw [operand, operands_eq_some (by simp [hvalues]), hvalues]
  rfl

theorem operandPair_eq_some (h : i.opcode.format.fields = f :: g :: rest) :
    operandPair i = some (f.value i.word, g.value i.word) := by
  have hvalues : i.operands =
      f.value i.word :: g.value i.word :: rest.map (·.value i.word) := by
    rw [Instruction.operands, h, List.map_cons, List.map_cons]
  rw [operandPair, operands_eq_some (by simp [hvalues]), hvalues]
  rfl

theorem operandTriple_eq_some (h : i.opcode.format.fields = f :: g :: k :: rest) :
    operandTriple i = some (f.value i.word, g.value i.word, k.value i.word) := by
  have hvalues : i.operands =
      f.value i.word :: g.value i.word :: k.value i.word :: rest.map (·.value i.word) := by
    rw [Instruction.operands, h, List.map_cons, List.map_cons, List.map_cons]
  rw [operandTriple, operands_eq_some (by simp [hvalues]), hvalues]
  rfl

/-- An instruction without operands does not give one. -/
example : operand ⟨.clearScreen, 0x00E0, by decide⟩ = none := by decide

/-! ### Text -/

/-- A piece of the assembly text; the operand of a field is looked up among the arguments. -/
def pieceText (i : Instruction) : Piece → Option (Except Fault String)
  | .lit text => some (.ok text)
  | .arg field =>
    match i.opcode.format.fields.idxOf? field with
    | none => some (.error .unwritable)
    | some k => do
      let values ← arguments i
      let value ← values[k]?
      some (.ok (String.ofList (Hex.fixed field.nibbles value.toNat)))

/-- Pieces of the assembly text, one behind the other. -/
def piecesText (i : Instruction) : List Piece → Option (Except Fault String)
  | [] => some (.ok "")
  | piece :: rest => do
    match ← pieceText i piece with
    | .error f => some (.error f)
    | .ok text =>
      match ← piecesText i rest with
      | .error f => some (.error f)
      | .ok more => some (.ok (text ++ more))

/-- The instruction as assembly, unless it cannot be written. -/
def text (i : Instruction) : Option (Except Fault String) :=
  piecesText i i.opcode.format.template

/-- The fields whose operands stand in pieces of a text. -/
def fieldsOf (pieces : List Piece) : List Field :=
  pieces.filterMap fun
    | .lit _ => none
    | .arg field => some field

/-- What stands in the text of an opcode are operands that it has. -/
lemma fieldsOf_template (op : Opcode) : fieldsOf op.format.template ⊆ op.format.fields := by
  have hall : ∀ op ∈ Opcode.all, fieldsOf op.format.template ⊆ op.format.fields := by decide
  exact hall op (Opcode.mem_all op)

lemma pieceText_arg (hf : f ∈ i.opcode.format.fields) :
    pieceText i (.arg f) = some (.ok (i.pieceText (.arg f))) := by
  obtain ⟨k, hk⟩ := Option.isSome_iff_exists.1 (List.isSome_idxOf?.2 hf)
  obtain ⟨hlt, hfield, -⟩ := List.idxOf?_eq_some_iff.1 hk
  have hroom : k < operandCapacity := Nat.lt_of_lt_of_le hlt (length_fields_le i.opcode)
  have hvalue : i.operands.getD k 0 = f.value i.word := by
    simp [Instruction.operands, hlt, hfield]
  rw [pieceText]
  simp only [hk, arguments_eq_some, Option.bind_eq_bind, Option.bind_some,
    Vector.getElem?_eq_getElem hroom, Vector.getElem_ofFn, hvalue]
  rfl

lemma piecesText_eq_some {pieces : List Piece} (h : fieldsOf pieces ⊆ i.opcode.format.fields) :
    piecesText i pieces = some (.ok (String.join (pieces.map i.pieceText))) := by
  induction pieces with
  | nil => rfl
  | cons piece rest ih =>
    have hpiece : pieceText i piece = some (.ok (i.pieceText piece)) := by
      cases piece with
      | lit text => rfl
      | arg field => exact pieceText_arg (h (by simp [fieldsOf]))
    have hrest : fieldsOf rest ⊆ i.opcode.format.fields := fun f hf =>
      h ((List.sublist_cons_self piece rest).filterMap _ |>.subset hf)
    rw [piecesText, hpiece, ih hrest]
    simp

/-- **The text of every instruction can be written.** -/
theorem text_eq_some (i : Instruction) : text i = some (.ok i.text) :=
  piecesText_eq_some (fieldsOf_template i.opcode)

end Chip8.Guarded
