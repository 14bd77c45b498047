import Mathlib.Data.List.Forall2
import Chip8.Host.Random
import Chip8.Proofs.Assembling
import Chip8.Proofs.Computation

/-!
Instructions that are written alike.

The assembly text of an instruction has a shape, which its opcode fixes: characters, and places for
digits. No text has the shapes of two opcodes, and within a shape every place belongs to one
operand, so the text gives away the opcode and the operands that it shows. Only the two shifts do
not show all that they have; the operand that they hide does nothing. So the text of an instruction
says all that it does.

* `Opcode.shape`, `Instruction.fits_shape`, `Opcode.shape_apart`: the shapes of texts;
* `Instruction.text_eq_iff`: instructions that are written alike;
* `Instruction.eq_or_shift`: they are the same, or shifts;
* `step_of_text_eq`: they do the same;
* `text_settles_step`: words with the same text.
-/

namespace Chip8

/-! ### Shapes -/

/-- What can stand in a place of a text: one character, or any digit. -/
def Admits : Option Char → Char → Prop
  | some c, d => c = d
  | none, d => ∃ k < 16, Hex.digit k = d

instance : ∀ place d, Decidable (Admits place d)
  | some c, d => inferInstanceAs (Decidable (c = d))
  | none, d => inferInstanceAs (Decidable (∃ k < 16, Hex.digit k = d))

/-- A character can stand in both places. -/
def Meet : Option Char → Option Char → Prop
  | some c, place | place, some c => Admits place c
  | none, none => True

instance : ∀ place place', Decidable (Meet place place')
  | some c, place => inferInstanceAs (Decidable (Admits place c))
  | none, some c => inferInstanceAs (Decidable (Admits none c))
  | none, none => isTrue trivial

lemma Admits.meet {place place' : Option Char} {c : Char} (h : Admits place c)
    (h' : Admits place' c) : Meet place place' := by
  match place, place' with
  | some d, some d' => exact h'.trans h.symm
  | some d, none => exact h ▸ h'
  | none, some d' => exact h' ▸ h
  | none, none => trivial

/-- Places that one text fits into meet one by one. -/
lemma meet_of_admits {shape shape' : List (Option Char)} {text : List Char}
    (h : List.Forall₂ Admits shape text) (h' : List.Forall₂ Admits shape' text) :
    List.Forall₂ Meet shape shape' := by
  induction h generalizing shape' with
  | nil =>
    cases h'
    exact .nil
  | cons hc _ ih =>
    cases h' with
    | cons hc' hrest => exact .cons (hc.meet hc') (ih hrest)

/-- The places of a piece. An operand has one for each of its digits. -/
def Piece.shape : Piece → List (Option Char)
  | .lit text => text.toList.map some
  | .arg field => List.replicate field.nibbles none

/-- The places of the text of an opcode. -/
def Opcode.shape (op : Opcode) : List (Option Char) :=
  op.format.template.flatMap Piece.shape

/-- **No text has the shapes of two opcodes.** -/
lemma Opcode.shape_apart : ∀ op ∈ all, ∀ op' ∈ all, op ≠ op' →
    ¬ List.Forall₂ Meet op.shape op'.shape := by
  decide +kernel

/-- The opcode is one of the two shifts. -/
def Opcode.IsShift (op : Opcode) : Prop :=
  op = .arithmetic .shiftRight ∨ op = .arithmetic .shiftLeft

instance : DecidablePred Opcode.IsShift := fun op =>
  inferInstanceAs (Decidable (op = _ ∨ op = _))

/-- Every opcode shows all of its operands, apart from the shifts, which show the first. -/
lemma Opcode.shows (op : Opcode) :
    (op.IsShift ∧ ∀ f, .arg f ∈ op.format.template ↔ f = .x) ∨
      (¬ op.IsShift ∧ ∀ f ∈ op.format.fields, .arg f ∈ op.format.template) := by
  by_cases hshift : op.IsShift
  · refine .inl ⟨hshift, fun f => ?_⟩
    rcases hshift with rfl | rfl <;> cases f <;> decide
  · have hall : ∀ op ∈ all, ¬ op.IsShift →
        ∀ f ∈ op.format.fields, .arg f ∈ op.format.template := by decide
    exact .inr ⟨hshift, hall op (mem_all op) hshift⟩

/-! ### Texts -/

namespace Instruction

variable {i j : Instruction}

lemma fits_shape_piece (i : Instruction) (piece : Piece) :
    List.Forall₂ Admits piece.shape (i.pieceText piece).toList := by
  cases piece with
  | lit text => exact List.forall₂_map_left_iff.2 (List.forall₂_same.2 fun _ _ => rfl)
  | arg f =>
    rw [Piece.shape, pieceText, String.toList_ofList, List.forall₂_iff_zip]
    refine ⟨by rw [List.length_replicate, Hex.length_fixed], fun hzip => ?_⟩
    obtain ⟨hplace, hdigit⟩ := List.of_mem_zip hzip
    rw [List.eq_of_mem_replicate hplace]
    exact Hex.forall_mem_fixed (fun k hk => ⟨k, hk, rfl⟩) _ _ _ hdigit

/-- **The text of an instruction has the shape of its opcode.** -/
lemma fits_shape (i : Instruction) : List.Forall₂ Admits i.opcode.shape i.text.toList := by
  rw [toList_text, Opcode.shape]
  induction i.opcode.format.template with
  | nil => exact .nil
  | cons piece template ih => exact List.rel_append (i.fits_shape_piece piece) ih

lemma opcode_eq_of_text_eq (h : i.text = j.text) : i.opcode = j.opcode := by
  by_contra hne
  -- shapes of different opcodes admit no text in common
  refine Opcode.shape_apart _ (Opcode.mem_all _) _ (Opcode.mem_all _) hne ?_
  exact meet_of_admits i.fits_shape (h ▸ j.fits_shape)

/-- Pieces that make up the same text are the same one by one, as each has the length of its
shape. -/
lemma pieceText_eq_of_flatMap_eq {template : List Piece}
    (h : (template.flatMap fun piece => (i.pieceText piece).toList) =
      template.flatMap fun piece => (j.pieceText piece).toList) :
    ∀ piece ∈ template, i.pieceText piece = j.pieceText piece := by
  induction template with
  | nil => exact fun piece hpiece => absurd hpiece List.not_mem_nil
  | cons piece template ih =>
    have hlength : (i.pieceText piece).toList.length = (j.pieceText piece).toList.length :=
      (i.fits_shape_piece piece).length_eq.symm.trans (j.fits_shape_piece piece).length_eq
    rw [List.flatMap_cons, List.flatMap_cons] at h
    obtain ⟨hfirst, hrest⟩ := List.append_inj h hlength
    exact List.forall_mem_cons.2 ⟨String.toList_injective hfirst, ih hrest⟩

/-- An operand is read back from its digits. -/
lemma pieceText_arg_eq_iff {f : Field} :
    i.pieceText (.arg f) = j.pieceText (.arg f) ↔ f.value i.word = f.value j.word := by
  have hcount : 0 < f.nibbles ∧ f.count = 16 ^ f.nibbles := by cases f <;> decide
  have hread (i : Instruction) :
      Numeral.value? 16 (i.pieceText (.arg f)).toList = some (f.value i.word).toNat := by
    rw [pieceText, String.toList_ofList, Hex.value?_fixed hcount.1, ← hcount.2,
      Nat.mod_eq_of_lt (f.value_lt i.word)]
  constructor
  · intro h
    have hvalue := hread i
    rw [h, hread j, Option.some.injEq] at hvalue
    exact (UInt16.toNat_inj.1 hvalue).symm
  · intro h
    rw [pieceText, pieceText, h]

/-- **Instructions are written alike** exactly if they have the same opcode and agree in the
operands that it shows. -/
theorem text_eq_iff : i.text = j.text ↔ i.opcode = j.opcode ∧
    ∀ f, .arg f ∈ i.opcode.format.template → f.value i.word = f.value j.word := by
  constructor
  · intro h
    have hop := opcode_eq_of_text_eq h
    refine ⟨hop, fun f hf => pieceText_arg_eq_iff.1 ?_⟩
    have hpieces := congrArg String.toList h
    rw [toList_text, toList_text, ← hop] at hpieces
    exact pieceText_eq_of_flatMap_eq hpieces _ hf
  · rintro ⟨hop, hvalues⟩
    rw [text, text, ← hop]
    refine congrArg String.join (List.map_congr_left fun piece hpiece => ?_)
    cases piece with
    | lit text => rfl
    | arg f => exact pieceText_arg_eq_iff.2 (hvalues f hpiece)

/-! ### Words -/

/-- **Instructions are written alike** exactly if they have the same word, or if they are the same
shift of the same register. -/
theorem eq_or_shift : i.text = j.text ↔ i.word = j.word ∨
    (i.opcode = j.opcode ∧ i.opcode.IsShift ∧ Field.x.value i.word = Field.x.value j.word) := by
  rw [text_eq_iff]
  constructor
  · rintro ⟨hop, hvalues⟩
    -- a text shows all the operands of its opcode, except for the second one of a shift
    rcases i.opcode.shows with ⟨hshift, hshown⟩ | ⟨-, hshown⟩
    · exact .inr ⟨hop, hshift, hvalues .x ((hshown .x).2 rfl)⟩
    · left
      have hoperands : i.operands = j.operands := by
        rw [operands, operands, ← hop]
        exact List.map_congr_left fun f hf => hvalues f (hshown f hf)
      rw [← i.assemble_operands, ← j.assemble_operands, hop, hoperands]
  · rintro (hword | ⟨hop, hshift, hx⟩)
    · rw [ext_word hword]
      exact ⟨rfl, fun _ _ => rfl⟩
    · refine ⟨hop, fun f hf => ?_⟩
      rcases i.opcode.shows with ⟨-, hshown⟩ | ⟨hno, -⟩
      · rw [(hshown f).1 hf, hx]
      · exact absurd hshift hno

end Instruction

/-! ### Cycles -/

namespace Machine

variable [RandomSource] {m : Machine} {i j : Instruction} {v w : UInt16}

/-- The machines agree in everything but the two bytes at an address. -/
structure AgreesBeside (a : Nat) (m m' : Machine) : Prop where
  rest : m' = { m with memory := m'.memory }
  byte : ∀ b, b ≠ a → b ≠ a + 1 → m'.memory.byte b = m.memory.byte b

/-- The machine with a word stored at the program counter. -/
def planted (m : Machine) (w : UInt16) : Machine :=
  (m.edit (.writeWord m.pc.toNat w)).2

lemma planted_eq (h : m.pc.toNat ≤ 0xFFE) (w : UInt16) :
    m.planted w = { m with memory := m.memory.overwrite m.pc.toNat (Memory.bytesOf w) } := by
  have hrange : Memory.InRange m.pc.toNat (Memory.bytesOf w).length := by
    refine .inr ?_
    show m.pc.toNat + 2 ≤ 4096
    omega
  rw [planted, edit, store_of_inRange hrange]
  rfl

lemma byte_planted (h : m.pc.toNat ≤ 0xFFE) (w : UInt16) (a : Nat) :
    (m.planted w).memory.byte a =
      if m.pc.toNat ≤ a ∧ a < m.pc.toNat + 2 then (Memory.bytesOf w).getD (a - m.pc.toNat) 0
      else m.memory.byte a := by
  rw [planted_eq h]
  refine Memory.byte_overwrite _ _ _ _ ?_
  show m.pc.toNat + 2 ≤ 4096
  omega

lemma fetch_planted (h : m.pc.toNat ≤ 0xFFE) (i : Instruction) :
    (m.planted i.word).fetch = .ok i := by
  have hpc : (m.planted i.word).pc = m.pc := by rw [planted_eq h]
  rw [fetch_eq_ok_iff, hpc]
  refine ⟨?_, ?_⟩
  · show m.pc.toNat + 2 ≤ 4096
    omega
  · rw [byte_planted h, byte_planted h, if_pos (by omega), if_pos (by omega), Nat.sub_self,
      Nat.add_sub_cancel_left]
    exact Memory.wordOf_bytesOf i.word

lemma compute_memory (m : Machine) (memory : Memory) (op : Arithmetic) (x y : Fin registerCount) :
    compute { m with memory } op x y = { m.compute op x y with memory } := by
  have hflag : ∀ r, ({ m with memory } : Machine).register r = m.register r := fun _ => rfl
  rw [compute, compute]
  simp only [hflag]
  cases op.flag? (m.register x) (m.register y) <;> rfl

lemma compute_of_isShift {op : Arithmetic} (h : Opcode.IsShift (.arithmetic op)) (m : Machine)
    (x y y' : Fin registerCount) : m.compute op x y = m.compute op x y' := by
  rcases h with h | h <;> cases h <;> rfl

lemma step_planted_of_arithmetic (h : m.pc.toNat ≤ 0xFFE) {op : Arithmetic}
    (hop : i.opcode = .arithmetic op) :
    (m.planted i.word).step = (.ok .ran,
      { m.compute op i.x i.y with memory := (m.planted i.word).memory, pc := m.pc + 2 }) := by
  rw [step_of_arithmetic (fetch_planted h i) hop, planted_eq h, compute_memory]

/-- **Instructions that are written alike do the same.** -/
theorem step_of_text_eq (h : m.pc.toNat ≤ 0xFFE) (text : i.text = j.text) :
    (m.planted i.word).step.1 = (m.planted j.word).step.1 ∧
      AgreesBeside m.pc.toNat (m.planted i.word).step.2 (m.planted j.word).step.2 := by
  rcases Instruction.eq_or_shift.1 text with hword | ⟨hop, hshift, hx⟩
  · rw [hword]
    exact ⟨rfl, rfl, fun _ _ _ => rfl⟩
  · obtain ⟨op, hi⟩ : ∃ op, i.opcode = .arithmetic op := by
      rcases hshift with hshift | hshift <;> exact ⟨_, hshift⟩
    have hj : j.opcode = .arithmetic op := hop.symm.trans hi
    -- a shift has one operand, so it does not matter what the word has for the other
    have hsame : m.compute op j.x j.y = m.compute op i.x i.y := by
      have hregister : j.x = i.x := Fin.ext (congrArg UInt16.toNat hx.symm)
      rw [hregister, compute_of_isShift (hi ▸ hshift) m i.x j.y i.y]
    rw [step_planted_of_arithmetic h hi, step_planted_of_arithmetic h hj, hsame]
    refine ⟨rfl, rfl, fun a ha ha' => ?_⟩
    show (m.planted j.word).memory.byte a = (m.planted i.word).memory.byte a
    rw [byte_planted h, byte_planted h, if_neg (by omega), if_neg (by omega)]

end Machine

/-! ### Words with the same text -/

/-- Two instructions are the same shift exactly if their words are `8XY6` or `8XYE`. -/
lemma Instruction.sameShift_iff {i j : Instruction} :
    (i.opcode = j.opcode ∧ i.opcode.IsShift) ↔
      (i.word &&& 0xF00F = 0x8006 ∧ j.word &&& 0xF00F = 0x8006 ∨
        i.word &&& 0xF00F = 0x800E ∧ j.word &&& 0xF00F = 0x800E) := by
  have hright (i : Instruction) :
      i.opcode = .arithmetic .shiftRight ↔ i.word &&& 0xF00F = 0x8006 := opcode_eq_iff
  have hleft (i : Instruction) :
      i.opcode = .arithmetic .shiftLeft ↔ i.word &&& 0xF00F = 0x800E := opcode_eq_iff
  rw [← hright, ← hright, ← hleft, ← hleft]
  constructor
  · rintro ⟨hop, h | h⟩
    · exact .inl ⟨h, hop ▸ h⟩
    · exact .inr ⟨h, hop ▸ h⟩
  · rintro (⟨hi, hj⟩ | ⟨hi, hj⟩)
    · exact ⟨hi.trans hj.symm, .inl hi⟩
    · exact ⟨hi.trans hj.symm, .inr hi⟩

lemma Field.value_x_eq_iff {v w : UInt16} :
    Field.x.value v = Field.x.value w ↔ v &&& 0x0F00 = w &&& 0x0F00 := by
  constructor
  · intro h
    have hplace := congrArg Field.x.bits.place h
    rwa [place_value, place_value] at hplace
  · intro h
    exact congrArg (· >>> (8 : UInt16)) h

/-- **The text of an instruction settles what it does.** Take any machine with room for a word at
its program counter, and two words that are instructions with the same text. Whichever of them is
stored there, it is the one that the next cycle executes, the cycle reports the same or fails in the
same way, and it leaves the same machine, but for the two bytes where the words are. And two
instructions have the same text exactly if their words are the same, or if both are `8XY6` or both
are `8XYE` with the same `X`. -/
theorem text_settles_step [RandomSource] :
    (∀ (m : Machine) (v w : UInt16) (i j : Instruction), m.pc.toNat ≤ 0xFFE →
      Instruction.decode v = .ok i → Instruction.decode w = .ok j → i.text = j.text →
      let first := (m.edit (.writeWord m.pc.toNat v)).2
      let second := (m.edit (.writeWord m.pc.toNat w)).2
      first.fetch = .ok i ∧ second.fetch = .ok j ∧ first.step.1 = second.step.1 ∧
      Machine.AgreesBeside m.pc.toNat first.step.2 second.step.2) ∧
    (∀ (v w : UInt16) (i j : Instruction),
      Instruction.decode v = .ok i → Instruction.decode w = .ok j →
      (i.text = j.text ↔ v = w ∨
        (v &&& 0xF00F = 0x8006 ∧ w &&& 0xF00F = 0x8006 ∨
          v &&& 0xF00F = 0x800E ∧ w &&& 0xF00F = 0x800E) ∧
        v &&& 0x0F00 = w &&& 0x0F00)) := by
  refine ⟨fun m v w i j hpc hv hw htext => ?_, fun v w i j hv hw => ?_⟩ <;>
    obtain rfl := Instruction.decode_eq_ok_iff.1 hv <;>
    obtain rfl := Instruction.decode_eq_ok_iff.1 hw
  · exact ⟨Machine.fetch_planted hpc i, Machine.fetch_planted hpc j,
      Machine.step_of_text_eq hpc htext⟩
  · rw [Instruction.eq_or_shift, ← and_assoc, Instruction.sameShift_iff, Field.value_x_eq_iff]

/-- A machine at the last place of memory where a word has room. -/
def brink : Machine :=
  { Machine.blank (some 7) (.ofSeed 7) with pc := 0xFFE }.setRegister 3 0x85

/-- The instruction `SHR V3`, with another register in its word. -/
def halving : Instruction :=
  ⟨.arithmetic .shiftRight, 0x83A6, by decide⟩

/-- The same with yet another one. -/
def halvingToo : Instruction :=
  ⟨.arithmetic .shiftRight, 0x8316, by decide⟩

/-- The machine with a word at that place. -/
def brinkWith (w : UInt16) : Machine :=
  (brink.edit (.writeWord brink.pc.toNat w)).2

/-- Both words are written `SHR V3`, and both halve the register and set the flag. A shift the
other way is written in another way. -/
theorem text_settles_step_halving :
    halving.text = halvingToo.text ∧
    (brinkWith 0x83A6).fetch = .ok halving ∧ (brinkWith 0x8316).fetch = .ok halvingToo ∧
    (brinkWith 0x83A6).step.1 = .ok .ran ∧ (brinkWith 0x8316).step.1 = .ok .ran ∧
    (brinkWith 0x83A6).step.2.register 3 = 0x42 ∧
    (brinkWith 0x83A6).step.2.register flagRegister = 1 ∧
    Machine.AgreesBeside brink.pc.toNat (brinkWith 0x83A6).step.2 (brinkWith 0x8316).step.2 ∧
    halving.text ≠ Instruction.text ⟨.arithmetic .shiftLeft, 0x83AE, by decide⟩ := by
  obtain ⟨hstep, htext⟩ := text_settles_step
  have hhalving : Instruction.decode 0x83A6 = .ok halving := Instruction.decode_eq_ok_iff.2 rfl
  have htoo : Instruction.decode 0x8316 = .ok halvingToo := Instruction.decode_eq_ok_iff.2 rfl
  have halike : halving.text = halvingToo.text :=
    (htext _ _ _ _ hhalving htoo).2 (.inr (by decide))
  obtain ⟨hfirst, hsecond, hreport, hleft⟩ :=
    hstep brink _ _ _ _ (by decide) hhalving htoo halike
  obtain ⟨hran, hhalf, hflag⟩ :
      (brinkWith 0x83A6).step.1 = .ok .ran ∧ (brinkWith 0x83A6).step.2.register 3 = 0x42 ∧
      (brinkWith 0x83A6).step.2.register flagRegister = 1 := by
    decide +kernel
  refine ⟨halike, hfirst, hsecond, hran, hreport.symm.trans hran, hhalf, hflag, hleft,
    fun h => ?_⟩
  have hword := (htext _ _ _ _ hhalving (Instruction.decode_eq_ok_iff.2 rfl)).1 h
  exact absurd hword (by decide)

end Chip8
