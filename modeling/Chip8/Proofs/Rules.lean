import Chip8.Host.Random
import Chip8.Machine.Loading
import Chip8.Proofs.Digits
import Chip8.Proofs.Refusal

/-!
The rules that a program can break.

Whether a cycle fails, and with which fault, is told here by the word at the program counter
and its digits alone, without the instruction that it is decoded to. A word that can be fetched
and that is an instruction can still ask for three things that the machine may not have: an
address to return to, a slot for a return address, and bytes from the index on.

* `touches_iff_span`: the bytes that a word asks for;
* `step_error_iff_breaks`: a cycle fails exactly if a rule is broken;
* `step_fails_exactly`: the same fault by fault, and when a cycle succeeds.
-/

namespace Chip8

namespace Opcode

variable {word : UInt16}

/-! ### Opcodes by their digits -/

lemma matches_leave : leave.Matches word ↔ word = 0x00EE := by
  rw [matches_iff_digits, ← UInt16.toNat_inj]
  show word.toNat / 0x1000 = 0 ∧ word.toNat % 0x1000 = 0xEE ↔ word.toNat = 0xEE
  omega

lemma matches_call : call.Matches word ↔ word.toNat / 0x1000 = 2 := by
  rw [matches_iff_digits]
  show word.toNat / 0x1000 = 2 ∧ word.toNat % 1 = 0 ↔ word.toNat / 0x1000 = 2
  omega

lemma matches_drawSprite : drawSprite.Matches word ↔ word.toNat / 0x1000 = 0xD := by
  rw [matches_iff_digits]
  show word.toNat / 0x1000 = 0xD ∧ word.toNat % 1 = 0 ↔ word.toNat / 0x1000 = 0xD
  omega

lemma matches_storeDecimal :
    storeDecimal.Matches word ↔ word.toNat / 0x1000 = 0xF ∧ word.toNat % 0x100 = 0x33 :=
  matches_iff_digits storeDecimal word

lemma matches_storeRegisters :
    storeRegisters.Matches word ↔ word.toNat / 0x1000 = 0xF ∧ word.toNat % 0x100 = 0x55 :=
  matches_iff_digits storeRegisters word

lemma matches_fetchRegisters :
    fetchRegisters.Matches word ↔ word.toNat / 0x1000 = 0xF ∧ word.toNat % 0x100 = 0x65 :=
  matches_iff_digits fetchRegisters word

end Opcode

/-! ### Bytes from the index on -/

/-- The word is an instruction that reads or writes `length` bytes from the index on: the rows
of a sprite, the digits of a decimal, or registers. -/
def Touches (word : UInt16) (length : Nat) : Prop :=
  (word.toNat / 0x1000 = 0xD ∧ length = word.toNat % 0x10) ∨
  (word.toNat / 0x1000 = 0xF ∧ word.toNat % 0x100 = 0x33 ∧ length = 3) ∨
  (word.toNat / 0x1000 = 0xF ∧ (word.toNat % 0x100 = 0x55 ∨ word.toNat % 0x100 = 0x65) ∧
    length = word.toNat / 0x100 % 0x10 + 1)

lemma exists_matches_of_touches {word : UInt16} {length : Nat} (h : Touches word length) :
    ∃ op, Opcode.Matches op word := by
  rcases h with ⟨hd, -⟩ | ⟨hf, h33, -⟩ | ⟨hf, h55 | h65, -⟩
  · exact ⟨_, Opcode.matches_drawSprite.2 hd⟩
  · exact ⟨_, Opcode.matches_storeDecimal.2 ⟨hf, h33⟩⟩
  · exact ⟨_, Opcode.matches_storeRegisters.2 ⟨hf, h55⟩⟩
  · exact ⟨_, Opcode.matches_fetchRegisters.2 ⟨hf, h65⟩⟩

/-- The bytes that a word asks for are the span of its instruction. -/
lemma touches_iff_span {i : Instruction} {length : Nat} (h : 0 < length) :
    Touches i.word length ↔ i.span = length := by
  have hn : i.n = i.word.toNat % 0x10 := by
    rw [Instruction.n, Field.toNat_value]
    show i.word.toNat / 1 % 16 = _
    rw [Nat.div_one]
  have hx : i.x.val = i.word.toNat / 0x100 % 0x10 := Field.toNat_value .x i.word
  constructor
  · rintro (⟨hd, rfl⟩ | ⟨hf, h33, rfl⟩ | ⟨hf, h55 | h65, rfl⟩)
    · have op := Instruction.opcode_eq_iff.2 (Opcode.matches_drawSprite.2 hd)
      rw [Instruction.span, op, hn]
    · have op := Instruction.opcode_eq_iff.2 (Opcode.matches_storeDecimal.2 ⟨hf, h33⟩)
      rw [Instruction.span, op]
    · have op := Instruction.opcode_eq_iff.2 (Opcode.matches_storeRegisters.2 ⟨hf, h55⟩)
      rw [Instruction.span, op, hx]
    · have op := Instruction.opcode_eq_iff.2 (Opcode.matches_fetchRegisters.2 ⟨hf, h65⟩)
      rw [Instruction.span, op, hx]
  · -- an opcode that touches no memory has no span, against `h`
    rintro rfl
    have hword := i.word_matches
    rw [Instruction.span] at h ⊢
    cases op : i.opcode
    all_goals rw [op] at hword
    case drawSprite => exact .inl ⟨Opcode.matches_drawSprite.1 hword, hn⟩
    case storeDecimal =>
      obtain ⟨hf, h33⟩ := Opcode.matches_storeDecimal.1 hword
      exact .inr (.inl ⟨hf, h33, rfl⟩)
    case storeRegisters =>
      obtain ⟨hf, h55⟩ := Opcode.matches_storeRegisters.1 hword
      exact .inr (.inr ⟨hf, .inl h55, congrArg (· + 1) hx⟩)
    case fetchRegisters =>
      obtain ⟨hf, h65⟩ := Opcode.matches_fetchRegisters.1 hword
      exact .inr (.inr ⟨hf, .inr h65, congrArg (· + 1) hx⟩)
    all_goals simp [op] at h

namespace Machine

section Source

variable [RandomSource] {m : Machine} {f : Fault}

/-! ### Broken rules -/

/-- The word at the program counter. -/
def word (m : Machine) : UInt16 :=
  Memory.wordOf (m.memory.byte m.pc.toNat) (m.memory.byte (m.pc.toNat + 1))

/-- The rules that a program breaks, each with its fault. -/
inductive Breaks (m : Machine) : Fault → Prop where
  /-- There is no word at the program counter. -/
  | fetch (beyond : 0xFFE < m.pc.toNat) : Breaks m (.outOfMemory m.pc.toNat 2)
  /-- The word there belongs to no opcode. -/
  | decode (within : m.pc.toNat ≤ 0xFFE) (unknown : ∀ op ∈ Opcode.all, ¬ op.Matches m.word) :
      Breaks m (.unknownWord m.word)
  /-- A return without an address to return to. -/
  | leave (within : m.pc.toNat ≤ 0xFFE) (word : m.word = 0x00EE) (empty : m.stack.depth = 0) :
      Breaks m .stackUnderflow
  /-- A call without a slot for the address behind it. -/
  | call (within : m.pc.toNat ≤ 0xFFE) (word : m.word.toNat / 0x1000 = 2)
      (full : m.stack.depth = 16) : Breaks m .stackOverflow
  /-- An access to bytes past the end of memory. -/
  | reach (within : m.pc.toNat ≤ 0xFFE) {length : Nat} (touches : Touches m.word length)
      (nonempty : 0 < length) (beyond : 0x1000 < m.index.toNat + length) :
      Breaks m (.outOfMemory m.index.toNat length)

lemma fetch_eq (m : Machine) :
    m.fetch =
      if m.pc.toNat + 2 ≤ memorySize then Instruction.decode m.word
      else .error (.outOfMemory m.pc.toNat 2) := by
  rw [fetch]
  split_ifs with h
  · rw [Memory.readWord_eq_ok_iff.2 ⟨h, rfl⟩]
    rfl
  · rw [Memory.readWord_eq_error_iff.2 ⟨Nat.not_le.1 h, rfl⟩]

lemma fetch_eq_ok_iff_word {i : Instruction} :
    m.fetch = .ok i ↔ m.pc.toNat ≤ 0xFFE ∧ i.word = m.word := by
  rw [fetch_eq_ok_iff, eq_comm (a := i.word)]
  show m.pc.toNat + 2 ≤ 4096 ∧ m.word = i.word ↔ _
  refine and_congr_left fun _ => ?_
  omega

lemma fetch_eq_error_iff :
    m.fetch = .error f ↔
      (0xFFE < m.pc.toNat ∧ f = .outOfMemory m.pc.toNat 2) ∨
      (m.pc.toNat ≤ 0xFFE ∧ f = .unknownWord m.word ∧
        ∀ op ∈ Opcode.all, ¬ op.Matches m.word) := by
  have hall : (∀ op ∈ Opcode.all, ¬ op.Matches m.word) ↔ ∀ op, ¬ Opcode.Matches op m.word :=
    ⟨fun h op => h op (Opcode.mem_all op), fun h op _ => h op⟩
  rw [fetch, hall, ← Instruction.decode_eq_error_iff]
  rcases Nat.lt_or_ge 0xFFE m.pc.toNat with hpc | hpc
  · have hread : m.memory.readWord m.pc.toNat = .error (.outOfMemory m.pc.toNat 2) :=
      Memory.readWord_eq_error_iff.2 ⟨by show 4096 < _; omega, rfl⟩
    rw [hread]
    simp [hpc, Nat.not_le.2 hpc, eq_comm]
  · have hread : m.memory.readWord m.pc.toNat = .ok m.word :=
      Memory.readWord_eq_ok_iff.2 ⟨by show _ ≤ 4096; omega, rfl⟩
    rw [hread]
    simp [hpc, Nat.not_lt.2 hpc]

/-- **A cycle fails exactly if a rule is broken**, and with the fault of that rule. -/
theorem step_error_iff_breaks : m.step.1 = .error f ↔ m.Breaks f := by
  rw [step_error_iff]
  constructor
  · rintro (hfetch | ⟨i, hfetch, hrefused⟩)
    · rcases fetch_eq_error_iff.1 hfetch with ⟨hpc, rfl⟩ | ⟨hpc, rfl, hnone⟩
      · exact .fetch hpc
      · exact .decode hpc hnone
    · -- the opcode of an instruction is read off its word
      obtain ⟨hpc, hword⟩ := fetch_eq_ok_iff_word.1 hfetch
      cases hrefused with
      | leave op empty =>
        have hleave := Opcode.matches_leave.1 (Instruction.opcode_eq_iff.1 op)
        exact .leave hpc (hword ▸ hleave) empty
      | call op full =>
        have hcall := Opcode.matches_call.1 (Instruction.opcode_eq_iff.1 op)
        exact .call hpc (hword ▸ hcall) full
      | reach beyond =>
        rw [Memory.inRange_iff, not_or, Nat.not_le] at beyond
        obtain ⟨hsome, hbeyond⟩ := beyond
        have hpos : 0 < i.span := Nat.pos_of_ne_zero hsome
        exact .reach hpc (hword ▸ (touches_iff_span hpos).2 rfl) hpos hbeyond
  · -- a rule that an instruction breaks is broken by the instruction of the word
    have decoded (hpc : m.pc.toNat ≤ 0xFFE) {op : Opcode} (h : op.Matches m.word) :
        m.fetch = .ok ⟨op, m.word, h⟩ := fetch_eq_ok_iff_word.2 ⟨hpc, rfl⟩
    intro h
    cases h with
    | fetch hpc => exact .inl (fetch_eq_error_iff.2 (.inl ⟨hpc, rfl⟩))
    | decode hpc hnone => exact .inl (fetch_eq_error_iff.2 (.inr ⟨hpc, rfl, hnone⟩))
    | leave hpc hword empty =>
      exact .inr ⟨_, decoded hpc (Opcode.matches_leave.2 hword), .leave rfl empty⟩
    | call hpc hword full =>
      exact .inr ⟨_, decoded hpc (Opcode.matches_call.2 hword), .call rfl full⟩
    | @reach hpc length touches hpos beyond =>
      obtain ⟨op, hop⟩ := exists_matches_of_touches touches
      have hspan : Instruction.span ⟨op, m.word, hop⟩ = length := (touches_iff_span hpos).1 touches
      have hout : ¬ Memory.InRange m.index.toNat length := by
        rw [Memory.inRange_iff, not_or, Nat.not_le]
        exact ⟨Nat.ne_of_gt hpos, beyond⟩
      refine .inr ⟨_, decoded hpc hop, ?_⟩
      rw [← hspan] at hout ⊢
      exact .reach hout

lemma step_ok_iff : (∃ signal, m.step.1 = .ok signal) ↔ ∀ f, ¬ m.Breaks f := by
  simp only [← step_error_iff_breaks]
  cases m.step.1 with
  | ok signal => simp
  | error f => simp

/-! ### Fault by fault -/

/-- An access past the end of memory is that of the fetch or one from the index on. -/
lemma breaks_outOfMemory_iff {a length : Nat} :
    m.Breaks (.outOfMemory a length) ↔
      (0xFFE < m.pc.toNat ∧ a = m.pc.toNat ∧ length = 2) ∨
      (m.pc.toNat ≤ 0xFFE ∧ a = m.index.toNat ∧ Touches m.word length ∧ 0 < length ∧
        0x1000 < m.index.toNat + length) := by
  constructor
  · intro h
    cases h with
    | fetch hpc => exact .inl ⟨hpc, rfl, rfl⟩
    | reach hpc touches hpos beyond => exact .inr ⟨hpc, rfl, touches, hpos, beyond⟩
  · rintro (⟨hpc, rfl, rfl⟩ | ⟨hpc, rfl, touches, hpos, beyond⟩)
    · exact .fetch hpc
    · exact .reach hpc touches hpos beyond

/-- No rule is broken by a word that can be fetched, that is an instruction, and that asks for
nothing the machine does not have. -/
lemma unbroken_iff :
    (∀ f, ¬ m.Breaks f) ↔
      m.pc.toNat ≤ 0xFFE ∧ (∃ op ∈ Opcode.all, op.Matches m.word) ∧
      ¬ (m.word = 0x00EE ∧ m.stack.depth = 0) ∧
      ¬ (m.word.toNat / 0x1000 = 2 ∧ m.stack.depth = 16) ∧
      ∀ length, Touches m.word length → length = 0 ∨ m.index.toNat + length ≤ 0x1000 := by
  constructor
  · intro h
    have hpc : m.pc.toNat ≤ 0xFFE := by
      by_contra hpc
      exact h _ (.fetch (Nat.not_le.1 hpc))
    refine ⟨hpc, ?_, ?_, ?_, ?_⟩
    · by_contra hnone
      refine h _ (.decode hpc fun op hop hmatch => ?_)
      exact hnone ⟨op, hop, hmatch⟩
    · rintro ⟨hword, hempty⟩
      exact h _ (.leave hpc hword hempty)
    · rintro ⟨hword, hfull⟩
      exact h _ (.call hpc hword hfull)
    · -- the rule about memory asks for at least one byte, so the length is not zero here
      intro length touches
      by_contra hout
      have hpos : 0 < length := by omega
      exact h _ (.reach hpc touches hpos (by omega))
  · rintro ⟨hpc, ⟨op, hop, hmatch⟩, hleave, hcall, hreach⟩ f h
    cases h with
    | fetch beyond => omega
    | decode _ hnone => exact hnone op hop hmatch
    | leave _ hword hempty => exact hleave ⟨hword, hempty⟩
    | call _ hword hfull => exact hcall ⟨hword, hfull⟩
    | reach _ touches hpos beyond =>
      have := hreach _ touches
      omega

/-- A word that draws no rows asks for no bytes, whatever the index. -/
lemma unbroken_of_noRows (hpc : m.pc.toNat ≤ 0xFFE) (draws : m.word.toNat / 0x1000 = 0xD)
    (noRows : m.word.toNat % 0x10 = 0) : ∀ f, ¬ m.Breaks f := by
  rw [unbroken_iff]
  refine ⟨hpc, ⟨.drawSprite, Opcode.mem_all _, Opcode.matches_drawSprite.2 draws⟩, ?_, ?_, ?_⟩
  · rintro ⟨hword, -⟩
    rw [hword] at draws
    exact absurd draws (by decide)
  · rintro ⟨hword, -⟩
    omega
  · rintro length (⟨-, rfl⟩ | ⟨hf, -⟩ | ⟨hf, -⟩)
    · exact .inl noRows
    · omega
    · omega

/-- **A cycle fails exactly if the program breaks a rule, and with the fault of that rule.** The
fetch comes first, then the opcode, and then what the instruction asks for. In every other case
the cycle succeeds; so a sprite without rows is drawn wherever the index points. -/
theorem step_fails_exactly (m : Machine) :
    (m.step.1 = .error (.outOfMemory m.pc.toNat 2) ↔ 0xFFE < m.pc.toNat) ∧
    (∀ w, m.step.1 = .error (.unknownWord w) ↔
      m.pc.toNat ≤ 0xFFE ∧ w = m.word ∧ ∀ op ∈ Opcode.all, ¬ op.Matches m.word) ∧
    (m.step.1 = .error .stackUnderflow ↔
      m.pc.toNat ≤ 0xFFE ∧ m.word = 0x00EE ∧ m.stack.depth = 0) ∧
    (m.step.1 = .error .stackOverflow ↔
      m.pc.toNat ≤ 0xFFE ∧ m.word.toNat / 0x1000 = 2 ∧ m.stack.depth = 16) ∧
    (∀ a length, m.step.1 = .error (.outOfMemory a length) ↔
      (0xFFE < m.pc.toNat ∧ a = m.pc.toNat ∧ length = 2) ∨
      (m.pc.toNat ≤ 0xFFE ∧ a = m.index.toNat ∧ Touches m.word length ∧ 0 < length ∧
        0x1000 < m.index.toNat + length)) ∧
    ((∀ size, m.step.1 ≠ .error (.oversizedProgram size)) ∧ m.step.1 ≠ .error .unwritable) ∧
    ((∃ signal, m.step.1 = .ok signal) ↔
      m.pc.toNat ≤ 0xFFE ∧ (∃ op ∈ Opcode.all, op.Matches m.word) ∧
      ¬ (m.word = 0x00EE ∧ m.stack.depth = 0) ∧
      ¬ (m.word.toNat / 0x1000 = 2 ∧ m.stack.depth = 16) ∧
      ∀ length, Touches m.word length → length = 0 ∨ m.index.toNat + length ≤ 0x1000) ∧
    (m.pc.toNat ≤ 0xFFE → m.word.toNat / 0x1000 = 0xD → m.word.toNat % 0x10 = 0 →
      ∃ signal, m.step.1 = .ok signal) := by
  rw [step_ok_iff]
  simp only [Ne, step_error_iff_breaks]
  refine ⟨?_, fun w => ?_, ?_, ?_, fun a length => breaks_outOfMemory_iff, ⟨fun size => ?_, ?_⟩,
    unbroken_iff, unbroken_of_noRows⟩
  · rw [breaks_outOfMemory_iff]
    constructor
    · -- an access of two bytes at the program counter is within memory if the word there is
      rintro (⟨hpc, -⟩ | ⟨hpc, hindex, -, -, beyond⟩)
      · exact hpc
      · omega
    · exact fun hpc => .inl ⟨hpc, rfl, rfl⟩
  · constructor
    · intro h
      cases h with
      | decode hpc hnone => exact ⟨hpc, rfl, hnone⟩
    · rintro ⟨hpc, rfl, hnone⟩
      exact .decode hpc hnone
  · constructor
    · intro h
      cases h with
      | leave hpc hword hempty => exact ⟨hpc, hword, hempty⟩
    · rintro ⟨hpc, hword, hempty⟩
      exact .leave hpc hword hempty
  · constructor
    · intro h
      cases h with
      | call hpc hword hfull => exact ⟨hpc, hword, hfull⟩
    · rintro ⟨hpc, hword, hfull⟩
      exact .call hpc hword hfull
  · intro h
    cases h
  · intro h
    cases h

end Source

/-- A machine that draws a sprite without rows while its index is the largest of all. -/
def outlying : Machine :=
  { ((blank (some 7) (.ofSeed 7)).load [0xD0, 0x10]).2 with index := 0xFFFF }

/-- The sprite without rows is drawn, and the cycle behind it finds no instruction. -/
theorem step_fails_exactly_outlying :
    outlying.index = 0xFFFF ∧ (∃ signal, outlying.step.1 = .ok signal) ∧
    outlying.step.2.step.1 = .error (.unknownWord 0) := by
  obtain ⟨hpc, hdraws, hrows⟩ : outlying.pc.toNat ≤ 0xFFE ∧ outlying.word.toNat / 0x1000 = 0xD ∧
      outlying.word.toNat % 0x10 = 0 := by
    decide +kernel
  obtain ⟨-, -, -, -, -, -, -, hok⟩ := step_fails_exactly outlying
  obtain ⟨-, hunknown, -⟩ := step_fails_exactly outlying.step.2
  refine ⟨rfl, hok hpc hdraws hrows, (hunknown 0).2 ?_⟩
  decide +kernel

end Machine

end Chip8
