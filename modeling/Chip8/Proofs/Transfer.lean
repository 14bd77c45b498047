import Chip8.Host.Random
import Chip8.Proofs.Computation
import Chip8.Proofs.Rules
import Chip8.Proofs.Sprites

/-!
Transfers from the index on.

Four instructions move bytes that lie from the index on: registers are stored and fetched, a
register is stored in decimal, and a sprite is drawn. What they move is what the machine had before
the cycle: a sprite is drawn where the registers said, also if one of them is the flag register, and
registers that were stored come back whatever has become of them. None of them moves the index. What
is stored may be the next instruction, which is then the one that is fetched.

* `indexed`, `registersTo`: the bytes that are moved;
* `Stores`, `Fetches`, `Draws`: what a cycle leaves that moves them, each with its step lemma;
* `indexed_of_stores`, `store_of_fetched`: registers there and back, and back and there;
* `transfers_exact`: the four instructions.
-/

namespace Chip8

namespace Machine

section Source

variable [RandomSource] {m m' : Machine} {i : Instruction} {x : Fin registerCount}
  {data : List UInt8}

/-! ### The bytes that are moved -/

/-- The bytes from the index on. -/
def indexed (m : Machine) (count : Nat) : List UInt8 :=
  List.ofFn fun k : Fin count => m.memory.byte (m.index.toNat + k)

/-- The registers up to one of them, in their order. -/
def registersTo (m : Machine) (x : Fin registerCount) : List UInt8 :=
  List.ofFn fun r : Fin (x.val + 1) => m.register (r.castLE x.isLt)

@[simp] lemma length_indexed (m : Machine) (count : Nat) : (m.indexed count).length = count :=
  List.length_ofFn

@[simp] lemma length_registersTo (m : Machine) (x : Fin registerCount) :
    (m.registersTo x).length = x.val + 1 :=
  List.length_ofFn

lemma getElem_indexed {count k : Nat} (h : k < (m.indexed count).length) :
    (m.indexed count)[k] = m.memory.byte (m.index.toNat + k) :=
  List.getElem_ofFn h

lemma getElem_registersTo {k : Nat} (h : k < (m.registersTo x).length) (hk : k < registerCount) :
    (m.registersTo x)[k] = m.register ⟨k, hk⟩ :=
  List.getElem_ofFn h

lemma registersTo_congr (h : m'.registers = m.registers) : m'.registersTo x = m.registersTo x := by
  simp only [registersTo, Processor.register, h]

lemma firstRegisters_eq (m : Machine) (x : Fin registerCount) :
    m.firstRegisters (x.val + 1) = m.registersTo x := by
  apply List.ext_getElem
  · rw [length_firstRegisters, length_registersTo]
  · intro k hk hk'
    have hcount : k < registerCount := by
      rw [length_registersTo] at hk'
      omega
    rw [getElem_registersTo hk' hcount]
    simp [firstRegisters, Processor.register]

lemma slice_eq_indexed {count : Nat} (h : Memory.InRange m.index.toNat count) :
    m.memory.slice m.index.toNat count = .ok (m.indexed count) :=
  Memory.slice_eq_ok_iff.2 ⟨h, rfl⟩

/-! ### Stores -/

/-- The byte at an address after a run of bytes was stored from the index on. -/
def overwritten (m : Machine) (data : List UInt8) (a : Nat) : UInt8 :=
  if m.index.toNat ≤ a ∧ a < m.index.toNat + data.length then data.getD (a - m.index.toNat) 0
  else m.memory.byte a

/-- What a cycle leaves that stores a run of bytes: these bytes from the index on, and everything
else as it was. The instruction that follows is that of the word behind this one after the store, if
there is such a word. -/
structure Stores (m : Machine) (data : List UInt8) (m' : Machine) : Prop where
  byte : ∀ a, m'.memory.byte a = m.overwritten data a
  frame : m' = { m with memory := m'.memory, pc := m.pc + 2 }
  next : m'.pc.toNat = m.pc.toNat + 2
  fetch : m'.fetch =
    if m.pc.toNat + 4 ≤ memorySize then
      Instruction.decode (Memory.wordOf
        (m.overwritten data (m.pc.toNat + 2)) (m.overwritten data (m.pc.toNat + 3)))
    else .error (.outOfMemory (m.pc.toNat + 2) 2)

lemma byte_overwrite_index (h : Memory.InRange m.index.toNat data.length) (a : Nat) :
    (m.memory.overwrite m.index.toNat data).byte a = m.overwritten data a := by
  rw [overwritten]
  rcases h with hempty | hfits
  · obtain rfl := List.length_eq_zero_iff.1 hempty
    rw [if_neg (by simp)]
    rfl
  · exact Memory.byte_overwrite _ _ _ _ hfits

/-- **A cycle that stores a run of bytes** within memory succeeds, and it stores them. -/
theorem stores_step (hf : m.fetch = .ok i)
    (hx : m.execute i = thenNext (m.store m.index.toNat data))
    (h : Memory.InRange m.index.toNat data.length) :
    m.step.1 = .ok (.of i.opcode .next) ∧ m.Stores data m.step.2 := by
  have hbyte := byte_overwrite_index h
  have hnext := toNat_pc_add_two hf
  have hmotion : m.execute i =
      (.ok .next, { m with memory := m.memory.overwrite m.index.toNat data }) := by
    rw [hx, store_of_inRange h]
    rfl
  rw [step_of_execute hf hmotion]
  refine ⟨rfl, hbyte, rfl, hnext, ?_⟩
  -- the next fetch reads the memory that the store has left
  rw [fetch_eq, word]
  show (if (m.pc + 2).toNat + 2 ≤ memorySize then
      Instruction.decode (Memory.wordOf
        ((m.memory.overwrite m.index.toNat data).byte (m.pc + 2).toNat)
        ((m.memory.overwrite m.index.toNat data).byte ((m.pc + 2).toNat + 1)))
    else .error (.outOfMemory (m.pc + 2).toNat 2)) = _
  rw [hnext, hbyte, hbyte]

lemma stores_step_of_storeRegisters (hf : m.fetch = .ok i) (op : i.opcode = .storeRegisters)
    (h : Memory.InRange m.index.toNat (i.x.val + 1)) :
    m.step.1 = .ok .ran ∧ m.Stores (m.registersTo i.x) m.step.2 := by
  have hx : m.execute i = thenNext (m.store m.index.toNat (m.registersTo i.x)) := by
    rw [execute, op, ← firstRegisters_eq]
  have hstep := stores_step hf hx (by rwa [length_registersTo])
  rwa [op] at hstep

omit [RandomSource] in
lemma exists_decimalDigits_eq (v : UInt8) :
    ∃ hundreds tens ones : UInt8, decimalDigits v = [hundreds, tens, ones] ∧
      hundreds.toNat < 10 ∧ tens.toNat < 10 ∧ ones.toNat < 10 ∧
      100 * hundreds.toNat + 10 * tens.toNat + ones.toNat = v.toNat := by
  have hv := v.toNat_lt
  have hhundreds : (v / 100 % 10).toNat = v.toNat / 100 % 10 := by
    rw [UInt8.toNat_mod, UInt8.toNat_div]
    rfl
  have htens : (v / 10 % 10).toNat = v.toNat / 10 % 10 := by
    rw [UInt8.toNat_mod, UInt8.toNat_div]
    rfl
  have hones : (v % 10).toNat = v.toNat % 10 := UInt8.toNat_mod v 10
  exact ⟨_, _, _, rfl, by omega, by omega, by omega, by omega⟩

lemma stores_step_of_storeDecimal (hf : m.fetch = .ok i) (op : i.opcode = .storeDecimal)
    (h : Memory.InRange m.index.toNat 3) :
    m.step.1 = .ok .ran ∧ m.Stores (decimalDigits (m.register i.x)) m.step.2 := by
  have hx : m.execute i = thenNext (m.store m.index.toNat (decimalDigits (m.register i.x))) := by
    rw [execute, op]
  have hstep := stores_step hf hx h
  rwa [op] at hstep

/-! ### Fetches -/

/-- What a cycle leaves that fetches registers: the bytes from the index on in the first registers,
and everything else as it was. -/
structure Fetches (m : Machine) (x : Fin registerCount) (m' : Machine) : Prop where
  registers : m'.registersTo x = m.indexed (x.val + 1)
  rest : ∀ r, x < r → m'.register r = m.register r
  frame : m' = { m with registers := m'.registers, pc := m.pc + 2 }

lemma exists_setFirstRegisters_eq (m : Machine) (values : List UInt8) :
    ∃ registers, m.setFirstRegisters values = { m with registers } :=
  ⟨_, rfl⟩

lemma register_setFirstRegisters (m : Machine) (values : List UInt8) (r : Fin registerCount) :
    (m.setFirstRegisters values).register r = values.getD r.val (m.register r) := by
  simp [setFirstRegisters, Processor.register]

lemma registersTo_setFirstRegisters {values : List UInt8} (h : values.length = x.val + 1) :
    (m.setFirstRegisters values).registersTo x = values := by
  apply List.ext_getElem
  · rw [length_registersTo, h]
  · intro k hk hk'
    have hcount : k < registerCount := by omega
    rw [getElem_registersTo hk hcount, register_setFirstRegisters, List.getD_eq_getElem _ _ hk']

/-- **A cycle that fetches registers** from within memory succeeds, and it fetches them. -/
theorem fetches_step (hf : m.fetch = .ok i) (op : i.opcode = .fetchRegisters)
    (h : Memory.InRange m.index.toNat (i.x.val + 1)) :
    m.step.1 = .ok .ran ∧ m.Fetches i.x m.step.2 := by
  have hlength := length_indexed m (i.x.val + 1)
  have hx : m.execute i = (.ok .next, m.setFirstRegisters (m.indexed (i.x.val + 1))) := by
    rw [execute, op, slice_eq_indexed h]
  obtain ⟨registers, hset⟩ := exists_setFirstRegisters_eq m (m.indexed (i.x.val + 1))
  rw [step_of_execute hf hx, op]
  refine ⟨rfl, (registersTo_congr rfl).trans (registersTo_setFirstRegisters hlength), ?_, ?_⟩
  · intro r hr
    refine register_setFirstRegisters_of_le m ?_
    rw [hlength]
    exact hr
  · rw [hset]
    rfl

/-! ### There and back -/

/-- **What was stored lies from the index on.** -/
theorem indexed_of_stores (stores : m.Stores data m') : m'.indexed data.length = data := by
  have hindex : m'.index = m.index := by rw [stores.frame]
  apply List.ext_getElem
  · rw [length_indexed]
  · intro k hk hk'
    calc (m'.indexed data.length)[k]
        = m'.memory.byte (m'.index.toNat + k) := getElem_indexed hk
      _ = m.overwritten data (m.index.toNat + k) := by rw [stores.byte, hindex]
      _ = data.getD k 0 := by
        rw [overwritten, if_pos (by omega), Nat.add_sub_cancel_left]
      _ = data[k] := List.getD_eq_getElem _ _ hk'

lemma indexed_congr {later : Machine} {count : Nat} (hindex : later.index = m.index)
    (hbytes : ∀ k < count, later.memory.byte (m.index.toNat + k) =
      m.memory.byte (m.index.toNat + k)) :
    later.indexed count = m.indexed count := by
  apply List.ext_getElem
  · rw [length_indexed, length_indexed]
  · intro k hk hk'
    rw [getElem_indexed hk, getElem_indexed hk', hindex]
    rw [length_indexed] at hk
    exact hbytes k hk

/-- **Bytes that were fetched go back** to where they are. -/
theorem store_of_fetched (fetches : m.Fetches x m') (a : Nat) :
    m'.overwritten (m'.registersTo x) a = m.memory.byte a := by
  have hindex : m'.index = m.index := by rw [fetches.frame]
  have hmemory : m'.memory = m.memory := by rw [fetches.frame]
  rw [overwritten, fetches.registers, length_indexed, hindex, hmemory]
  split_ifs with h
  · have hk : a - m.index.toNat < (m.indexed (x.val + 1)).length := by
      rw [length_indexed]
      omega
    rw [List.getD_eq_getElem _ _ hk, getElem_indexed hk, Nat.add_sub_cancel' h.1]
  · rfl

/-! ### Sprites -/

/-- What a cycle leaves that draws a sprite: the screen with the rows from the index on, drawn where
the registers said; the flag register, which tells whether a pixel that was lit is dark now; and
everything else as it was. -/
structure Draws (m : Machine) (i : Instruction) (m' : Machine) : Prop where
  screen : m'.screen =
    (m.screen.draw (m.register i.x).toNat (m.register i.y).toNat (m.indexed i.n)).1
  flag : (m'.register flagRegister).toNat =
    if (m.screen.draw (m.register i.x).toNat (m.register i.y).toNat (m.indexed i.n)).2 then 1 else 0
  erased :
    (m.screen.draw (m.register i.x).toNat (m.register i.y).toNat (m.indexed i.n)).2 = true ↔
      ∃ c, m.screen.lit c = true ∧ m'.screen.lit c = false
  rest : ∀ r, r ≠ flagRegister → m'.register r = m.register r
  frame : m' = { m with screen := m'.screen, registers := m'.registers, pc := m.pc + 2 }

/-- **A cycle that draws a sprite** from within memory succeeds, and it draws it. -/
theorem draws_step (hf : m.fetch = .ok i) (op : i.opcode = .drawSprite)
    (h : Memory.InRange m.index.toNat i.n) :
    m.step.1 = .ok .drew ∧ m.Draws i m.step.2 := by
  have hx : m.execute i =
      (.ok .next, m.drawn (m.register i.x) (m.register i.y) (m.indexed i.n)) := by
    rw [execute, op, slice_eq_indexed h]
  -- sprites of instructions are low enough not to meet themselves again
  have hlow : (m.indexed i.n).length ≤ screenHeight := by
    have hn := i.n_lt
    rw [length_indexed]
    show i.n ≤ 32
    omega
  have hflag (r : Fin registerCount) :
      (m.drawn (m.register i.x) (m.register i.y) (m.indexed i.n)).register r =
        if r = flagRegister then
          Chip8.flag ((m.screen.draw (m.register i.x).toNat (m.register i.y).toNat
            (m.indexed i.n)).2 = true)
        else m.register r :=
    register_setRegister _ flagRegister _ r
  rw [step_of_execute hf hx, op]
  refine ⟨rfl, rfl, ?_, Screen.draw_erases_iff_went_out hlow, ?_, rfl⟩
  · show ((m.drawn _ _ _).register flagRegister).toNat = _
    rw [hflag, if_pos rfl, toNat_flag]
  · intro r hr
    show (m.drawn _ _ _).register r = _
    rw [hflag, if_neg hr]

/-! ### The four instructions -/

/-- **Transfers from the index on are exact**, as long as they stay within memory. Registers are
stored in their order, and fetched in their order. Those that were stored come back whatever was
done in between, if the index and the bytes are as the store left them; and those that were fetched
go back without a change. The digits of a decimal make up the register. A sprite has the rows from
the index on, is drawn where the registers said before its flag was set, and its flag tells whether
it put a pixel out. The instruction behind a store is fetched as it was stored. No transfer moves
the index. -/
theorem transfers_exact (m : Machine) (i : Instruction) (hf : m.fetch = .ok i) :
    (i.opcode = .storeRegisters → Memory.InRange m.index.toNat (i.x.val + 1) →
      m.step.1 = .ok .ran ∧ m.Stores (m.registersTo i.x) m.step.2 ∧
      ∀ (later : Machine) (j : Instruction), later.index = m.step.2.index →
        (∀ k < i.x.val + 1, later.memory.byte (m.step.2.index.toNat + k) =
          m.step.2.memory.byte (m.step.2.index.toNat + k)) →
        later.fetch = .ok j → j.opcode = .fetchRegisters → j.x = i.x →
        later.step.1 = .ok .ran ∧ later.step.2.registersTo i.x = m.registersTo i.x) ∧
    (i.opcode = .fetchRegisters → Memory.InRange m.index.toNat (i.x.val + 1) →
      m.step.1 = .ok .ran ∧ m.Fetches i.x m.step.2 ∧
      ∀ j : Instruction, m.step.2.fetch = .ok j → j.opcode = .storeRegisters → j.x = i.x →
        m.step.2.step.1 = .ok .ran ∧ m.step.2.step.2.memory = m.memory) ∧
    (i.opcode = .storeDecimal → Memory.InRange m.index.toNat 3 →
      m.step.1 = .ok .ran ∧
      ∃ hundreds tens ones : UInt8, m.Stores [hundreds, tens, ones] m.step.2 ∧
        hundreds.toNat < 10 ∧ tens.toNat < 10 ∧ ones.toNat < 10 ∧
        100 * hundreds.toNat + 10 * tens.toNat + ones.toNat = (m.register i.x).toNat) ∧
    (i.opcode = .drawSprite → Memory.InRange m.index.toNat i.n →
      m.step.1 = .ok .drew ∧ m.Draws i m.step.2) ∧
    (i.opcode = .storeRegisters ∨ i.opcode = .fetchRegisters ∨ i.opcode = .storeDecimal ∨
      i.opcode = .drawSprite → m.step.2.index = m.index) := by
  refine ⟨?_, ?_, ?_, draws_step hf, ?_⟩
  · intro op hrange
    obtain ⟨hran, stores⟩ := stores_step_of_storeRegisters hf op hrange
    refine ⟨hran, stores, ?_⟩
    intro later j hindex hbytes hj opj hx
    -- nothing else of the later machine counts
    have hlater : Memory.InRange later.index.toNat (j.x.val + 1) := by
      rw [hindex, stores.frame, hx]
      exact hrange
    obtain ⟨hback, fetches⟩ := fetches_step hj opj hlater
    have hstored := indexed_of_stores stores
    rw [length_registersTo] at hstored
    refine ⟨hback, ?_⟩
    calc later.step.2.registersTo i.x
        = later.indexed (i.x.val + 1) := hx ▸ fetches.registers
      _ = m.step.2.indexed (i.x.val + 1) := indexed_congr hindex hbytes
      _ = m.registersTo i.x := hstored
  · intro op hrange
    obtain ⟨hran, fetches⟩ := fetches_step hf op hrange
    refine ⟨hran, fetches, ?_⟩
    intro j hj opj hx
    have hagain : Memory.InRange m.step.2.index.toNat (j.x.val + 1) := by
      rw [fetches.frame, hx]
      exact hrange
    obtain ⟨hback, stores⟩ := stores_step_of_storeRegisters hj opj hagain
    refine ⟨hback, Memory.ext_byte ?_⟩
    intro a _
    rw [stores.byte, hx, store_of_fetched fetches]
  · intro op hrange
    obtain ⟨hundreds, tens, ones, hdigits, hh, ht, ho, hvalue⟩ :=
      exists_decimalDigits_eq (m.register i.x)
    obtain ⟨hran, stores⟩ := stores_step_of_storeDecimal hf op hrange
    exact ⟨hran, hundreds, tens, ones, hdigits ▸ stores, hh, ht, ho, hvalue⟩
  · intro op
    have keeps := (execute_keeps m i).index
    obtain ⟨pc, hstep⟩ := exists_perform_eq m i
    rw [step_of_fetch hf, hstep]
    rcases op with op | op | op | op <;> exact keeps (by simp [op]) (by simp [op]) (by simp [op])

end Source

/-- A program that stores two registers over the next instruction, which changes the first of them;
fetches and stores both again; stores the second in decimal, over the same place; and draws a sprite
of its three digits where the flag register says. -/
def ferrying : List UInt8 :=
  [0x60, 0x60, 0x61, 0x2A, 0xA0, 0x08, 0xF1, 0x55, 0x00, 0x00, 0xF1, 0x65, 0xF1, 0x55, 0xF1, 0x33,
    0xDF, 0xF3]

/-- The machine that runs it. -/
def ferry (cycles : Nat) : Machine :=
  running ferrying cycles

/-- What is fetched next are the registers that were stored, as the instruction `602A`. That changes
a register, which comes back. Stored again they change nothing. The digits of 42 make up 42, and of
their rows the second lights its sixth pixel, without a collision. -/
theorem transfers_exact_ferry :
    (ferry 3).step.2.fetch = Instruction.decode 0x602A ∧
    (ferry 5).registersTo 1 = [0x2A, 0x2A] ∧
    (ferry 5).step.2.registersTo 1 = (ferry 3).registersTo 1 ∧
    (ferry 5).step.2.step.2.memory = (ferry 5).memory ∧
    (∃ hundreds tens ones : UInt8, (ferry 7).Stores [hundreds, tens, ones] (ferry 7).step.2 ∧
      100 * hundreds.toNat + 10 * tens.toNat + ones.toNat = 42) ∧
    (ferry 8).step.2.screen.pixel 5 1 = true ∧
    ((ferry 8).step.2.register flagRegister).toNat = 0 ∧
    (ferry 8).step.2.index = (ferry 8).index := by
  obtain ⟨hstore, hfetch, hagain, hdecimal, hdraw⟩ :
      (ferry 3).fetch = .ok ⟨.storeRegisters, 0xF155, by decide⟩ ∧
      (ferry 5).fetch = .ok ⟨.fetchRegisters, 0xF165, by decide⟩ ∧
      (ferry 5).step.2.fetch = .ok ⟨.storeRegisters, 0xF155, by decide⟩ ∧
      (ferry 7).fetch = .ok ⟨.storeDecimal, 0xF133, by decide⟩ ∧
      (ferry 8).fetch = .ok ⟨.drawSprite, 0xDFF3, by decide⟩ := by
    decide +kernel
  obtain ⟨hindex₃, hindex₅, hindex₇, hindex₈, hkept, hbytes, hchanged⟩ :
      (ferry 3).index = 8 ∧ (ferry 5).index = 8 ∧ (ferry 7).index = 8 ∧ (ferry 8).index = 8 ∧
      (ferry 5).index = (ferry 3).step.2.index ∧
      (∀ k < 2, (ferry 5).memory.byte ((ferry 3).step.2.index.toNat + k) =
        (ferry 3).step.2.memory.byte ((ferry 3).step.2.index.toNat + k)) ∧
      (ferry 5).registersTo 1 = [0x2A, 0x2A] := by
    decide +kernel
  have hrange {count : Nat} (h : count ≤ 16) : Memory.InRange (8 : UInt16).toNat count := by
    refine .inr ?_
    show 8 + count ≤ 4096
    omega
  obtain ⟨-, stores, hback⟩ := (transfers_exact _ _ hstore).1 rfl (hindex₃ ▸ hrange (by decide))
  obtain ⟨-, -, hforth⟩ := (transfers_exact _ _ hfetch).2.1 rfl (hindex₅ ▸ hrange (by decide))
  obtain ⟨-, hundreds, tens, ones, digits, -, -, -, hvalue⟩ :=
    (transfers_exact _ _ hdecimal).2.2.1 rfl (hindex₇ ▸ hrange (by decide))
  obtain ⟨hdraws, hindex⟩ := (transfers_exact _ _ hdraw).2.2.2
  obtain ⟨-, draws⟩ := hdraws rfl (hindex₈ ▸ hrange (by decide))
  refine ⟨stores.fetch.trans ?_, hchanged, (hback _ _ hkept hbytes hfetch rfl rfl).2,
    (hforth _ hagain rfl rfl).2, ⟨hundreds, tens, ones, digits, hvalue.trans ?_⟩, ?_,
    draws.flag.trans ?_, hindex (.inr (.inr (.inr rfl)))⟩
  · decide +kernel
  · decide +kernel
  · rw [draws.screen]
    decide +kernel
  · decide +kernel

end Machine

end Chip8
