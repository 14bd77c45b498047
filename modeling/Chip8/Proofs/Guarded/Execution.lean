import Chip8.Machine.Execution
import Chip8.Proofs.Digits
import Chip8.Proofs.Guarded.Instruction
import Chip8.Proofs.Guarded.Screen
import Chip8.Proofs.Guarded.Storage

/-!
The instructions of the machine on a host that checks every access.

Registers are found by the operands of an instruction, the sum of a jump has to fit into a word,
and so has the address of a glyph. The computations on two registers are left to a function of
their own, which knows no other instruction.

* `compute_eq_some`: what goes to that function is a computation on two registers;
* `execute_eq_some`: no instruction makes the host break down.
-/

namespace Chip8.Guarded

/-! ### Operands, sums and coordinates -/

lemma toNat_x (i : Instruction) : (Field.x.value i.word).toNat = (i.x : Nat) := rfl

lemma toNat_y (i : Instruction) : (Field.y.value i.word).toNat = (i.y : Nat) := rfl

/-- The address of an instruction and a register make an address that fits into a word. -/
lemma sum_nnn_eq_some (i : Instruction) (v : UInt8) :
    sum wordLimit i.nnn.toNat v.toNat = some (i.nnn + v.toUInt16).toNat := by
  have hfits : i.nnn.toNat + v.toNat < wordLimit := by
    rw [← i.toNat_nnn_add]
    exact UInt16.toNat_lt _
  rw [sum_eq_some hfits, i.toNat_nnn_add]

/-- The address of a glyph fits into a word, also if the value is no digit. -/
lemma glyph_eq_some (v : UInt8) :
    ∃ offset, product wordLimit v.toNat Font.glyphHeight = some offset ∧
      sum wordLimit Font.start offset = some (Font.address v).toNat := by
  have hv : v.toNat < 256 := v.toNat_lt
  have hoffset : v.toNat * Font.glyphHeight < wordLimit := by
    show v.toNat * 5 < 65536
    omega
  have hfits : Font.start + v.toNat * Font.glyphHeight < wordLimit := by
    show 0 + v.toNat * 5 < 65536
    omega
  have haddress : (Font.address v).toNat = Font.start + v.toNat * Font.glyphHeight := by
    rw [Font.address, UInt16.toNat_add, UInt16.toNat_mul, UInt8.toNat_toUInt16]
    show (0 + v.toNat * 5 % 65536) % 65536 = 0 + v.toNat * 5
    omega
  exact ⟨_, product_eq_some hoffset, by rw [sum_eq_some hfits, haddress]⟩

/-- The index and a register make a number of two words, of which the lower one is kept. -/
lemma sum_index_eq_some (a : UInt16) (v : UInt8) :
    sum doubleLimit a.toNat v.toNat = some (a.toNat + v.toNat) ∧
      UInt16.ofNat (a.toNat + v.toNat) = a + v.toUInt16 := by
  have ha : a.toNat < 65536 := a.toNat_lt
  have hv : v.toNat < 256 := v.toNat_lt
  refine ⟨sum_eq_some (by show _ < 4294967296; omega), ?_⟩
  rw [← UInt16.toNat_inj, UInt16.toNat_add, UInt8.toNat_toUInt16, UInt16.toNat_ofNat']

/-- A sprite of a program is drawn at coordinates that the host can count to. -/
lemma sprite_fits (vx vy : UInt8) {height : Nat} (h : height ≤ registerCount) :
    ∀ c < spriteWidth, ∀ r < height, vx.toNat + c < hostLimit ∧ vy.toNat + r < hostLimit := by
  intro c hc r hr
  have hx : vx.toNat < 256 := vx.toNat_lt
  have hy : vy.toNat < 256 := vy.toNat_lt
  have hwidth : c < 8 := hc
  have hheight : height ≤ 16 := h
  exact ⟨lt_hostLimit (by omega), lt_hostLimit (by omega)⟩

/-! ### Registers and memory -/

variable [RandomSource]

/-- The value of a register. -/
def register (m : Machine) (r : Nat) : Option UInt8 :=
  m.registers[r]?

/-- Sets a register. -/
def setRegister (m : Machine) (r : Nat) (v : UInt8) : Option Machine := do
  let registers ← put m.registers r v
  some { m with registers }

/-- The machine with the memory that a store leaves, if it succeeds. -/
def stored (m : Machine) : Except Fault Memory → Except Fault Unit × Machine
  | .ok memory => (.ok (), { m with memory })
  | .error f => (.error f, m)

/-- Stores a run of bytes in the memory of the machine. -/
def store (m : Machine) (a : Nat) (data : List UInt8) :
    Option (Except Fault Unit × Machine) := do
  let r ← writeSlice m.memory a data
  some (stored m r)

variable {m : Machine} {i : Instruction}

lemma register_eq_some (m : Machine) (r : Fin registerCount) :
    register m r = some (m.register r) :=
  Vector.getElem?_eq_getElem r.isLt

lemma setRegister_eq_some (m : Machine) (r : Fin registerCount) (v : UInt8) :
    setRegister m r v = some (m.setRegister r v) := by
  rw [setRegister, put_eq_some r.isLt]
  rfl

lemma store_eq_some {a : Nat} {data : List UInt8} (h : a + data.length < hostLimit) :
    store m a data = some (m.store a data) := by
  rw [store, writeSlice_eq_some h]
  rfl

/-! ### Instructions -/

/-- A computation on two registers; other instructions are not expected here. -/
def compute (m : Machine) (i : Instruction) : Option (Except Fault Motion × Machine) := do
  let (x, y) ← operandPair i
  let vx ← register m x.toNat
  let vy ← register m y.toNat
  match i.opcode with
  | .arithmetic op =>
    let m ← setRegister m x.toNat (op.result vx vy)
    match op.flag? vx vy with
    | some f =>
      let m ← setRegister m flagRegister f
      some (.ok .next, m)
    | none => some (.ok .next, m)
  | _ => none

/-- The motion that an instruction wants, or the fault that stops it, and the machine that it
leaves. -/
def execute (m : Machine) (i : Instruction) : Option (Except Fault Motion × Machine) :=
  match i.opcode with
  | .clearScreen => some (.ok .next, { m with screen := .blank })
  | .leave => do
    match ← pop m.stack with
    | .ok (a, stack) => some (.ok (.jump a), { m with stack })
    | .error f => some (.error f, m)
  | .jump => do
    let nnn ← operand i
    some (.ok (.jump nnn), m)
  | .call => do
    let nnn ← operand i
    match ← push m.stack (m.pc + 2) with
    | .ok stack => some (.ok (.jump nnn), { m with stack })
    | .error f => some (.error f, m)
  | .skipIfByte => do
    let (x, nn) ← operandPair i
    let vx ← register m x.toNat
    some (.ok (.skipIf (vx = nn.toUInt8)), m)
  | .skipUnlessByte => do
    let (x, nn) ← operandPair i
    let vx ← register m x.toNat
    some (.ok (.skipIf (vx ≠ nn.toUInt8)), m)
  | .skipIfSame => do
    let (x, y) ← operandPair i
    let vx ← register m x.toNat
    let vy ← register m y.toNat
    some (.ok (.skipIf (vx = vy)), m)
  | .skipUnlessSame => do
    let (x, y) ← operandPair i
    let vx ← register m x.toNat
    let vy ← register m y.toNat
    some (.ok (.skipIf (vx ≠ vy)), m)
  | .setByte => do
    let (x, nn) ← operandPair i
    let m ← setRegister m x.toNat nn.toUInt8
    some (.ok .next, m)
  | .addByte => do
    let (x, nn) ← operandPair i
    let vx ← register m x.toNat
    let m ← setRegister m x.toNat (vx + nn.toUInt8)
    some (.ok .next, m)
  | .arithmetic _ => compute m i
  | .setIndex => do
    let nnn ← operand i
    some (.ok .next, { m with index := nnn })
  | .jumpFromV0 => do
    let nnn ← operand i
    let v ← register m 0
    let target ← sum wordLimit nnn.toNat v.toNat
    some (.ok (.jump (UInt16.ofNat target)), m)
  | .randomByte => do
    let (x, nn) ← operandPair i
    let (b, random) := m.random.next
    let m ← setRegister { m with random } x.toNat (b &&& nn.toUInt8)
    some (.ok .next, m)
  | .drawSprite => do
    let (x, y, n) ← operandTriple i
    let vx ← register m x.toNat
    let vy ← register m y.toNat
    match ← slice m.memory m.index.toNat n.toNat with
    | .ok rows =>
      let (screen, erased) ← draw m.screen vx.toNat vy.toNat rows
      let m ← setRegister { m with screen } flagRegister (flag erased)
      some (.ok .next, m)
    | .error f => some (.error f, m)
  | .skipIfKey => do
    let x ← operand i
    let vx ← register m x.toNat
    some (.ok (.skipIf (m.KeyIs vx)), m)
  | .skipUnlessKey => do
    let x ← operand i
    let vx ← register m x.toNat
    some (.ok (.skipIf (¬ m.KeyIs vx)), m)
  | .readDelay => do
    let x ← operand i
    let m ← setRegister m x.toNat m.timers.delay
    some (.ok .next, m)
  | .awaitKey => do
    let x ← operand i
    match m.key with
    | some k =>
      let m ← setRegister m x.toNat k.toByte
      some (.ok .next, m)
    | none => some (.ok .hold, m)
  | .startDelay => do
    let x ← operand i
    let vx ← register m x.toNat
    some (.ok .next, { m with timers.delay := vx })
  | .startSound => do
    let x ← operand i
    let vx ← register m x.toNat
    some (.ok .next, { m with timers.sound := vx })
  | .advanceIndex => do
    let x ← operand i
    let vx ← register m x.toNat
    let total ← sum doubleLimit m.index.toNat vx.toNat
    let m ← setRegister { m with index := UInt16.ofNat total } flagRegister
      (flag (lastAddress < total))
    some (.ok .next, m)
  | .locateDigit => do
    let x ← operand i
    let vx ← register m x.toNat
    let offset ← product wordLimit vx.toNat Font.glyphHeight
    let address ← sum wordLimit Font.start offset
    some (.ok .next, { m with index := UInt16.ofNat address })
  | .storeDecimal => do
    let x ← operand i
    let vx ← register m x.toNat
    let r ← store m m.index.toNat (Machine.decimalDigits vx)
    some (Machine.thenNext r)
  | .storeRegisters => do
    let x ← operand i
    let count ← sum hostLimit x.toNat 1
    let values ← range m.registers 0 count
    let r ← store m m.index.toNat values
    some (Machine.thenNext r)
  | .fetchRegisters => do
    let x ← operand i
    let count ← sum hostLimit x.toNat 1
    match ← slice m.memory m.index.toNat count with
    | .ok values =>
      let registers ← copy m.registers 0 count values
      some (.ok .next, { m with registers })
    | .error f => some (.error f, m)

/-- What goes to the computations on two registers is one of them. -/
lemma compute_eq_some {a : Arithmetic} (op : i.opcode = .arithmetic a) :
    compute m i = some (.ok .next, m.compute a i.x i.y) := by
  have hfields : i.opcode.format.fields = [.x, .y] := by
    rw [op]
    cases a <;> rfl
  rw [compute, operandPair_eq_some hfields, Machine.compute]
  simp only [op, toNat_x, toNat_y, register_eq_some, setRegister_eq_some, Option.bind_eq_bind,
    Option.bind_some]
  cases a.flag? (m.register i.x) (m.register i.y) <;> rfl

lemma firstRegisters_eq_some (m : Machine) (x : Fin registerCount) :
    sum hostLimit x 1 = some (x.val + 1) ∧
      range m.registers 0 (x.val + 1) = some (m.firstRegisters (x.val + 1)) := by
  have hx : x.val < 16 := x.isLt
  refine ⟨sum_eq_some (lt_hostLimit (by omega)), ?_⟩
  rw [range, if_pos ⟨Nat.zero_le _, x.isLt⟩, Machine.firstRegisters, List.drop_zero]

lemma copy_registers (m : Machine) {count : Nat} {values : List UInt8}
    (hcount : count ≤ registerCount) (hvalues : values.length = count) :
    copy m.registers 0 count values = some (m.setFirstRegisters values).registers :=
  copy_front hvalues hcount

/-- An access of a program to memory ends at a number that the host can count to. -/
lemma index_fits (m : Machine) {length : Nat} (h : length ≤ registerCount) :
    m.index.toNat + length < hostLimit := by
  have hindex : m.index.toNat < 65536 := m.index.toNat_lt
  have hlength : length ≤ 16 := h
  exact lt_hostLimit (by omega)

/-- **No instruction makes the host break down**: it has the operands that are asked for, and
every place and number that comes of them is within bounds. -/
theorem execute_eq_some (m : Machine) (i : Instruction) :
    execute m i = some (m.execute i) := by
  have nnn : i.opcode.format.fields = [.nnn] → operand i = some i.nnn := operand_eq_some
  have x : i.opcode.format.fields = [.x] → operand i = some (Field.x.value i.word) :=
    operand_eq_some
  have x_nn : i.opcode.format.fields = [.x, .nn] →
      operandPair i = some (Field.x.value i.word, Field.nn.value i.word) := operandPair_eq_some
  have x_y : i.opcode.format.fields = [.x, .y] →
      operandPair i = some (Field.x.value i.word, Field.y.value i.word) := operandPair_eq_some
  rw [execute, Machine.execute]
  -- by opcode: the fields of its format say which operands are asked for, and so which of the four
  -- facts above applies; what is left is that every access and every sum it makes is within bounds
  cases op : i.opcode
  case clearScreen => rfl
  case leave =>
    simp only [pop_eq_some, Option.bind_eq_bind, Option.bind_some]
    cases m.stack.pop <;> rfl
  case jump | setIndex =>
    simp only [nnn (by rw [op]; rfl), Option.bind_eq_bind, Option.bind_some]
  case call =>
    simp only [nnn (by rw [op]; rfl), push_eq_some, Option.bind_eq_bind, Option.bind_some]
    cases m.stack.push (m.pc + 2) <;> rfl
  case jumpFromV0 =>
    have hv : register m 0 = some (m.register 0) := register_eq_some m 0
    simp only [nnn (by rw [op]; rfl), hv, sum_nnn_eq_some, UInt16.ofNat_toNat,
      Option.bind_eq_bind, Option.bind_some]
  case arithmetic a => exact compute_eq_some op
  case skipIfByte | skipUnlessByte | setByte | addByte | randomByte =>
    simp only [x_nn (by rw [op]; rfl), toNat_x, register_eq_some, setRegister_eq_some,
      Option.bind_eq_bind, Option.bind_some]
    rfl
  case skipIfSame | skipUnlessSame =>
    simp only [x_y (by rw [op]; rfl), toNat_x, toNat_y, register_eq_some,
      Option.bind_eq_bind, Option.bind_some]
  case skipIfKey | skipUnlessKey | readDelay | startDelay | startSound =>
    simp only [x (by rw [op]; rfl), toNat_x, register_eq_some, setRegister_eq_some,
      Option.bind_eq_bind, Option.bind_some]
  case awaitKey =>
    simp only [x (by rw [op]; rfl), toNat_x, setRegister_eq_some,
      Option.bind_eq_bind, Option.bind_some]
    cases m.key <;> rfl
  case advanceIndex =>
    obtain ⟨hsum, hindex⟩ := sum_index_eq_some m.index (m.register i.x)
    simp only [x (by rw [op]; rfl), toNat_x, register_eq_some, setRegister_eq_some, hsum, hindex,
      Option.bind_eq_bind, Option.bind_some]
    rfl
  case locateDigit =>
    obtain ⟨offset, hoffset, haddress⟩ := glyph_eq_some (m.register i.x)
    simp only [x (by rw [op]; rfl), toNat_x, register_eq_some, hoffset, haddress,
      UInt16.ofNat_toNat, Option.bind_eq_bind, Option.bind_some]
  case storeDecimal =>
    have hfits : m.index.toNat + (Machine.decimalDigits (m.register i.x)).length < hostLimit :=
      index_fits m (by decide : 3 ≤ registerCount)
    simp only [x (by rw [op]; rfl), toNat_x, register_eq_some, store_eq_some hfits,
      Option.bind_eq_bind, Option.bind_some]
  case storeRegisters =>
    obtain ⟨hsum, hrange⟩ := firstRegisters_eq_some m i.x
    have hlength : (m.firstRegisters (i.x.val + 1)).length ≤ registerCount := by
      rw [Machine.firstRegisters, List.length_take]
      exact Nat.le_trans (Nat.min_le_right ..) (Nat.le_of_eq Vector.length_toList)
    simp only [x (by rw [op]; rfl), toNat_x, hsum, hrange,
      store_eq_some (index_fits m hlength), Option.bind_eq_bind, Option.bind_some]
  case fetchRegisters =>
    obtain ⟨hsum, -⟩ := firstRegisters_eq_some m i.x
    have hcount : i.x.val + 1 ≤ registerCount := i.x.isLt
    simp only [x (by rw [op]; rfl), toNat_x, hsum, slice_eq_some (index_fits m hcount),
      Option.bind_eq_bind, Option.bind_some]
    cases hs : m.memory.slice m.index.toNat (i.x.val + 1) with
    | error f => rfl
    | ok values =>
      -- a slice is as long as it was asked to be, so the copy ends at the last register at most
      obtain ⟨-, rfl⟩ := Memory.slice_eq_ok_iff.1 hs
      simp only [copy_registers m hcount (List.length_ofFn ..), Option.bind_some]
      rfl
  case drawSprite =>
    have hn : i.n ≤ registerCount := Nat.le_of_lt (Field.n.value_lt i.word)
    have hfields : i.opcode.format.fields = [.x, .y, .n] := by
      rw [op]
      rfl
    have htoNat : (Field.n.value i.word).toNat = i.n := rfl
    simp only [operandTriple_eq_some hfields, toNat_x, toNat_y, htoNat, register_eq_some,
      slice_eq_some (index_fits m hn), Option.bind_eq_bind, Option.bind_some]
    cases hs : m.memory.slice m.index.toNat i.n with
    | error f => rfl
    | ok rows =>
      -- coordinates come out of registers here; only a caller from outside can exceed the host
      obtain ⟨-, hrows⟩ := Memory.slice_eq_ok_iff.1 hs
      have hheight : rows.length ≤ registerCount := by
        rw [hrows, List.length_ofFn]
        exact hn
      simp only [draw_eq_some (sprite_fits _ _ hheight), setRegister_eq_some, Option.bind_some]
      rfl

end Chip8.Guarded
