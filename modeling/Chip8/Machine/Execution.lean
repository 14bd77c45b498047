import Chip8.Instruction.Arithmetic
import Chip8.Machine.Basic

/-!
What an instruction does to the machine, apart from the program counter, and how
it wants the program counter to move.

An instruction works on the machine in place, so its result comes with the machine
that it leaves, also when it fails.

* `Machine.execute`: the effect of each opcode;
* `Motion.target`: where the program counter goes.
-/

namespace Chip8

/-- How an instruction wants the program counter to move. -/
inductive Motion where
  /-- To the following instruction. -/
  | next
  /-- Past the following instruction. -/
  | skip
  /-- To an address. -/
  | jump (target : UInt16)
  /-- Not at all: the instruction is tried again. -/
  | hold
  deriving DecidableEq, Repr

namespace Motion

/-- Skips under a condition. -/
def skipIf (p : Prop) [Decidable p] : Motion :=
  if p then skip else next

/-- Where the program counter goes from `pc`. -/
def target (pc : UInt16) : Motion → UInt16
  | next => pc + 2
  | skip => pc + 4
  | jump a => a
  | hold => pc

end Motion

namespace Machine

variable [RandomSource]

/-- The three decimal digits of a byte. -/
def decimalDigits (v : UInt8) : List UInt8 :=
  [v / 100 % 10, v / 10 % 10, v % 10]

/-- The first `count` registers. -/
def firstRegisters (m : Machine) (count : Nat) : List UInt8 :=
  m.registers.toList.take count

/-- Sets the first registers to the given values. -/
def setFirstRegisters (m : Machine) (values : List UInt8) : Machine :=
  { m with registers := Vector.ofFn fun r => values.getD r.val (m.register r) }

/-- The key held down is the one with the given code. -/
def KeyIs (m : Machine) (code : UInt8) : Prop :=
  m.key.map Key.toByte = some code

instance (m : Machine) (code : UInt8) : Decidable (m.KeyIs code) :=
  inferInstanceAs (Decidable (_ = _))

/-- A computation on `VX` and `VY`: the result goes into `VX`, and then the flag, if
there is one, into `VF`. -/
def compute (m : Machine) (op : Arithmetic) (x y : Fin registerCount) : Machine :=
  let vx := m.register x
  let vy := m.register y
  let m := m.setRegister x (op.result vx vy)
  match op.flag? vx vy with
  | some f => m.setRegister flagRegister f
  | none => m

/-- The screen after a sprite, and `VF` set if a pixel went out. -/
def drawn (m : Machine) (x y : UInt8) (rows : List UInt8) : Machine :=
  let (screen, erased) := m.screen.draw x.toNat y.toNat rows
  { m with screen }.setRegister flagRegister (flag erased)

/-- The index moved on by a byte, and `VF` set if it leaves the address space. -/
def indexAdvanced (m : Machine) (v : UInt8) : Machine :=
  { m with index := m.index + v.toUInt16 }.setRegister flagRegister
    (flag (lastAddress < m.index.toNat + v.toNat))

/-- A change of the machine, and then the following instruction. -/
def thenNext (r : Except Fault Unit × Machine) : Except Fault Motion × Machine :=
  (r.1.map fun _ => .next, r.2)

@[simp] theorem thenNext_error_iff {r : Except Fault Unit × Machine} {f : Fault} :
    (thenNext r).1 = .error f ↔ r.1 = .error f := by
  rw [thenNext]
  cases r.1 <;> simp [Except.map]

theorem thenNext_ok_iff {r : Except Fault Unit × Machine} {motion : Motion} :
    (thenNext r).1 = .ok motion ↔ r.1 = .ok () ∧ motion = .next := by
  rw [thenNext]
  cases r.1 <;> simp [Except.map, eq_comm]

/-- The motion that an instruction wants, or the fault that stops it, and the machine
that it leaves. -/
def execute (m : Machine) (i : Instruction) : Except Fault Motion × Machine :=
  let vx := m.register i.x
  match i.opcode with
  | .clearScreen => (.ok .next, { m with screen := .blank })
  | .leave =>
    match m.stack.pop with
    | .ok (a, stack) => (.ok (.jump a), { m with stack })
    | .error f => (.error f, m)
  | .jump => (.ok (.jump i.nnn), m)
  | .call =>
    match m.stack.push (m.pc + 2) with
    | .ok stack => (.ok (.jump i.nnn), { m with stack })
    | .error f => (.error f, m)
  | .skipIfByte => (.ok (.skipIf (vx = i.nn)), m)
  | .skipUnlessByte => (.ok (.skipIf (vx ≠ i.nn)), m)
  | .skipIfSame => (.ok (.skipIf (vx = m.register i.y)), m)
  | .skipUnlessSame => (.ok (.skipIf (vx ≠ m.register i.y)), m)
  | .setByte => (.ok .next, m.setRegister i.x i.nn)
  | .addByte => (.ok .next, m.setRegister i.x (vx + i.nn))
  | .arithmetic op => (.ok .next, m.compute op i.x i.y)
  | .setIndex => (.ok .next, { m with index := i.nnn })
  | .jumpFromV0 => (.ok (.jump (i.nnn + (m.register 0).toUInt16)), m)
  | .randomByte =>
    let (b, random) := m.random.next
    (.ok .next, { m with random }.setRegister i.x (b &&& i.nn))
  | .drawSprite =>
    match m.memory.slice m.index.toNat i.n with
    | .ok rows => (.ok .next, m.drawn vx (m.register i.y) rows)
    | .error f => (.error f, m)
  | .skipIfKey => (.ok (.skipIf (m.KeyIs vx)), m)
  | .skipUnlessKey => (.ok (.skipIf (¬ m.KeyIs vx)), m)
  | .readDelay => (.ok .next, m.setRegister i.x m.timers.delay)
  | .awaitKey =>
    match m.key with
    | some k => (.ok .next, m.setRegister i.x k.toByte)
    | none => (.ok .hold, m)
  | .startDelay => (.ok .next, { m with timers.delay := vx })
  | .startSound => (.ok .next, { m with timers.sound := vx })
  | .advanceIndex => (.ok .next, m.indexAdvanced vx)
  | .locateDigit => (.ok .next, { m with index := Font.address vx })
  | .storeDecimal => thenNext (m.store m.index.toNat (decimalDigits vx))
  | .storeRegisters => thenNext (m.store m.index.toNat (m.firstRegisters (i.x.val + 1)))
  | .fetchRegisters =>
    match m.memory.slice m.index.toNat (i.x.val + 1) with
    | .ok values => (.ok .next, m.setFirstRegisters values)
    | .error f => (.error f, m)

end Machine

end Chip8
