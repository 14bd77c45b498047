/-!
The instructions of the machine, without their operands.

The nine instructions that combine two registers are a kind of their own,
`Arithmetic`: they differ in what they compute and in nothing else.

* `Opcode.all`: every opcode once, in the order in which words are matched;
* `Opcode.mem_all`: the list is complete.
-/

namespace Chip8

/-- A computation on the registers `VX` and `VY`. -/
inductive Arithmetic where
  | assign
  | or
  | and
  | xor
  | add
  | sub
  | shiftRight
  | subFrom
  | shiftLeft
  deriving DecidableEq, Repr

/-- What an instruction does, apart from its operands. -/
inductive Opcode where
  | clearScreen
  | leave
  | jump
  | call
  | skipIfByte
  | skipUnlessByte
  | skipIfSame
  | setByte
  | addByte
  | arithmetic (op : Arithmetic)
  | skipUnlessSame
  | setIndex
  | jumpFromV0
  | randomByte
  | drawSprite
  | skipIfKey
  | skipUnlessKey
  | readDelay
  | awaitKey
  | startDelay
  | startSound
  | advanceIndex
  | locateDigit
  | storeDecimal
  | storeRegisters
  | fetchRegisters
  deriving DecidableEq, Repr

/-- The computations in the order of their last digit. -/
def Arithmetic.all : List Arithmetic :=
  [.assign, .or, .and, .xor, .add, .sub, .shiftRight, .subFrom, .shiftLeft]

/-- Every opcode once, in the order in which words are matched. -/
def Opcode.all : List Opcode :=
  [.clearScreen, .leave, .jump, .call, .skipIfByte, .skipUnlessByte, .skipIfSame, .setByte,
    .addByte]
  ++ Arithmetic.all.map .arithmetic
  ++ [.skipUnlessSame, .setIndex, .jumpFromV0, .randomByte, .drawSprite, .skipIfKey,
    .skipUnlessKey, .readDelay, .awaitKey, .startDelay, .startSound, .advanceIndex, .locateDigit,
    .storeDecimal, .storeRegisters, .fetchRegisters]

theorem Opcode.mem_all (op : Opcode) : op ∈ Opcode.all := by
  cases op
  case arithmetic op => cases op <;> decide
  all_goals decide

end Chip8
