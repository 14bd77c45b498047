/-!
Where the random bytes of the machine come from.

The machine does not generate random numbers itself. It is handed a source, which seeds
generators and takes words and bytes from them, and it knows nothing else about either.

* `RandomSource`: seeding, the next word and the next byte;
* `Generator.next`: the byte that the machine draws.
-/

namespace Chip8

/-- A source of random numbers. -/
class RandomSource where
  /-- What a generator is between two draws. -/
  State : Type
  /-- The generator of a seed, with nothing drawn yet. -/
  ofSeed : UInt64 → State
  /-- Draws a word. -/
  nextWord : State → UInt32 × State
  /-- Draws a byte. -/
  nextByte : State → UInt8 × State

variable [RandomSource]

/-- A generator of the source. -/
def Generator : Type :=
  RandomSource.State

namespace Generator

/-- The generator of a seed, with nothing drawn yet. -/
def ofSeed (seed : UInt64) : Generator :=
  RandomSource.ofSeed seed

/-- Draws a word. -/
def nextWord (g : Generator) : UInt32 × Generator :=
  RandomSource.nextWord g

/-- Draws a byte. -/
def next (g : Generator) : UInt8 × Generator :=
  RandomSource.nextByte g

end Generator

end Chip8
