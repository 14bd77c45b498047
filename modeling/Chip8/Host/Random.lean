import Chip8.Host.ChaCha
import Chip8.Random

/-!
The random numbers that the command line plays with: a ChaCha stream for every seed.

A generator is a key and the number of words drawn so far. A seed of 64 bits is spread over
the words of the key by a linear congruence, of whose states the high bits are folded and
turned. A byte is the low end of a word.

* `ChaCha.Position.ofSeed`: the generator of a seed, at its start;
* `ChaCha.source`: the source that these generators make.
-/

namespace Chip8.ChaCha

/-- A position in the stream of a key. -/
structure Position where
  key : Key
  drawn : Nat
  deriving DecidableEq, Repr

/-! ### The key of a seed -/

/-- The state after a state. -/
def advance (state : UInt64) : UInt64 :=
  state * 6364136223846793005 + 11634580027462260723

/-- A word turned to the right. -/
def turnRight (k w : UInt32) : UInt32 :=
  w >>> k ||| w <<< (32 - k)

/-- The key word of a state: its high bits, turned by the topmost of them. -/
def keyWord (state : UInt64) : UInt32 :=
  turnRight (state >>> 59).toUInt32 (((state >>> 18) ^^^ state) >>> 27).toUInt32

/-- The state after a number of steps. -/
def stateAfter (seed : UInt64) : Nat → UInt64
  | 0 => seed
  | n + 1 => advance (stateAfter seed n)

/-- The four key words that the states after the `n`-th one give. -/
def keyRow (seed : UInt64) (n : Nat) : Lanes :=
  ⟨keyWord (stateAfter seed (n + 1)), keyWord (stateAfter seed (n + 2)),
    keyWord (stateAfter seed (n + 3)), keyWord (stateAfter seed (n + 4))⟩

/-- The key of a seed. -/
def keyOfSeed (seed : UInt64) : Key :=
  ⟨keyRow seed 0, keyRow seed 4⟩

/-- The words of a seed. -/
def stream (seed : UInt64) (k : Nat) : UInt32 :=
  word (keyOfSeed seed) k

/-! ### Drawing -/

namespace Position

/-- The start of the stream of a seed. -/
def ofSeed (seed : UInt64) : Position :=
  ⟨keyOfSeed seed, 0⟩

/-- Takes one word of the stream. -/
def nextWord (p : Position) : UInt32 × Position :=
  (word p.key p.drawn, ⟨p.key, p.drawn + 1⟩)

/-- Takes one word of the stream, of which the low byte counts. -/
def nextByte (p : Position) : UInt8 × Position :=
  (p.nextWord.1.toUInt8, p.nextWord.2)

end Position

/-- The source of the streams of all seeds. -/
instance source : RandomSource where
  State := Position
  ofSeed := .ofSeed
  nextWord := Position.nextWord
  nextByte := Position.nextByte

end Chip8.ChaCha
