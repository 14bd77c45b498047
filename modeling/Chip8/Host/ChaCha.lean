/-!
The ChaCha stream with twelve rounds.

The state of the cipher is a square of words, four rows of four lanes. A round
works on all columns at once; turning the rows before and after makes the next
round work on the diagonals. A block is the square after its rounds, added to
the square before them, and the stream is the words of block 0, block 1 and so on.

* `Square.doubleRound`: one round on the columns and one on the diagonals;
* `block`: the block of a number;
* `word`: the word of the stream at a position.
-/

namespace Chip8.ChaCha

/-- A row of the square. -/
structure Lanes where
  w0 : UInt32
  w1 : UInt32
  w2 : UInt32
  w3 : UInt32
  deriving DecidableEq, Repr

namespace Lanes

/-- Applies a function to every lane. -/
def map (f : UInt32 → UInt32) (l : Lanes) : Lanes :=
  ⟨f l.w0, f l.w1, f l.w2, f l.w3⟩

/-- Combines two rows lane by lane. -/
def zip (f : UInt32 → UInt32 → UInt32) (l m : Lanes) : Lanes :=
  ⟨f l.w0 m.w0, f l.w1 m.w1, f l.w2 m.w2, f l.w3 m.w3⟩

/-- Moves every lane one place to the left, the first to the end. -/
def turn (l : Lanes) : Lanes :=
  ⟨l.w1, l.w2, l.w3, l.w0⟩

/-- The lane at a position, counted modulo four. -/
def lane (l : Lanes) (i : Nat) : UInt32 :=
  match i % 4 with
  | 0 => l.w0
  | 1 => l.w1
  | 2 => l.w2
  | _ => l.w3

end Lanes

/-- A word turned to the left. -/
def turnLeft (k w : UInt32) : UInt32 :=
  w <<< k ||| w >>> (32 - k)

/-- The key of a stream: two rows. -/
structure Key where
  upper : Lanes
  lower : Lanes
  deriving DecidableEq, Repr

/-- The state of the cipher. -/
structure Square where
  a : Lanes
  b : Lanes
  c : Lanes
  d : Lanes
  deriving DecidableEq, Repr

namespace Square

/-- The square before the rounds: constants, key, block number. -/
def initial (key : Key) (number : Nat) : Square where
  a := ⟨0x61707865, 0x3320646E, 0x79622D32, 0x6B206574⟩
  b := key.upper
  c := key.lower
  d := ⟨UInt32.ofNat number, UInt32.ofNat (number / UInt32.size), 0, 0⟩

/-- A round on the four columns. -/
def columnRound (s : Square) : Square :=
  let a := s.a.zip (· + ·) s.b
  let d := (s.d.zip (· ^^^ ·) a).map (turnLeft 16)
  let c := s.c.zip (· + ·) d
  let b := (s.b.zip (· ^^^ ·) c).map (turnLeft 12)
  let a := a.zip (· + ·) b
  let d := (d.zip (· ^^^ ·) a).map (turnLeft 8)
  let c := c.zip (· + ·) d
  let b := (b.zip (· ^^^ ·) c).map (turnLeft 7)
  ⟨a, b, c, d⟩

/-- Turns the rows so that the diagonals become columns. -/
def skew (s : Square) : Square :=
  ⟨s.a, s.b.turn, s.c.turn.turn, s.d.turn.turn.turn⟩

/-- Turns the rows so that the columns become the diagonals they were. -/
def unskew (s : Square) : Square :=
  ⟨s.a, s.b.turn.turn.turn, s.c.turn.turn, s.d.turn⟩

/-- One round on the columns and one on the diagonals. -/
def doubleRound (s : Square) : Square :=
  s.columnRound.skew.columnRound.unskew

/-- A number of double rounds. -/
def rounds : Nat → Square → Square
  | 0, s => s
  | n + 1, s => rounds n s.doubleRound

/-- The sum of two squares, word by word. -/
def add (s t : Square) : Square :=
  ⟨s.a.zip (· + ·) t.a, s.b.zip (· + ·) t.b, s.c.zip (· + ·) t.c, s.d.zip (· + ·) t.d⟩

/-- The word at a position, row after row; positions count modulo sixteen. -/
def word (s : Square) (i : Nat) : UInt32 :=
  match i / 4 % 4 with
  | 0 => s.a.lane i
  | 1 => s.b.lane i
  | 2 => s.c.lane i
  | _ => s.d.lane i

end Square

/-- The block of a number: six double rounds, added to the square before them. -/
def block (key : Key) (number : Nat) : Square :=
  let start := Square.initial key number
  (start.rounds 6).add start

/-- The word of the stream at a position. -/
def word (key : Key) (position : Nat) : UInt32 :=
  (block key (position / 16)).word (position % 16)

end Chip8.ChaCha
