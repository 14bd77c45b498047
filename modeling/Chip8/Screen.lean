import Chip8.Architecture
import Chip8.Text.Lines

/-!
The screen: 64 columns and 32 rows of pixels, wrapped around on both axes.

A sprite is a list of rows, one byte each. Drawing it visits the cells that its
set bits land on, in scan order, and switches each of them: a lit pixel goes out,
a dark one lights up. A pixel that goes out on the way is an erasure, which is
what a program sees as a collision.

Coordinates are numbers without a limit. In a build whose sums wrap around at `2 ^ 64` the cells
are the same, as this is a multiple of both sides of the screen; a build that checks its sums stops
where a coordinate of a cell exceeds this limit.

* `Screen.lit`: the view of a screen, pixel by pixel;
* `landing`: the cells that a sprite's set bits land on;
* `Screen.draw`: the switched screen, and whether a pixel went out;
* `Screen.picture`: the screen as text, one line per row.
-/

namespace Chip8

/-- The place of a pixel: rows from the top, columns from the left. -/
abbrev Cell := Fin pixelCount

/-- The cell at a pair of coordinates, each taken around its axis. -/
def Cell.at (x y : Nat) : Cell :=
  ⟨x % screenWidth + y % screenHeight * screenWidth, by
    show x % 64 + y % 32 * 64 < 2048
    omega⟩

/-! ### Sprites -/

/-- The columns of the set bits of a row, the most significant bit first. -/
def setColumns (row : UInt8) : List Nat :=
  (List.range spriteWidth).filter fun c => row.toNat.testBit (7 - c)

/-- The cells that the set bits of a sprite land on when its corner is at `(x, y)`:
row after row, in each row from the left. -/
def landing (x y : Nat) : List UInt8 → List Cell
  | [] => []
  | row :: rest => (setColumns row).map (fun c => Cell.at (x + c) y) ++ landing x (y + 1) rest

/-! ### The screen -/

/-- The pixels of the screen, row after row. -/
structure Screen where
  pixels : Vector Bool pixelCount
  deriving DecidableEq

namespace Screen

/-- Every pixel dark. -/
def blank : Screen :=
  ⟨Vector.replicate pixelCount false⟩

/-- Whether the pixel of a cell is lit. -/
def lit (s : Screen) (c : Cell) : Bool :=
  s.pixels[c]

/-- Whether the pixel at a pair of coordinates is lit. -/
def pixel (s : Screen) (x y : Nat) : Bool :=
  s.lit (Cell.at x y)

theorem ext_lit {s s' : Screen} (h : ∀ c, s.lit c = s'.lit c) : s = s' := by
  cases s; cases s'
  congr 1
  ext i hi
  have := h ⟨i, hi⟩
  simp_all [lit]

@[simp] theorem lit_blank (c : Cell) : blank.lit c = false := by
  simp [lit, blank]

/-- Switches one pixel. -/
def toggle (s : Screen) (c : Cell) : Screen :=
  ⟨s.pixels.set c (!s.pixels[c])⟩

theorem lit_toggle (s : Screen) (c d : Cell) :
    (s.toggle c).lit d = (s.lit d ^^ decide (d = c)) := by
  simp only [lit, toggle, Fin.getElem_fin, Vector.getElem_set]
  by_cases h : d = c
  · subst h; simp
  · have : (c : Nat) ≠ d := fun h' => h (Fin.ext h'.symm)
    simp [h, this]

/-- Switches cell after cell, and tells whether a lit pixel was among them. -/
def toggleAll (s : Screen) : List Cell → Screen × Bool
  | [] => (s, false)
  | c :: rest =>
    let erased := s.lit c
    let after := (s.toggle c).toggleAll rest
    (after.1, erased || after.2)

theorem toggleAll_append (s : Screen) (first rest : List Cell) :
    s.toggleAll (first ++ rest) =
      (((s.toggleAll first).1.toggleAll rest).1,
        (s.toggleAll first).2 || ((s.toggleAll first).1.toggleAll rest).2) := by
  induction first generalizing s with
  | nil => simp [toggleAll]
  | cons c first ih => simp [toggleAll, ih, Bool.or_assoc]

/-- Draws a sprite with its corner at `(x, y)`, and tells whether a pixel went out. For coordinates
near `2 ^ 64` this is what a build does whose sums wrap around. -/
def draw (s : Screen) (x y : Nat) (rows : List UInt8) : Screen × Bool :=
  s.toggleAll (landing x y rows)

/-- The number of lit pixels. -/
def litCount (s : Screen) : Nat :=
  s.pixels.toList.count true

/-! ### Text -/

/-- How a pixel is written. -/
def mark (on : Bool) : Char :=
  if on then '#' else '.'

/-- Row `y` of the screen as text. -/
def rowText (s : Screen) (y : Nat) : String :=
  String.ofList ((List.range screenWidth).map fun x => mark (s.pixel x y))

/-- The rows of the screen, from the top. -/
def rowTexts (s : Screen) : List String :=
  (List.range screenHeight).map s.rowText

/-- The screen as text: every row is a line. -/
def picture (s : Screen) : String :=
  unlines s.rowTexts

end Screen

end Chip8
