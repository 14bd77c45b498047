import Chip8.Proofs.Guarded.Basic
import Chip8.Screen

/-!
The screen on a host that checks every access.

A coordinate is cut to its axis by a mask, so that it always leads to a pixel. A sprite is drawn
by going through all eight columns of each of its rows, whether a bit is set there or not; the
host adds row and column to the coordinates of the corner before it cuts them.

* `pixel_eq_some`: no pixel is missing;
* `draw_eq_some`: no sprite makes the host break down, as long as it can count to its end, and
  the pixels under unset bits stay as they are;
* `picture_eq_some`: nor does the text of the screen.
-/

namespace Chip8.Guarded

/-! ### Pixels -/

/-- The place of a pixel among the pixels of the screen. -/
def place (x y : Nat) : Nat :=
  (x &&& 63) + (y &&& 31) * screenWidth

/-- Whether the pixel at a pair of coordinates is lit. -/
def pixel (s : Screen) (x y : Nat) : Option Bool :=
  s.pixels[place x y]?

/-- Whether the bit of a column is set in a row of a sprite. -/
def bit (row : UInt8) (c : Nat) : Option Bool :=
  if c ≤ 7 ∧ 7 - c < 8 then some (decide (row >>> UInt8.ofNat (7 - c) &&& 1 ≠ 0)) else none

/-- Puts a bit onto the pixel at a pair of coordinates, and tells whether the pixel went out. -/
def plot (s : Screen) (x y : Nat) (bit : Bool) : Option (Screen × Bool) := do
  let lit ← pixel s x y
  let pixels ← put s.pixels (place x y) (lit ^^ bit)
  some (⟨pixels⟩, lit && bit)

variable {s : Screen} {x y : Nat}

/-- The masks cut the coordinates to the axes. -/
lemma place_eq (x y : Nat) : place x y = Cell.at x y := by
  have hx : x &&& 63 = x % 64 := Nat.and_two_pow_sub_one_eq_mod x 6
  have hy : y &&& 31 = y % 32 := Nat.and_two_pow_sub_one_eq_mod y 5
  rw [place, hx, hy, Cell.at]

/-- **Every pair of coordinates leads to a pixel.** -/
theorem pixel_eq_some (s : Screen) (x y : Nat) : pixel s x y = some (s.pixel x y) := by
  rw [pixel, place_eq, Vector.getElem?_eq_getElem (Cell.at x y).isLt]
  rfl

lemma bit_eq_some {c : Nat} (h : c < spriteWidth) (row : UInt8) :
    bit row c = some (row.toNat.testBit (7 - c)) := by
  have hc : c < 8 := h
  have hshift : (row >>> UInt8.ofNat (7 - c)).toNat = row.toNat >>> (7 - c) := by
    rw [UInt8.toNat_shiftRight, UInt8.toNat_ofNat', Nat.mod_eq_of_lt (by omega : 7 - c < 2 ^ 8),
      Nat.mod_eq_of_lt (by omega)]
  have hbit : row >>> UInt8.ofNat (7 - c) &&& 1 ≠ 0 ↔ row.toNat.testBit (7 - c) := by
    rw [ne_eq, ← UInt8.toNat_inj, UInt8.toNat_and, hshift, Nat.testBit, Nat.and_comm]
    simp
  rw [bit, if_pos (by omega)]
  simp only [hbit, Bool.decide_eq_true]

lemma plot_eq_some (s : Screen) (x y : Nat) (bit : Bool) :
    plot s x y bit =
      some (if bit then s.toggle (Cell.at x y) else s, s.pixel x y && bit) := by
  rw [plot, pixel_eq_some, place_eq]
  simp only [Option.bind_eq_bind, Option.bind_some, put_eq_some (Cell.at x y).isLt]
  cases bit with
  | true => simp [Screen.toggle, Screen.pixel, Screen.lit]
  | false => simp [Screen.pixel, Screen.lit]

/-! ### Sprites -/

/-- Draws the given columns of a row at height `y`, and tells whether a pixel went out so far. -/
def drawColumns (x y : Nat) (row : UInt8) :
    List Nat → Screen → Bool → Option (Screen × Bool)
  | [], s, erased => some (s, erased)
  | c :: rest, s, erased => do
    let column ← sum hostLimit x c
    let set ← bit row c
    let (s, out) ← plot s column y set
    drawColumns x y row rest s (erased || out)

/-- Draws the rows of a sprite from row `r` on, and tells whether a pixel went out so far. -/
def drawRows (x y : Nat) : Nat → List UInt8 → Screen → Bool → Option (Screen × Bool)
  | _, [], s, erased => some (s, erased)
  | r, row :: rest, s, erased => do
    let height ← sum hostLimit y r
    let (s, erased) ← drawColumns x height row (List.range spriteWidth) s erased
    drawRows x y (r + 1) rest s erased

/-- Draws a sprite with its corner at `(x, y)`, and tells whether a pixel went out. -/
def draw (s : Screen) (x y : Nat) (rows : List UInt8) : Option (Screen × Bool) :=
  drawRows x y 0 rows s false

/-- Going through columns of a row switches the cells of those whose bits are set. -/
lemma drawColumns_eq_some {row : UInt8} {columns : List Nat} {erased : Bool}
    (hcolumns : ∀ c ∈ columns, c < spriteWidth ∧ x + c < hostLimit) :
    drawColumns x y row columns s erased =
      let cells := (columns.filter fun c => row.toNat.testBit (7 - c)).map
        fun c => Cell.at (x + c) y
      some ((s.toggleAll cells).1, erased || (s.toggleAll cells).2) := by
  induction columns generalizing s erased with
  | nil => simp [drawColumns, Screen.toggleAll]
  | cons c rest ih =>
    rw [List.forall_mem_cons] at hcolumns
    obtain ⟨⟨hc, hx⟩, hrest⟩ := hcolumns
    rw [drawColumns, sum_eq_some hx, bit_eq_some hc]
    simp only [Option.bind_eq_bind, Option.bind_some, plot_eq_some]
    rw [ih hrest]
    cases hbit : row.toNat.testBit (7 - c) with
    | true => simp [hbit, Screen.toggleAll, Screen.pixel, Bool.or_assoc]
    | false => simp [hbit]

/-- Going through rows of a sprite switches the cells that these rows land on. -/
lemma drawRows_eq_some {rows : List UInt8} {r : Nat} {erased : Bool}
    (hrows : ∀ c < spriteWidth, ∀ k < rows.length,
      x + c < hostLimit ∧ y + (r + k) < hostLimit) :
    drawRows x y r rows s erased =
      let cells := landing x (y + r) rows
      some ((s.toggleAll cells).1, erased || (s.toggleAll cells).2) := by
  induction rows generalizing s r erased with
  | nil => simp [drawRows, landing, Screen.toggleAll]
  | cons row rest ih =>
    have hcolumns : ∀ c ∈ List.range spriteWidth, c < spriteWidth ∧ x + c < hostLimit :=
      fun c hc =>
        have hc := List.mem_range.1 hc
        ⟨hc, (hrows c hc 0 (Nat.zero_lt_succ _)).1⟩
    -- the first row is at hand, so its coordinates are among those that are in range
    have hheight : y + r < hostLimit := (hrows 0 (by decide) 0 (Nat.zero_lt_succ _)).2
    have hrest : ∀ c < spriteWidth, ∀ k < rest.length,
        x + c < hostLimit ∧ y + (r + 1 + k) < hostLimit := fun c hc k hk => by
      have := hrows c hc (k + 1) (Nat.succ_lt_succ hk)
      omega
    rw [drawRows, sum_eq_some hheight]
    simp only [Option.bind_eq_bind, Option.bind_some, drawColumns_eq_some hcolumns]
    rw [ih hrest]
    simp [landing, setColumns, Screen.toggleAll_append, Bool.or_assoc, Nat.add_assoc]

/-- **A sprite does not break down**, wherever it is drawn, as long as the host can count to
its last row and column: it switches the cells that its set bits land on. -/
theorem draw_eq_some {rows : List UInt8}
    (h : ∀ c < spriteWidth, ∀ r < rows.length, x + c < hostLimit ∧ y + r < hostLimit) :
    draw s x y rows = some (s.draw x y rows) := by
  rw [draw, drawRows_eq_some (by simpa using h)]
  simp [Screen.draw]

/-! ### Text -/

/-- A row of the screen as text. -/
def rowText (s : Screen) (y : Nat) : Option String := do
  let pixels ← range s.pixels (screenWidth * y) (screenWidth * y + screenWidth)
  some (String.ofList (pixels.map Screen.mark))

/-- The screen as text. -/
def picture (s : Screen) : Option String := do
  let texts ← (List.range screenHeight).mapM (rowText s)
  some (unlines texts)

lemma rowText_eq_some (h : y < screenHeight) : rowText s y = some (s.rowText y) := by
  have hy : y < 32 := h
  have hend : screenWidth * y + screenWidth ≤ pixelCount := by
    show 64 * y + 64 ≤ 2048
    omega
  rw [rowText, range_eq_some hend]
  simp only [Option.bind_eq_bind, Option.bind_some]
  refine congrArg (fun cs => some (String.ofList cs)) ?_
  apply List.ext_getElem
  · rw [List.length_map, List.length_ofFn, List.length_map, List.length_range]
  · intro i hi _
    have hi : i < 64 := by
      rw [List.length_map, List.length_ofFn] at hi
      exact hi
    have hcell : (Cell.at i y : Nat) = screenWidth * y + i := by
      show i % 64 + y % 32 * 64 = 64 * y + i
      omega
    rw [List.getElem_map, List.getElem_map, List.getElem_ofFn, List.getElem_range]
    simp only [Screen.pixel, Screen.lit, Fin.getElem_fin, hcell]

/-- **The text of the screen does not break down.** -/
theorem picture_eq_some (s : Screen) : picture s = some s.picture := by
  have hrows : (List.range screenHeight).mapM (rowText s) = some s.rowTexts :=
    mapM_eq_some fun y hy => rowText_eq_some (List.mem_range.1 hy)
  rw [picture, hrows]
  rfl

end Chip8.Guarded
