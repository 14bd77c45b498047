import Mathlib.Data.List.Count
import Mathlib.Data.List.Nodup
import Chip8.Screen

/-!
What drawing a sprite does to the screen.

A sprite has a dot for each set bit of its rows. Drawing it goes through the dots, row after row
and in each row from the left, and each of them switches the pixel that it lands on. What becomes
of a pixel depends on the parity of the dots on it alone. A dot puts its pixel out if the pixel is
lit at the moment when the scan comes to it; in a sprite that is no higher than the screen no two
dots land on one pixel, and then this is so if the pixel was lit before.

* `dots`, `landing_eq_map_dots`: a sprite lands where its dots do;
* `lit_toggleAll`: a cell is switched as often as it is visited;
* `toggleAll_erases_iff`, `toggleAll_erases_iff_of_nodup`: when a pixel goes out on the way;
* `nodup_landing`: a sprite that is no higher than the screen visits no cell twice;
* `draw_exact`: all of this together, pixel by pixel.
-/

namespace Chip8

/-! ### Dots -/

/-- A place in a sprite: rows from the top, columns from the left. -/
structure Dot where
  row : Nat
  column : Nat
  deriving DecidableEq, Repr

namespace Dot

/-- The bit at the place is set; the leftmost bit of a row is the most significant one. -/
def IsSet (rows : List UInt8) (d : Dot) : Prop :=
  (rows.getD d.row 0).toNat.testBit (7 - d.column) = true

instance (rows : List UInt8) (d : Dot) : Decidable (d.IsSet rows) :=
  inferInstanceAs (Decidable (_ = _))

/-- The cell of the place when the corner of the sprite is at `(x, y)`. -/
def cell (x y : Nat) (d : Dot) : Cell :=
  Cell.at (x + d.column) (y + d.row)

/-- When the corner of the sprite is at `(x₀, y₀)`, the place is that of the pixel in column `x`
and row `y`, around both axes. -/
def LandsOn (x₀ y₀ : Nat) (d : Dot) (x y : Nat) : Prop :=
  (x₀ + d.column) % screenWidth = x ∧ (y₀ + d.row) % screenHeight = y

instance (x₀ y₀ : Nat) (d : Dot) (x y : Nat) : Decidable (d.LandsOn x₀ y₀ x y) :=
  inferInstanceAs (Decidable (_ ∧ _))

/-- The same place when the sprite has one more row on top. -/
def below (d : Dot) : Dot :=
  ⟨d.row + 1, d.column⟩

end Dot

/-- The places of a sprite of some height, row after row and in each row from the left. -/
def places (height : Nat) : List Dot :=
  (List.range height).flatMap fun r => (List.range spriteWidth).map (Dot.mk r)

/-- The dots of a sprite, which are its set bits, in the order of the scan. -/
def dots (rows : List UInt8) : List Dot :=
  (places rows.length).filter (·.IsSet rows)

/-- How many of the dots land on the pixel in column `x` and row `y`. -/
def hits (x₀ y₀ : Nat) (ds : List Dot) (x y : Nat) : Nat :=
  ds.countP (·.LandsOn x₀ y₀ x y)

variable {x y x₀ y₀ height : Nat} {row : UInt8} {rows : List UInt8} {d : Dot} {ds : List Dot}

lemma mem_places : d ∈ places height ↔ d.row < height ∧ d.column < spriteWidth := by
  obtain ⟨r, c⟩ := d
  simp [places]

lemma nodup_places (height : Nat) : (places height).Nodup := by
  rw [places, List.nodup_flatMap]
  refine ⟨fun r _ => List.nodup_range.map fun c c' h => (Dot.mk.inj h).2, ?_⟩
  refine List.nodup_range.imp fun hne => ?_
  intro d hd hd'
  obtain ⟨c, -, rfl⟩ := List.mem_map.1 hd
  obtain ⟨c', -, h⟩ := List.mem_map.1 hd'
  exact hne (Dot.mk.inj h).1.symm

lemma nodup_dots (rows : List UInt8) : (dots rows).Nodup :=
  (nodup_places _).filter _

lemma mem_dots : d ∈ dots rows ↔ (d.row < rows.length ∧ d.column < spriteWidth) ∧ d.IsSet rows := by
  rw [dots, List.mem_filter, mem_places, decide_eq_true_iff]

lemma dots_cons (row : UInt8) (rows : List UInt8) :
    dots (row :: rows) = (setColumns row).map (Dot.mk 0) ++ (dots rows).map Dot.below := by
  have hplaces : places (rows.length + 1) =
      (List.range spriteWidth).map (Dot.mk 0) ++ (places rows.length).map Dot.below := by
    rw [places, @List.range_succ_eq_map rows.length, List.flatMap_cons, List.flatMap_map, places,
      List.map_flatMap]
    simp only [List.map_map]
    rfl
  have hfirst : (fun d : Dot => decide (d.IsSet (row :: rows))) ∘ Dot.mk 0 =
      fun c => row.toNat.testBit (7 - c) :=
    funext fun _ => Bool.decide_eq_true
  rw [dots, List.length_cons, hplaces, List.filter_append, List.filter_map, List.filter_map, hfirst]
  rfl

/-- **A sprite lands where its dots do**, one after the other. -/
theorem landing_eq_map_dots (x y : Nat) (rows : List UInt8) :
    landing x y rows = (dots rows).map (Dot.cell x y) := by
  induction rows generalizing y with
  | nil => rfl
  | cons row rows ih =>
    rw [landing, ih, dots_cons, List.map_append, List.map_map, List.map_map]
    congr 2
    funext d
    simp only [Function.comp, Dot.cell, Dot.below]
    congr 1
    omega

/-! ### Cells -/

lemma Cell.at_eq_at_iff {x y x' y' : Nat} :
    Cell.at x y = Cell.at x' y' ↔
      x % screenWidth = x' % screenWidth ∧ y % screenHeight = y' % screenHeight := by
  rw [Fin.ext_iff]
  show x % 64 + y % 32 * 64 = x' % 64 + y' % 32 * 64 ↔ x % 64 = x' % 64 ∧ y % 32 = y' % 32
  omega

/-- Of the pixels of the screen a dot lands on the one whose cell is its own. -/
lemma Dot.cell_eq_iff (hx : x < screenWidth) (hy : y < screenHeight) :
    d.cell x₀ y₀ = Cell.at x y ↔ d.LandsOn x₀ y₀ x y := by
  rw [Dot.cell, Cell.at_eq_at_iff, Nat.mod_eq_of_lt hx, Nat.mod_eq_of_lt hy, Dot.LandsOn]

lemma count_map_cell (hx : x < screenWidth) (hy : y < screenHeight) :
    (ds.map (Dot.cell x₀ y₀)).count (Cell.at x y) = hits x₀ y₀ ds x y := by
  rw [List.count, List.countP_map, hits]
  refine List.countP_congr fun d _ => ?_
  rw [Function.comp, beq_iff_eq, Dot.cell_eq_iff hx hy, decide_eq_true_iff]

lemma landing_wrapped (x y : Nat) (rows : List UInt8) :
    landing (x % screenWidth) (y % screenHeight) rows = landing x y rows := by
  rw [landing_eq_map_dots, landing_eq_map_dots]
  refine List.map_congr_left fun d _ => ?_
  rw [Dot.cell, Dot.cell, Cell.at_eq_at_iff]
  exact ⟨Nat.mod_add_mod .., Nat.mod_add_mod ..⟩

/-- **A sprite that is no higher than the screen visits no cell twice**: its columns are
fewer than those of the screen, and so are its rows. -/
theorem nodup_landing (h : rows.length ≤ screenHeight) : (landing x y rows).Nodup := by
  rw [landing_eq_map_dots]
  refine (nodup_dots rows).map_on fun d hd e he hcell => ?_
  obtain ⟨⟨hdr, hdc⟩, -⟩ := mem_dots.1 hd
  obtain ⟨⟨her, hec⟩, -⟩ := mem_dots.1 he
  obtain ⟨hx, hy⟩ := Cell.at_eq_at_iff.1 hcell
  obtain ⟨r, c⟩ := d
  obtain ⟨r', c'⟩ := e
  have hh : screenHeight = 32 := rfl
  have hw : screenWidth = 64 := rfl
  have hs : spriteWidth = 8 := rfl
  simp only [hh, hw, hs, Dot.mk.injEq] at *
  omega

/-! ### Switching cells -/

namespace Screen

variable {s : Screen} {c : Cell} {cells : List Cell}

/-- **A cell is switched as often as it is visited.** -/
theorem lit_toggleAll (s : Screen) (cells : List Cell) (c : Cell) :
    (s.toggleAll cells).1.lit c = (s.lit c ^^ decide (cells.count c % 2 = 1)) := by
  induction cells generalizing s with
  | nil => simp [toggleAll]
  | cons a rest ih =>
    rw [toggleAll, ih, lit_toggle, List.count_cons, Bool.xor_assoc]
    congr 1
    by_cases h : c = a
    · subst h
      rw [if_pos (BEq.refl c), decide_eq_true rfl]
      rcases Nat.mod_two_eq_zero_or_one (rest.count c) with h | h <;> simp [Nat.add_mod, h]
    · have hne : (a == c) = false := by simpa using Ne.symm h
      simp [h, hne]

/-- **A pixel goes out on the way** if at some moment the scan comes to a pixel that is lit
then. -/
theorem toggleAll_erases_iff :
    (s.toggleAll cells).2 = true ↔
      ∃ before c after, cells = before ++ c :: after ∧
        (s.toggleAll before).1.lit c = true := by
  induction cells generalizing s with
  | nil => simp [toggleAll]
  | cons a rest ih =>
    rw [toggleAll, Bool.or_eq_true, ih]
    constructor
    · rintro (h | ⟨before, c, after, rfl, h⟩)
      · exact ⟨[], a, rest, rfl, h⟩
      · exact ⟨a :: before, c, after, rfl, h⟩
    · rintro ⟨before, c, after, heq, h⟩
      cases before with
      | nil =>
        obtain ⟨rfl, rfl⟩ : a = c ∧ rest = after := by simpa using heq
        exact .inl h
      | cons b before =>
        obtain ⟨rfl, rfl⟩ : a = b ∧ rest = before ++ c :: after := by simpa using heq
        exact .inr ⟨before, c, after, rfl, h⟩

/-- **Where no cell comes twice** a pixel goes out if one of the cells was lit before. -/
theorem toggleAll_erases_iff_of_nodup (nodup : cells.Nodup) :
    (s.toggleAll cells).2 = true ↔ ∃ c ∈ cells, s.lit c = true := by
  have hmoment {before after : List Cell} {c : Cell} (h : cells = before ++ c :: after) :
      (s.toggleAll before).1.lit c = s.lit c := by
    have hc : c ∉ before := fun hc =>
      (List.nodup_append.1 (h ▸ nodup)).2.2 c hc c List.mem_cons_self rfl
    rw [lit_toggleAll, List.count_eq_zero.2 hc]
    simp
  rw [toggleAll_erases_iff]
  constructor
  · rintro ⟨before, c, after, h, hlit⟩
    exact ⟨c, h ▸ List.mem_append_right _ List.mem_cons_self, hmoment h ▸ hlit⟩
  · rintro ⟨c, hc, hlit⟩
    obtain ⟨before, after, h⟩ := List.append_of_mem hc
    exact ⟨before, c, after, h, (hmoment h).trans hlit⟩

/-! ### The scan of a sprite -/

/-- The screen at the moment when the scan of a sprite has come past the given dots: each of them
has switched its pixel. -/
def scanned (s : Screen) (x y : Nat) (ds : List Dot) : Screen :=
  ds.foldl (fun s d => s.toggle (d.cell x y)) s

lemma scanned_eq (s : Screen) (x y : Nat) (ds : List Dot) :
    s.scanned x y ds = (s.toggleAll (ds.map (Dot.cell x y))).1 := by
  induction ds generalizing s with
  | nil => rfl
  | cons d ds ih => exact ih (s.toggle (d.cell x y))

/-- **A pixel of the drawn screen** is the old one, switched by each dot on it. -/
theorem pixel_draw (s : Screen) (x₀ y₀ : Nat) (rows : List UInt8) (hx : x < screenWidth)
    (hy : y < screenHeight) :
    (s.draw x₀ y₀ rows).1.pixel x y =
      (s.pixel x y ^^ decide (hits x₀ y₀ (dots rows) x y % 2 = 1)) := by
  rw [draw, landing_eq_map_dots, pixel, lit_toggleAll, count_map_cell hx hy, pixel]

/-- A sprite erases if at some moment a dot lands on a pixel that is lit then. -/
lemma draw_erases_iff :
    (s.draw x₀ y₀ rows).2 = true ↔
      ∃ before d after, dots rows = before ++ d :: after ∧
        (s.scanned x₀ y₀ before).pixel (x₀ + d.column) (y₀ + d.row) = true := by
  rw [draw, landing_eq_map_dots, toggleAll_erases_iff]
  constructor
  · rintro ⟨before, c, after, h, hlit⟩
    obtain ⟨ds, ds', hds, rfl, hc⟩ := List.map_eq_append_iff.1 h
    obtain ⟨d, ds', rfl, rfl, rfl⟩ := List.map_eq_cons_iff.1 hc
    exact ⟨ds, d, ds', hds, scanned_eq s x₀ y₀ ds ▸ hlit⟩
  · rintro ⟨ds, d, ds', hds, hlit⟩
    refine ⟨ds.map (Dot.cell x₀ y₀), d.cell x₀ y₀, ds'.map (Dot.cell x₀ y₀), ?_, ?_⟩
    · rw [hds, List.map_append, List.map_cons]
    · exact scanned_eq s x₀ y₀ ds ▸ hlit

/-- A sprite that is no higher than the screen erases if a dot lands on a pixel that was lit. -/
lemma draw_erases_iff_of_le (h : rows.length ≤ screenHeight) :
    (s.draw x₀ y₀ rows).2 = true ↔
      ∃ d ∈ dots rows, s.pixel (x₀ + d.column) (y₀ + d.row) = true := by
  rw [draw, toggleAll_erases_iff_of_nodup (nodup_landing h), landing_eq_map_dots]
  simp only [List.mem_map, exists_exists_and_eq_and]
  rfl

/-- Then it erases if a pixel that was lit is dark afterwards. -/
lemma draw_erases_iff_went_out (h : rows.length ≤ screenHeight) :
    (s.draw x₀ y₀ rows).2 = true ↔ ∃ c, s.lit c = true ∧ (s.draw x₀ y₀ rows).1.lit c = false := by
  -- a low sprite toggles no cell twice, so what it puts out stays out
  have hnodup := nodup_landing (x := x₀) (y := y₀) h
  rw [draw, toggleAll_erases_iff_of_nodup hnodup]
  constructor
  · rintro ⟨c, hc, hlit⟩
    refine ⟨c, hlit, ?_⟩
    rw [lit_toggleAll, hlit, List.count_eq_one_of_mem hnodup hc]
    rfl
  · rintro ⟨c, hlit, hdark⟩
    refine ⟨c, ?_, hlit⟩
    by_contra hc
    rw [lit_toggleAll, hlit, List.count_eq_zero.2 hc] at hdark
    simp at hdark

/-- **Drawing a sprite is exact.** Each pixel is the old one, switched by the parity of the set bits
that land on it around both axes; one that no bit lands on stays as it is. Only the place of the
corner on the screen counts. The sprite erases exactly if at some moment of the scan, which goes
row after row from the left, a set bit lands on a pixel that is lit then; if the sprite is no higher
than the screen, this is so exactly if a set bit lands on a pixel that was lit before. The corner
may be anywhere, near `2 ^ 64` if sums wrap around, see `Screen.draw`. -/
theorem draw_exact (s : Screen) (x₀ y₀ : Nat) (rows : List UInt8) :
    (∀ x < screenWidth, ∀ y < screenHeight,
      (s.draw x₀ y₀ rows).1.pixel x y =
        (s.pixel x y ^^ decide (hits x₀ y₀ (dots rows) x y % 2 = 1))) ∧
    (∀ x < screenWidth, ∀ y < screenHeight, (∀ d ∈ dots rows, ¬ d.LandsOn x₀ y₀ x y) →
      (s.draw x₀ y₀ rows).1.pixel x y = s.pixel x y) ∧
    s.draw (x₀ % screenWidth) (y₀ % screenHeight) rows = s.draw x₀ y₀ rows ∧
    ((s.draw x₀ y₀ rows).2 = true ↔
      ∃ before d after, dots rows = before ++ d :: after ∧
        (s.scanned x₀ y₀ before).pixel (x₀ + d.column) (y₀ + d.row) = true) ∧
    (rows.length ≤ screenHeight →
      ((s.draw x₀ y₀ rows).2 = true ↔
        ∃ d ∈ dots rows, s.pixel (x₀ + d.column) (y₀ + d.row) = true)) := by
  refine ⟨fun x hx y hy => pixel_draw s x₀ y₀ rows hx hy, fun x hx y hy missed => ?_, ?_,
    draw_erases_iff, draw_erases_iff_of_le⟩
  · have hnone : hits x₀ y₀ (dots rows) x y = 0 :=
      List.countP_eq_zero.2 fun d hd => by simpa using missed d hd
    rw [pixel_draw s x₀ y₀ rows hx hy, hnone]
    simp
  · rw [draw, draw, landing_wrapped]

/-- The top and the foot of a tower that is one row higher than the screen. -/
def tower : List UInt8 :=
  0x81 :: .replicate 30 0 ++ [0x81, 0x81]

/-- In the first row of the screen its top and its foot land on the same pixels, so these are hit
twice, and on a blank screen the tower collides with itself; without its last row it does not. Its
right side has come around to column 3. -/
theorem draw_exact_folded :
    hits 60 0 (dots tower) 3 0 = 2 ∧ (blank.draw 60 0 tower).1.pixel 3 0 = false ∧
    hits 60 0 (dots tower) 3 31 = 1 ∧ (blank.draw 60 0 tower).1.pixel 3 31 = true ∧
    (blank.draw 60 0 tower).1.pixel 4 31 = false ∧
    blank.draw (60 + 64) (0 + 32) tower = blank.draw 60 0 tower ∧
    (blank.draw 60 0 tower).2 = true ∧ (blank.draw 60 0 (tower.take 32)).2 ≠ true := by
  obtain ⟨hpixel, hmissed, -, herases, -⟩ := draw_exact blank 60 0 tower
  obtain ⟨-, -, haround, -⟩ := draw_exact blank (60 + 64) (0 + 32) tower
  obtain ⟨-, -, -, -, hlow⟩ := draw_exact blank 60 0 (tower.take 32)
  have htwice : hits 60 0 (dots tower) 3 0 = 2 := by decide +kernel
  have honce : hits 60 0 (dots tower) 3 31 = 1 := by decide +kernel
  refine ⟨htwice, ?_, honce, ?_, ?_, haround.symm, ?_, ?_⟩
  · rw [hpixel 3 (by decide) 0 (by decide), htwice]
    simp [pixel]
  · rw [hpixel 3 (by decide) 31 (by decide), honce]
    simp [pixel]
  · rw [hmissed 4 (by decide) 31 (by decide) (by decide +kernel)]
    simp [pixel]
  · -- the first dot of the last row lands on the first dot of all
    exact herases.2 ⟨(dots tower).take 4, ⟨32, 0⟩, [⟨32, 7⟩], by decide +kernel, by decide +kernel⟩
  · rw [Ne, hlow (by decide)]
    simp [pixel]

end Screen

end Chip8
