import Mathlib.Algebra.Ring.Nat
import Mathlib.Data.List.Perm.Basic
import Chip8.Proofs.Sprites

/-!
What collisions tell.

Each dot of a sprite switches a pixel: a dark one lights up, and a lit one goes out, which is what
a program sees as a collision. So the number of lit pixels grows by the number of dots, less two for
each pixel that goes out on the way. The pixels that are lit in the end do not depend on the order
in which cells are switched, and so neither does the number of those that go out on the way,
although it depends on the order which draw puts them out. Corners may be anywhere; near `2 ^ 64`
the statements are about builds whose sums wrap around, see `Screen.draw`.

* `erasures`, `litCount_toggleAll`: the number of pixels that go out on the way, and what it says
  about the number of lit pixels;
* `toggleAll_perm`: the order in which cells are switched makes no difference;
* `drawAll_eq`: draws one after the other switch the cells of all of them;
* `collision_accounting`: the number of lit pixels tells whether there was a collision;
* `draws_commute_cancel`: draws commute, and cancel themselves.
-/

namespace Chip8

/-! ### Dots and bits -/

/-- The number of set bits of a sprite. -/
def bitCount (rows : List UInt8) : Nat :=
  (rows.map fun row => (List.range spriteWidth).countP row.toNat.testBit).sum

/-- A row has as many columns as it has set bits, from whichever side they are counted. -/
lemma length_setColumns (row : UInt8) :
    (setColumns row).length = (List.range spriteWidth).countP row.toNat.testBit := by
  have hreverse : (List.range spriteWidth).map (7 - ·) = (List.range spriteWidth).reverse := by
    decide
  rw [setColumns, ← List.countP_eq_length_filter, ← List.countP_reverse, ← hreverse,
    List.countP_map]
  rfl

lemma length_landing (x y : Nat) (rows : List UInt8) :
    (landing x y rows).length = bitCount rows := by
  induction rows generalizing y with
  | nil => rfl
  | cons row rows ih =>
    rw [landing, List.length_append, List.length_map, ih, length_setColumns, bitCount, bitCount,
      List.map_cons, List.sum_cons]

lemma bitCount_pos {rows : List UInt8} (h : ∃ row ∈ rows, row ≠ 0) : 0 < bitCount rows := by
  obtain ⟨row, hmem, hne⟩ := h
  obtain ⟨i, hi⟩ := Nat.exists_testBit_of_ne_zero fun h0 => hne (UInt8.toNat_inj.1 h0)
  have hlt : i < spriteWidth := by
    by_contra hge
    have hbound : row.toNat < 2 ^ i :=
      Nat.lt_of_lt_of_le row.toNat_lt (Nat.pow_le_pow_right (by decide) (Nat.not_lt.1 hge))
    rw [Nat.testBit_lt_two_pow hbound] at hi
    exact absurd hi (by decide)
  refine List.sum_pos_iff_exists_pos_nat.2 ⟨_, List.mem_map_of_mem hmem, ?_⟩
  exact List.countP_pos_iff.2 ⟨i, List.mem_range.2 hlt, hi⟩

namespace Screen

variable {cells cells' : List Cell}

/-! ### Pixels that go out -/

/-- How many pixels go out while cell after cell is switched. -/
def erasures : Screen → List Cell → Nat
  | _, [] => 0
  | s, c :: rest => (s.lit c).toNat + erasures (s.toggle c) rest

lemma litCount_toggle (s : Screen) (c : Cell) :
    (s.toggle c).litCount + 2 * (s.lit c).toNat = s.litCount + 1 := by
  have hlen : (c : Nat) < s.pixels.toList.length := by
    rw [Vector.length_toList]
    exact c.isLt
  have hget : s.pixels.toList[(c : Nat)] = s.lit c := Vector.getElem_toList hlen
  have hcount : (s.toggle c).litCount =
      s.litCount - (if s.lit c == true then 1 else 0) + if (!s.lit c) == true then 1 else 0 := by
    rw [litCount, toggle, Vector.toList_set, List.count_set hlen, hget]
    rfl
  rw [hcount]
  cases h : s.lit c with
  | false => rfl
  | true =>
    have hpos : 0 < s.litCount := List.count_pos_iff.2 (h ▸ hget ▸ List.getElem_mem hlen)
    show s.litCount - 1 + 0 + 2 * 1 = s.litCount + 1
    omega

/-- **The number of lit pixels** grows by the number of switched cells, less two for each pixel that
goes out on the way. -/
theorem litCount_toggleAll (s : Screen) (cells : List Cell) :
    (s.toggleAll cells).1.litCount + 2 * s.erasures cells = s.litCount + cells.length := by
  induction cells generalizing s with
  | nil => rfl
  | cons c rest ih =>
    have hfirst := litCount_toggle s c
    have hrest := ih (s.toggle c)
    rw [erasures, List.length_cons]
    show ((s.toggle c).toggleAll rest).1.litCount + _ = _
    omega

/-- A pixel goes out on the way exactly if the number of those is not zero. -/
lemma toggleAll_erases_iff_pos (s : Screen) (cells : List Cell) :
    (s.toggleAll cells).2 = true ↔ 0 < s.erasures cells := by
  induction cells generalizing s with
  | nil => simp [toggleAll, erasures]
  | cons c rest ih =>
    rw [toggleAll, erasures, Bool.or_eq_true, ih]
    cases s.lit c with
    | false => simp
    | true => exact ⟨fun _ => Nat.add_pos_left Nat.one_pos _, fun _ => .inl rfl⟩

/-! ### Order -/

lemma toggleAll_fst_perm (s : Screen) (h : cells.Perm cells') :
    (s.toggleAll cells).1 = (s.toggleAll cells').1 :=
  ext_lit fun c => by rw [lit_toggleAll, lit_toggleAll, h.count_eq]

/-- **The order in which cells are switched makes no difference**, neither to the screen nor to
whether a pixel goes out on the way: as many go out as the lit pixels are short of the cells. -/
theorem toggleAll_perm (s : Screen) (h : cells.Perm cells') :
    s.toggleAll cells = s.toggleAll cells' := by
  have hscreen := toggleAll_fst_perm s h
  have hcount := litCount_toggleAll s cells
  have hcount' := litCount_toggleAll s cells'
  rw [hscreen, h.length_eq] at hcount
  have herasures : s.erasures cells = s.erasures cells' := by omega
  refine Prod.ext hscreen (Bool.eq_iff_iff.2 ?_)
  rw [toggleAll_erases_iff_pos, toggleAll_erases_iff_pos, herasures]

lemma toggleAll_twice_fst (s : Screen) (cells : List Cell) :
    (s.toggleAll (cells ++ cells)).1 = s := by
  refine ext_lit fun c => ?_
  rw [lit_toggleAll, List.count_append, ← Nat.two_mul, Nat.mul_mod_right]
  simp

/-- When cells are switched twice, each of them goes out one of the two times. -/
lemma erasures_twice (s : Screen) (cells : List Cell) :
    s.erasures (cells ++ cells) = cells.length := by
  have hcount := litCount_toggleAll s (cells ++ cells)
  rw [toggleAll_twice_fst, List.length_append] at hcount
  omega

end Screen

/-! ### Draws one after the other -/

/-- A sprite and the place of its corner. -/
structure Drawing where
  x : Nat
  y : Nat
  rows : List UInt8

/-- The cells that a drawing switches. -/
def Drawing.cells (d : Drawing) : List Cell :=
  landing d.x d.y d.rows

namespace Screen

/-- Draws one sprite after the other, and tells of each whether a pixel went out. -/
def drawAll : Screen → List Drawing → Screen × List Bool
  | s, [] => (s, [])
  | s, d :: rest =>
    let drawn := s.draw d.x d.y d.rows
    let after := drawAll drawn.1 rest
    (after.1, drawn.2 :: after.2)

/-- Several sprites land on as many cells as they have set bits together. -/
lemma length_flatMap_cells (ds : List Drawing) :
    (ds.flatMap Drawing.cells).length = (ds.map fun d => bitCount d.rows).sum := by
  rw [List.length_flatMap]
  exact congrArg List.sum (List.map_congr_left fun d _ => length_landing d.x d.y d.rows)

lemma litCount_blank : blank.litCount = 0 := by
  rw [litCount, blank, Vector.toList_replicate, List.count_replicate]
  rfl

lemma or_eq_true_iff {results : List Bool} : results.or = true ↔ true ∈ results := by
  simp [List.or]

/-- **Draws one after the other switch the cells of all of them**, and one of them collides exactly
if a pixel goes out on the way. -/
theorem drawAll_eq (s : Screen) (ds : List Drawing) :
    (s.drawAll ds).1 = (s.toggleAll (ds.flatMap Drawing.cells)).1 ∧
      (s.drawAll ds).2.or = (s.toggleAll (ds.flatMap Drawing.cells)).2 := by
  induction ds generalizing s with
  | nil => exact ⟨rfl, rfl⟩
  | cons d rest ih =>
    obtain ⟨hscreen, hor⟩ := ih (s.draw d.x d.y d.rows).1
    rw [List.flatMap_cons, toggleAll_append]
    exact ⟨hscreen, congrArg ((s.draw d.x d.y d.rows).2 || ·) hor⟩

/-- **Collisions and lit pixels.** When a sprite is drawn, the number of lit pixels grows by the
number of its set bits, less two for each of some number of pixels, and it collides exactly if this
number is not zero. So a sprite does not collide exactly if there are as many more lit pixels as it
has set bits; and of several sprites on a blank screen none collides exactly if in the end as many
pixels are lit as they have set bits together. This is for all corners, near `2 ^ 64` if sums wrap
around. -/
theorem collision_accounting :
    (∀ (s : Screen) (x y : Nat) (rows : List UInt8),
      (∃ erased, (s.draw x y rows).1.litCount + 2 * erased = s.litCount + bitCount rows ∧
        ((s.draw x y rows).2 = true ↔ 0 < erased)) ∧
      ((s.draw x y rows).2 = false ↔
        (s.draw x y rows).1.litCount = s.litCount + bitCount rows)) ∧
    (∀ ds : List Drawing,
      true ∉ (blank.drawAll ds).2 ↔
        (blank.drawAll ds).1.litCount = (ds.map fun d => bitCount d.rows).sum) := by
  refine ⟨fun s x y rows => ?_, fun ds => ?_⟩
  · -- every toggle lights a pixel or puts one out, and the sprite erases if any puts one out
    have hcount := litCount_toggleAll s (landing x y rows)
    have herases := toggleAll_erases_iff_pos s (landing x y rows)
    rw [length_landing] at hcount
    refine ⟨⟨_, hcount, herases⟩, ?_⟩
    rw [← Bool.not_eq_true, draw, herases]
    omega
  · have hcount := litCount_toggleAll blank (ds.flatMap Drawing.cells)
    have herases := toggleAll_erases_iff_pos blank (ds.flatMap Drawing.cells)
    obtain ⟨hscreen, hor⟩ := drawAll_eq blank ds
    rw [litCount_blank, length_flatMap_cells] at hcount
    rw [← or_eq_true_iff, hor, hscreen, herases]
    omega

/-- **Draws commute and cancel.** Of two draws in either order the screen is the same in the end,
and one of them collides in the one order exactly if one does in the other. A sprite that is drawn
twice leaves the screen as it was, and if it has a set bit, one of the two draws collides. The order
of any number of draws makes no difference to the screen, nor to whether one of them collides. This
is for all corners, near `2 ^ 64` if sums wrap around. -/
theorem draws_commute_cancel (s : Screen) :
    (∀ x y rows x' y' rows',
      ((s.draw x y rows).1.draw x' y' rows').1 = ((s.draw x' y' rows').1.draw x y rows).1 ∧
      ((s.draw x y rows).2 || ((s.draw x y rows).1.draw x' y' rows').2) =
        ((s.draw x' y' rows').2 || ((s.draw x' y' rows').1.draw x y rows).2)) ∧
    (∀ x y rows,
      ((s.draw x y rows).1.draw x y rows).1 = s ∧
      ((∃ row ∈ rows, row ≠ 0) →
        ((s.draw x y rows).2 || ((s.draw x y rows).1.draw x y rows).2) = true)) ∧
    (∀ ds ds' : List Drawing, ds.Perm ds' →
      (s.drawAll ds).1 = (s.drawAll ds').1 ∧ (s.drawAll ds).2.or = (s.drawAll ds').2.or) := by
  refine ⟨fun x y rows x' y' rows' => ?_, fun x y rows => ?_, fun ds ds' h => ?_⟩
  · -- drawing is toggling cells, and the order of toggles does not count
    have hswap := toggleAll_perm s
      (@List.perm_append_comm _ (landing x y rows) (landing x' y' rows'))
    rw [toggleAll_append, toggleAll_append] at hswap
    exact Prod.mk.inj hswap
  · have htwice := toggleAll_append s (landing x y rows) (landing x y rows)
    refine ⟨?_, fun hset => ?_⟩
    · exact (congrArg Prod.fst htwice).symm.trans (toggleAll_twice_fst s _)
    · -- of two toggles of one cell exactly one puts it out, so there are as many as bits
      refine (congrArg Prod.snd htwice).symm.trans ((toggleAll_erases_iff_pos s _).2 ?_)
      rw [erasures_twice, length_landing]
      exact bitCount_pos hset
  · obtain ⟨hscreen, hor⟩ := drawAll_eq s ds
    obtain ⟨hscreen', hor'⟩ := drawAll_eq s ds'
    rw [hscreen, hscreen', hor, hor', toggleAll_perm s (h.flatMap_right Drawing.cells)]
    exact ⟨rfl, rfl⟩

/-- A bar of two dots. -/
def bar : Drawing :=
  ⟨0, 0, [0xC0]⟩

/-- A post of two dots whose upper one is the right one of the bar. -/
def post : Drawing :=
  ⟨1, 0, [0x80, 0x80]⟩

/-- Which of three draws collides depends on their order; that one of them does, and what is on the
screen in the end, does not. -/
theorem draws_commute_cancel_crossing :
    (blank.drawAll [bar, post, bar]).2 = [false, true, true] ∧
    (blank.drawAll [bar, bar, post]).2 = [false, true, false] ∧
    (blank.drawAll [bar, post, bar]).1 = (blank.drawAll [bar, bar, post]).1 ∧
    (blank.drawAll [bar, post, bar]).2.or = (blank.drawAll [bar, bar, post]).2.or ∧
    ((blank.draw 0 0 [0xC0]).1.draw 0 0 [0xC0]).1 = blank ∧
    ((blank.draw 0 0 [0xC0]).2 || ((blank.draw 0 0 [0xC0]).1.draw 0 0 [0xC0]).2) = true := by
  obtain ⟨-, hcancel, hperm⟩ := draws_commute_cancel blank
  obtain ⟨hscreen, hor⟩ := hperm [bar, post, bar] [bar, bar, post] (.cons bar (.swap bar post []))
  obtain ⟨hrestored, hcollides⟩ := hcancel 0 0 [0xC0]
  refine ⟨by decide +kernel, by decide +kernel, hscreen, hor, hrestored, ?_⟩
  exact hcollides ⟨0xC0, List.mem_singleton_self _, by decide⟩

end Screen

end Chip8
