import Mathlib.Data.List.OfFn
import Chip8.Proofs.Collisions
import Chip8.Proofs.Dump

/-!
The screen as text, after whatever has been drawn.

The pixels lie behind each other, row after row. A pair of coordinates is cut to the axes and leads
to one of them; the text is written from the pixels as they lie there, cut where a row ends; and the
lit ones are counted without a look at any coordinate. That the three agree comes from one fact: cut
where a row ends, the pixels are those of the coordinates, from the left and from the top.

* `toChunks_flatten`: rows of one length are found again when all of them are cut in chunks;
* `Change`, `changeAll_blank`, `pixel_changeAll_blank`: a screen shows what was drawn since it was
  last cleared;
* `pixelRows_eq`, `flatten_pixelRows`: the rows of the pixels as they lie behind each other;
* `written_eq`: the text that is written from these rows is the picture;
* `characterAt?_picture`, `count_picture`, `Depicts`: what can be read off the picture;
* `picture_eq_iff`: screens with the same picture have the same pixels;
* `picture_faithful`: all of this together.
-/

namespace Chip8

/-! ### Rows of one length -/

section chunks

variable {α : Type*} {n : Nat} {rows : List (List α)}

/-- Entries go into a chunk as long as it has room for them. -/
lemma toChunks_go_append (row rest : List α) {chunk : Array α} (done : Array (List α))
    (h : chunk.size + row.length ≤ n) :
    List.toChunks.go n (row ++ rest) chunk done =
      List.toChunks.go n rest (chunk ++ row) done := by
  induction row generalizing chunk with
  | nil => simp
  | cons x row ih =>
    rw [List.length_cons] at h
    have hroom : ¬ (chunk.size == n) = true := by
      rw [beq_iff_eq]
      omega
    have hnext : (chunk.push x).size + row.length ≤ n := by
      rw [Array.size_push]
      omega
    rw [List.cons_append, List.toChunks.go, if_neg hroom, ih hnext]
    simp

/-- The chunk that a row begins ends with the row, and the rows behind it are chunks of their
own. -/
lemma toChunks_go_flatten {x : α} {row : List α} (hrow : (x :: row).length = n)
    (hrows : ∀ row ∈ rows, row.length = n) (done : Array (List α)) :
    List.toChunks.go n (row ++ rows.flatten) #[x] done = done.toList ++ (x :: row) :: rows := by
  have hroom {x : α} {row : List α} (h : (x :: row).length = n) :
      (#[x] : Array α).size + row.length ≤ n := by
    rw [← h, List.length_cons, Nat.add_comm]
    rfl
  induction rows generalizing x row done with
  | nil =>
    rw [toChunks_go_append row _ done (hroom hrow)]
    simp [List.toChunks.go]
  | cons next rows ih =>
    obtain ⟨hnext, hrest⟩ := List.forall_mem_cons.1 hrows
    obtain ⟨y, next, rfl⟩ := List.exists_cons_of_length_pos
      (hnext.trans hrow.symm ▸ Nat.zero_lt_succ _ : 0 < next.length)
    have hfull : ((#[x] ++ row).size == n) = true := by
      rw [beq_iff_eq, ← hrow]
      simp
    rw [toChunks_go_append row _ done (hroom hrow), List.flatten_cons, List.cons_append,
      List.toChunks.go, if_pos hfull]
    -- the chunk is full, so the next row begins one of its own
    show List.toChunks.go n (next ++ rows.flatten) #[y] (done.push (#[x] ++ row).toList) = _
    rw [ih hnext hrest]
    simp

/-- **Rows of one length are found again** when the list of all their entries is cut in chunks. -/
lemma toChunks_flatten (hn : 0 < n) (h : ∀ row ∈ rows, row.length = n) :
    rows.flatten.toChunks n = rows := by
  cases rows with
  | nil => exact List.toChunks.eq_1 n
  | cons row rows =>
    obtain ⟨hrow, hrows⟩ := List.forall_mem_cons.1 h
    obtain ⟨x, row, rfl⟩ := List.exists_cons_of_length_pos (hrow ▸ hn)
    rw [List.flatten_cons, List.cons_append, List.toChunks.eq_3 n x _ hn.ne',
      toChunks_go_flatten hrow hrows]
    rfl

end chunks

/-! ### Changes of a screen -/

namespace Screen

/-- What can be done with a screen. -/
inductive Change where
  /-- All pixels go dark. -/
  | clear
  /-- A sprite is drawn. -/
  | draw (drawing : Drawing)

/-- Makes a change. -/
def change (s : Screen) : Change → Screen
  | .clear => blank
  | .draw d => (s.draw d.x d.y d.rows).1

/-- The screen after a list of changes. -/
def changeAll (s : Screen) (changes : List Change) : Screen :=
  changes.foldl change s

/-- The drawings that a change leaves of those before it. -/
def Change.leave (drawings : List Drawing) : Change → List Drawing
  | clear => []
  | draw d => drawings ++ [d]

/-- The drawings since the screen was last cleared. -/
def remaining (changes : List Change) : List Drawing :=
  changes.foldl Change.leave []

variable {s s' : Screen} {x y : Nat}

lemma changeAll_concat (s : Screen) (changes : List Change) (c : Change) :
    s.changeAll (changes ++ [c]) = (s.changeAll changes).change c :=
  List.foldl_concat ..

lemma remaining_concat (changes : List Change) (c : Change) :
    remaining (changes ++ [c]) = c.leave (remaining changes) :=
  List.foldl_concat ..

lemma drawAll_concat (s : Screen) (ds : List Drawing) (d : Drawing) :
    (s.drawAll (ds ++ [d])).1 = ((s.drawAll ds).1.draw d.x d.y d.rows).1 := by
  induction ds generalizing s with
  | nil => rfl
  | cons first rest ih => exact ih (s.draw first.x first.y first.rows).1

/-- **Of a list of changes** the drawings since the screen was last cleared are what counts. -/
lemma changeAll_blank (changes : List Change) :
    blank.changeAll changes = (blank.drawAll (remaining changes)).1 := by
  induction changes using List.reverseRecOn with
  | nil => rfl
  | append_singleton changes c ih =>
    rw [changeAll_concat, ih, remaining_concat]
    cases c with
    | clear => rfl
    | draw d => exact (drawAll_concat blank (remaining changes) d).symm

/-- **A pixel is lit** if of the dots of these drawings an odd number landed on it. -/
lemma pixel_changeAll_blank (changes : List Change) (hx : x < screenWidth) (hy : y < screenHeight) :
    (blank.changeAll changes).pixel x y =
      decide (((remaining changes).map fun d => hits d.x d.y (dots d.rows) x y).sum % 2 = 1) := by
  have hcells (d : Drawing) :
      d.cells.count (Cell.at x y) = hits d.x d.y (dots d.rows) x y := by
    rw [Drawing.cells, landing_eq_map_dots, count_map_cell hx hy]
  rw [changeAll_blank, pixel, (drawAll_eq blank _).1, lit_toggleAll, lit_blank, Bool.false_xor,
    List.count_flatMap]
  simp only [Function.comp_def, hcells]

/-! ### Rows of pixels -/

/-- The pixels as they lie behind each other, cut where a row ends. -/
def pixelRows (s : Screen) : List (List Bool) :=
  s.pixels.toList.toChunks screenWidth

/-- The pixels of a row, by their coordinates. -/
def pixelRow (s : Screen) (y : Nat) : List Bool :=
  (List.range screenWidth).map fun x => s.pixel x y

/-- The pixels lie row after row, and in each row from the left. -/
lemma toList_pixels (s : Screen) :
    s.pixels.toList = ((List.range screenHeight).map s.pixelRow).flatten := by
  have hrange {α : Type} (n : Nat) (f : Nat → α) :
      (List.range n).map f = List.ofFn fun i : Fin n => f i :=
    List.ext_getElem (by simp) (by simp)
  -- within the screen a cell is its row and its column, and nothing is wrapped around
  have hrow (y : Fin 32) :
      s.pixelRow y =
        List.ofFn fun x : Fin 64 =>
          s.lit ⟨y * 64 + x, show (y * 64 + x : Nat) < 2048 by omega⟩ := by
    rw [pixelRow, hrange]
    refine congrArg List.ofFn (funext fun x : Fin 64 => congrArg s.lit (Fin.ext ?_))
    show (x % 64 + y % 32 * 64 : Nat) = y * 64 + x
    omega
  calc s.pixels.toList
      = List.ofFn s.lit := by
        refine List.ext_getElem (by rw [Vector.length_toList, List.length_ofFn]) fun i _ _ => ?_
        rw [Vector.getElem_toList, List.getElem_ofFn]
        rfl
    _ = (List.ofFn fun y : Fin 32 => s.pixelRow y).flatten := by
        rw [@List.ofFn_mul _ 32 64 s.lit]
        simp only [hrow]
    _ = ((List.range screenHeight).map s.pixelRow).flatten := by rw [hrange]

/-- **Cut where a row ends**, the pixels are those of the coordinates, from the top and from the
left. -/
lemma pixelRows_eq (s : Screen) : s.pixelRows = (List.range screenHeight).map s.pixelRow := by
  rw [pixelRows, toList_pixels]
  refine toChunks_flatten (Nat.zero_lt_succ _) fun row hrow => ?_
  obtain ⟨y, -, rfl⟩ := List.mem_map.1 hrow
  rw [pixelRow, List.length_map, List.length_range]

/-- No pixel is lost where the rows are cut. -/
lemma flatten_pixelRows (s : Screen) : s.pixelRows.flatten = s.pixels.toList := by
  rw [pixelRows_eq, toList_pixels]

/-! ### The text of a screen -/

/-- Writes a row behind a text: mark after mark, and then a line feed. -/
def writeRow (text : String) (row : List Bool) : String :=
  (row.foldl (fun text on => text.push (mark on)) text).push '\n'

/-- The text that is written from the pixels as they lie behind each other, row after row. -/
def written (s : Screen) : String :=
  s.pixelRows.foldl writeRow ""

lemma mark_injective : Function.Injective mark := by
  intro on on' h
  cases on <;> cases on' <;> simp_all [mark]

lemma newline_ne_mark (on : Bool) : mark on ≠ '\n' := by
  cases on <;> decide

lemma toList_writeRow (text : String) (row : List Bool) :
    (writeRow text row).toList = text.toList ++ (row.map mark ++ ['\n']) := by
  rw [writeRow, String.toList_push]
  induction row generalizing text with
  | nil => rfl
  | cons on row ih =>
    rw [List.foldl_cons, ih, String.toList_push]
    simp

lemma toList_foldl_writeRow (rows : List (List Bool)) (text : String) :
    (rows.foldl writeRow text).toList =
      text.toList ++ rows.flatMap fun row => row.map mark ++ ['\n'] := by
  induction rows generalizing text with
  | nil => simp
  | cons row rows ih =>
    rw [List.foldl_cons, ih, toList_writeRow, List.flatMap_cons, List.append_assoc]

lemma rowTexts_eq (s : Screen) :
    s.rowTexts = s.pixelRows.map fun row => String.ofList (row.map mark) := by
  rw [pixelRows_eq, rowTexts, List.map_map]
  refine List.map_congr_left fun y _ => ?_
  rw [rowText, Function.comp, pixelRow, List.map_map]
  rfl

lemma toList_picture (s : Screen) :
    s.picture.toList = s.pixelRows.flatMap fun row => row.map mark ++ ['\n'] := by
  rw [picture, rowTexts_eq, unlines, String.toList_join, List.map_map, List.flatMap_map]
  simp

/-- **The text that is written from the pixels** is the picture. -/
lemma written_eq (s : Screen) : s.written = s.picture := by
  rw [← String.toList_inj, written, toList_foldl_writeRow, toList_picture]
  rfl

/-- **As many marks stand for a lit pixel** as pixels are lit. -/
lemma count_picture (s : Screen) : s.picture.toList.count '#' = s.litCount := by
  have hrow (row : List Bool) : (row.map mark ++ ['\n']).count '#' = row.count true := by
    rw [List.count_append]
    exact List.count_map_of_injective row mark mark_injective true
  calc s.picture.toList.count '#'
      = (s.pixelRows.map fun row => (row.map mark ++ ['\n']).count '#').sum := by
        rw [toList_picture, List.count_flatMap]
        rfl
    _ = (s.pixelRows.map (List.count true)).sum := by
        simp only [hrow]
    _ = s.litCount := by
        rw [← List.count_flatten, flatten_pixelRows, litCount]

/-! ### What can be read off -/

/-- The character in column `x` of line `y` of a text. -/
def characterAt? (text : String) (x y : Nat) : Option Char :=
  (text.toList.splitOn '\n')[y]?.bind fun characters => characters[x]?

lemma splitOn_picture (s : Screen) :
    s.picture.toList.splitOn '\n' = s.rowTexts.map String.toList ++ [[]] := by
  refine splitOn_unlines fun line hline => ?_
  obtain ⟨y, -, rfl⟩ := List.mem_map.1 hline
  simp [rowText, newline_ne_mark]

lemma pixel_wrapped (s : Screen) (x y : Nat) :
    s.pixel (x % screenWidth) (y % screenHeight) = s.pixel x y := by
  rw [pixel, pixel, Cell.at_eq_at_iff.2 ⟨Nat.mod_mod .., Nat.mod_mod ..⟩]

/-- **The character at a pair of coordinates**, taken around the axes, is the mark of its pixel. -/
lemma characterAt?_picture (s : Screen) (x y : Nat) :
    characterAt? s.picture (x % screenWidth) (y % screenHeight) = some (mark (s.pixel x y)) := by
  have hx : x % screenWidth < screenWidth := Nat.mod_lt x (Nat.zero_lt_succ _)
  have hy : y % screenHeight < screenHeight := Nat.mod_lt y (Nat.zero_lt_succ _)
  have hline : (s.rowTexts.map String.toList)[y % screenHeight]? =
      some (s.rowText (y % screenHeight)).toList := by
    rw [rowTexts, List.map_map, List.getElem?_map, List.getElem?_range hy]
    rfl
  rw [characterAt?, splitOn_picture,
    List.getElem?_append_left (List.getElem?_eq_some_iff.1 hline).1, hline, Option.bind_some,
    rowText, String.toList_ofList, List.getElem?_map, List.getElem?_range hx, Option.map_some,
    pixel_wrapped]

/-- The text depicts the screen. It has 32 lines of 64 characters, each ended by a line feed; the
character of a pixel says whether it is lit, and coordinates beyond the screen lead to the character
around the axes; the characters for lit pixels are as many as these. -/
structure Depicts (s : Screen) (text : String) : Prop where
  lines : ∃ lines : List (List Char), text.toList.splitOn '\n' = lines ++ [[]] ∧
    lines.length = 32 ∧ ∀ line ∈ lines, line.length = 64
  marks : ∀ x < 64, ∀ y < 32, characterAt? text x y = some (if s.pixel x y then '#' else '.')
  lit : text.toList.count '#' = s.litCount
  around : ∀ x y,
    characterAt? text (x % 64) (y % 32) = some (if s.pixel x y then '#' else '.')

lemma depicts_picture (s : Screen) : s.Depicts s.picture := by
  refine ⟨⟨_, splitOn_picture s, ?_, ?_⟩, fun x hx y hy => ?_, count_picture s,
    characterAt?_picture s⟩
  · rw [List.length_map, rowTexts, List.length_map, List.length_range]
  · intro line hline
    obtain ⟨text, htext, rfl⟩ := List.mem_map.1 hline
    obtain ⟨y, -, rfl⟩ := List.mem_map.1 htext
    rw [rowText, String.toList_ofList, List.length_map, List.length_range]
  · have hplace := characterAt?_picture s x y
    rwa [Nat.mod_eq_of_lt hx, Nat.mod_eq_of_lt hy] at hplace

/-- **Screens with the same picture** are those with the same pixels. -/
lemma picture_eq_iff : s.picture = s'.picture ↔ ∀ x y, s.pixel x y = s'.pixel x y := by
  constructor
  · intro h x y
    refine mark_injective (Option.some.inj ?_)
    rw [← characterAt?_picture, h, characterAt?_picture]
  · intro h
    have hrow : s.rowText = s'.rowText := funext fun y => by simp only [rowText, h]
    rw [picture, picture, rowTexts, rowTexts, hrow]

/-- **The picture is faithful**, whatever has been drawn. On a screen that was blank at first,
after any list of drawings and clearings:

* the text that is written from the pixels, as they lie behind each other, is the picture;
* it has 32 lines of 64 characters, at each place the mark of the pixel there, and as many marks for
  a lit pixel as pixels are lit; a pair of coordinates leads around the axes to its character;
* a pixel is lit if an odd number of dots landed on it since the screen was last cleared.

Two such screens have the same picture exactly if they have the same pixels. Drawings may be
anywhere, near `2 ^ 64` if sums wrap around, see `Screen.draw`. -/
theorem picture_faithful :
    (∀ changes : List Change,
      let s := blank.changeAll changes
      s.written = s.picture ∧
      s.Depicts s.picture ∧
      ∀ x < 64, ∀ y < 32, s.pixel x y =
        decide (((remaining changes).map fun d => hits d.x d.y (dots d.rows) x y).sum % 2 = 1)) ∧
    ∀ changes changes' : List Change,
      (blank.changeAll changes).picture = (blank.changeAll changes').picture ↔
        ∀ x y, (blank.changeAll changes).pixel x y = (blank.changeAll changes').pixel x y := by
  refine ⟨fun changes => ?_, fun changes changes' => picture_eq_iff⟩
  intro s
  exact ⟨written_eq s, depicts_picture s, fun x hx y hy => pixel_changeAll_blank changes hx hy⟩

/-- A bar that is cleared away, then a flag in the last corner of the screen, around both axes, and
a stroke through its foot. -/
def sketch : List Change :=
  [.draw ⟨5, 5, [0xFF]⟩, .clear, .draw ⟨62, 31, [0xE0, 0x80]⟩, .draw ⟨64, 95, [0xC0]⟩]

/-- The stroke puts out the third dot of the flag and lights the pixel next to it. With the flag
alone the picture is another one. -/
theorem picture_faithful_corner :
    let s := blank.changeAll sketch
    s.litCount = 4 ∧ s.picture.toList.count '#' = 4 ∧
    characterAt? s.picture 62 0 = some '#' ∧ characterAt? s.picture 0 31 = some '.' ∧
    characterAt? s.picture (65 % 64) (95 % 32) = some '#' ∧ s.pixel 65 95 = true ∧
    s.picture ≠ (blank.changeAll (sketch.take 3)).picture := by
  intro s
  obtain ⟨hfaithful, hsame⟩ := picture_faithful
  obtain ⟨-, hdepicts, hpixel⟩ := hfaithful sketch
  obtain ⟨-, -, hflag⟩ := hfaithful (sketch.take 3)
  have hlit : s.litCount = 4 := by decide +kernel
  have hfoot : s.pixel 0 31 = false :=
    (hpixel 0 (by omega) 31 (by omega)).trans (by decide +kernel)
  have hnext : s.pixel 65 95 = true := by decide +kernel
  refine ⟨hlit, hdepicts.lit.trans hlit, ?_, ?_, ?_, hnext, fun h => ?_⟩
  · rw [hdepicts.marks 62 (by omega) 0 (by omega), hpixel 62 (by omega) 0 (by omega)]
    decide +kernel
  · rw [hdepicts.marks 0 (by omega) 31 (by omega), hfoot]
    rfl
  · rw [hdepicts.around 65 95, hnext]
    rfl
  · have hfoot' := (hsame sketch (sketch.take 3)).1 h 0 31
    rw [hfoot, hflag 0 (by omega) 31 (by omega)] at hfoot'
    exact absurd hfoot' (by decide +kernel)

end Screen

end Chip8
