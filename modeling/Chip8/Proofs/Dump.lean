import Mathlib.Data.List.Forall2
import Chip8.Host.Random
import Chip8.Listing.Dump
import Chip8.Proofs.Listing
import Chip8.Proofs.Loading

/-!
The program area as it is shown.

The lines that show the program area have an address and the digits of the bytes there, and nothing
else. The bytes can be read back from them, whatever lies in memory and however many are asked for.
The listing of a program is written from other data, by a cursor that moves through the program, but
right after the program is loaded its lines go on where these lines end.

* `splitOn_unlines`: lines are found again in their text;
* `Memory.programArea_eq`: the bytes that are shown;
* `toList_head`, `address_head`, `digits_head`, `head_prefix_assembly`: the line of a row;
* `Line.Displays`, `displays_of_getElem?`: what a line displays;
* `dump_agrees`: all of this together.
-/

namespace Chip8

/-! ### Lines of a text -/

/-- Lines without a line feed are found again in their text, which ends with the last line feed. -/
lemma splitOn_unlines {lines : List String} (h : ∀ line ∈ lines, '\n' ∉ line.toList) :
    (unlines lines).toList.splitOn '\n' = lines.map String.toList ++ [[]] := by
  induction lines with
  | nil => rfl
  | cons line rest ih =>
    rw [List.forall_mem_cons] at h
    have htext : (unlines (line :: rest)).toList =
        line.toList ++ '\n' :: (unlines rest).toList := by
      simp [unlines, String.toList_join]
    rw [htext, List.splitOn_append_cons_self_of_not_mem h.1, ih h.2]
    rfl

/-! ### The bytes that are shown -/

/-- **What is shown of the program area** are its first bytes, all of them if there are no more. -/
lemma Memory.programArea_eq (m : Memory) (count : Nat) :
    m.programArea count =
      (List.ofFn fun k : Fin (min count programCapacity) => m.byte (programStart + k)).toArray := by
  have hend : min (programStart + count) memorySize - programStart = min count programCapacity := by
    show min (512 + count) 4096 - 512 = min count 3584
    omega
  apply Array.ext
  · rw [programArea, Array.size_extract, Vector.size_toArray, List.size_toArray, List.length_ofFn,
      Nat.min_eq_left (Nat.min_le_right _ _), hend]
  · intro k hk _
    have hplace : programStart + k < memorySize := by
      rw [programArea, Array.size_extract] at hk
      omega
    simp [programArea, byte, hplace]

/-! ### The line of a row -/

section head

variable {r : Row}

/-- What stands in a line: address and bytes. -/
lemma toList_head (r : Row) :
    r.head.toList = (Hex.address r.address).toList ++ ':' :: ' ' :: digitsOf r.bytes := by
  simp [Row.head, digitsOf, List.flatMap_map, String.toList_join]

lemma address_head (r : Row) : Line.address r.head = (Hex.address r.address).toList :=
  Line.address_eq (toList_head r)

lemma digits_head (h : digitsOf r.bytes ≠ []) : Line.digits r.head = digitsOf r.bytes := by
  have hdigits : ' ' ∉ digitsOf r.bytes := not_mem_digitsOf (by decide) r.bytes
  rw [Line.digits, toList_head, Line.columns_address, Line.columns_of_not_mem hdigits h]
  rfl

lemma newline_not_mem_head (r : Row) : '\n' ∉ r.head.toList := by
  have hnewline : ∀ k < 16, Hex.digit k ≠ '\n' := by decide
  rw [toList_head]
  simp [not_mem_address hnewline, not_mem_digitsOf hnewline r.bytes]

/-- **The line of a row starts its line in a listing.** -/
lemma head_prefix_assembly (r : Row) : r.head.toList <+: r.assembly.toList := by
  rw [Row.assembly, String.toList_append]
  exact List.prefix_append _ _

end head

/-! ### What a line displays -/

lemma digitsOf_eq (bytes : List UInt8) :
    digitsOf bytes =
      bytes.flatMap fun b => ((Nat.toDigits 16 b.toNat).map Char.toUpper).leftpad 2 '0' := by
  rw [digitsOf, List.flatMap_def, List.flatMap_def]
  refine congrArg List.flatten (List.map_congr_left fun b _ => ?_)
  rw [Hex.byte, String.toList_ofList, Hex.fixed_eq_leftpad (by decide) b.toNat_lt]

/-- The line displays the bytes of a run of `size` bytes from twice its number on: their place and
their digits, and nothing else. -/
structure Line.Displays (size i : Nat) (line : String) : Prop where
  address : Line.address line =
    ((Nat.toDigits 16 (0x200 + 2 * i)).map Char.toUpper).leftpad 4 '0'
  digits : (Line.digits line).length = if 2 * i + 1 < size then 4 else 2
  text : line.toList = Line.address line ++ ':' :: ' ' :: Line.digits line

variable {bytes : List UInt8}

/-- The lines of a run of bytes have their digits in the second column. -/
lemma digits_head_of_mem {start : Nat} :
    ∀ r ∈ rows start bytes.toArray, Line.digits r.head = digitsOf r.bytes := fun r hr => by
  obtain ⟨reading, hreading⟩ := exists_reading start bytes r hr
  exact digits_head (digitsOf_ne_nil hreading)

/-- **What the lines of a run of bytes display.** -/
lemma displays_of_getElem? {i : Nat} {line : String}
    (h : ((rows programStart bytes.toArray).map Row.head)[i]? = some line) :
    Line.Displays bytes.length i line := by
  rw [List.getElem?_map] at h
  obtain ⟨r, hr, rfl⟩ := Option.map_eq_some_iff.1 h
  have hdigits := digits_head_of_mem r (List.mem_of_getElem? hr)
  obtain ⟨hi, rfl⟩ := getElem?_rows_eq_some hr
  refine ⟨?_, ?_, ?_⟩
  · rw [address_head, Hex.toList_address]
  · rw [hdigits, length_digitsOf, List.length_take, List.length_drop]
    split <;> omega
  · rw [hdigits, address_head, toList_head]

/-- The last line of a run of bytes displays one byte exactly if the length is odd. -/
lemma getLast?_head_iff (bytes : List UInt8) :
    (∃ line ∈ ((rows programStart bytes.toArray).map Row.head).getLast?,
      (Line.digits line).length = 2) ↔ bytes.length % 2 = 1 := by
  have hlength : ((rows programStart bytes.toArray).map Row.head).length =
      (bytes.length + 1) / 2 := by simp
  refine exists_getLast?_iff hlength fun i line hline => ?_
  have hlt := (List.getElem?_eq_some_iff.1 hline).1
  rw [hlength] at hlt
  rw [(displays_of_getElem? hline).digits]
  split <;> omega

/-! ### The program area and the listing -/

lemma programArea_load [RandomSource] {program : List UInt8} (h : program.length ≤ programCapacity)
    (m : Machine) : (m.load program).2.memory.programArea program.length = program.toArray := by
  have hloaded := m.loaded_load h
  rw [Memory.programArea_eq, Nat.min_eq_left h]
  congr 1
  refine List.ext_getElem (List.length_ofFn) fun i _ hi => ?_
  rw [List.getElem_ofFn]
  exact hloaded.bytes i hi

/-- **What is shown of the program area is faithful, and agrees with the listing.**

* For every memory and every number of bytes: as many bytes are shown as are asked for, or all of
  the program area if it has fewer. There is a line for every two of them and one for an odd byte at
  the end. Each line has the place of its bytes and their digits, and nothing else; the second
  columns have two digits for every byte, from which the bytes can be read back; the last line
  displays a single byte exactly if their number is odd.
* For every program that fits, right after it is loaded: it has as many lines here as in the
  listing, and each of these is a prefix of the line of the same number there.

In the texts lines end in a line feed, and are found again by it. -/
theorem dump_agrees [RandomSource] :
    (∀ (m : Memory) (count : Nat),
      let size := min count programCapacity
      let lines := m.dump count
      let bytes := List.ofFn fun k : Fin size => m.byte (0x200 + k)
      (unlines lines).toList.splitOn '\n' = lines.map String.toList ++ [[]] ∧
      lines.length = (size + 1) / 2 ∧
      (∀ i line, lines[i]? = some line → Line.Displays size i line) ∧
      lines.flatMap Line.digits = bytes.flatMap (fun b =>
        ((Nat.toDigits 16 b.toNat).map Char.toUpper).leftpad 2 '0') ∧
      Line.readBytes (lines.flatMap Line.digits) = some bytes ∧
      ((∃ line ∈ lines.getLast?, (Line.digits line).length = 2) ↔ size % 2 = 1)) ∧
    ∀ (m : Machine) (program : List UInt8), program.length ≤ programCapacity →
      let loaded := m.load program
      let shown := loaded.2.memory.dump program.length
      let listed := assembly program
      loaded.1 = .ok () ∧
      (Lister.start program).write.1 = .ok (unlines listed) ∧
      (unlines listed).toList.splitOn '\n' = listed.map String.toList ++ [[]] ∧
      shown.length = listed.length ∧
      List.Forall₂ (fun s l : String => s.toList <+: l.toList) shown listed := by
  refine ⟨fun m count => ?_, fun m program hsize => ?_⟩
  · intro size lines bytes
    -- a dump has the heads of the lines that a listing of the same bytes has
    have hlines : lines = (rows programStart bytes.toArray).map Row.head :=
      congrArg (fun bytes => (rows programStart bytes).map Row.head) (m.programArea_eq count)
    have hlength : bytes.length = size := List.length_ofFn
    have hdigits : lines.flatMap Line.digits = digitsOf bytes := by
      rw [hlines, flatMap_digits_rows digits_head_of_mem]
    refine ⟨splitOn_unlines ?_, ?_, ?_, by rw [hdigits, digitsOf_eq],
      by rw [hdigits, readBytes_digitsOf], ?_⟩
    · rintro line hline
      obtain ⟨r, -, rfl⟩ := List.mem_map.1 hline
      exact newline_not_mem_head r
    · rw [hlines, List.length_map, length_rows, List.size_toArray, hlength]
    · rw [hlines]
      exact fun i line hline => hlength ▸ displays_of_getElem? hline
    · rw [hlines, getLast?_head_iff, hlength]
  · intro loaded shown listed
    have hshown : shown = (rows programStart program.toArray).map Row.head :=
      congrArg (fun bytes => (rows programStart bytes).map Row.head) (programArea_load hsize m)
    -- after a load the area holds the program, so both sides print the same rows
    have hlisted : listed = (rows programStart program.toArray).map Row.assembly := rfl
    refine ⟨by simp only [loaded, Machine.load_of_fits hsize], by rw [Lister.write_eq]; rfl,
      splitOn_unlines ?_, ?_, ?_⟩
    · rintro line hline
      obtain ⟨i, hi⟩ := List.mem_iff_getElem?.1 hline
      exact (shows_of_getElem? hi).newline
    · rw [hshown, hlisted, List.length_map, List.length_map]
    · rw [hshown, hlisted, List.forall₂_map_left_iff, List.forall₂_map_right_iff, List.forall₂_same]
      exact fun r _ => head_prefix_assembly r

/-- Of a program of five bytes three are shown, and right after it is loaded all its lines go on in
the listing. -/
theorem dump_agrees_scrap :
    let loaded := ((Machine.blank (some 7) (.ofSeed 7)).load scrap).2
    loaded.memory.dump 3 = ["0200: A21E", "0202: FF"] ∧
    Line.Displays 3 1 "0202: FF" ∧
    Line.readBytes ((loaded.memory.dump 3).flatMap Line.digits) = some [0xA2, 0x1E, 0xFF] ∧
    List.Forall₂ (fun s l : String => s.toList <+: l.toList)
      ["0200: A21E", "0202: FFFF", "0204: D0"]
      ["0200: A21E  LD I, 21E", "0202: FFFF  DW 0xFFFF", "0204: D0    DB 0xD0"] := by
  intro loaded
  obtain ⟨hdump, hload⟩ := dump_agrees
  have hlines : loaded.memory.dump 3 = ["0200: A21E", "0202: FF"] := by decide +kernel
  obtain ⟨-, -, hdisplays, -, hbytes, -⟩ := hdump loaded.memory 3
  obtain ⟨-, -, -, -, hprefix⟩ := hload (Machine.blank (some 7) (.ofSeed 7)) scrap (by decide)
  refine ⟨hlines, hdisplays 1 _ (by rw [hlines]; rfl), ?_, ?_⟩
  · rw [hbytes]
    decide +kernel
  · have hshown : loaded.memory.dump scrap.length = ["0200: A21E", "0202: FFFF", "0204: D0"] := by
      decide +kernel
    have hlisted : assembly scrap =
        ["0200: A21E  LD I, 21E", "0202: FFFF  DW 0xFFFF", "0204: D0    DB 0xD0"] := by
      decide +kernel
    rw [← hshown, ← hlisted]
    exact hprefix

end Chip8
