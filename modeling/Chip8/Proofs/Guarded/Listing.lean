import Chip8.Listing.Assembly
import Chip8.Listing.Dump
import Chip8.Proofs.Guarded.Instruction

/-!
Listings on a host that checks every access.

The bytes of the program area are cut out of memory as a whole and then listed two by two. The
assembly listing moves a cursor through the program: each line looks at what is left from the
cursor on, and the line of an instruction is given up if its text cannot be written.

* `dump_eq_some`: the program area can be shown, whatever number of bytes is asked for;
* `assembly_eq_some`: every byte string can be listed, the last odd byte included.
-/

namespace Chip8.Guarded

/-! ### Bytes -/

/-- Row `i` of the bytes that lie at the start of the program area. -/
def dumpLine (bytes : List UInt8) (i : Nat) : Option String := do
  let offset ← product hostLimit i 2
  let address ← sum hostLimit programStart offset
  some (Row.head ⟨address, (bytes.drop offset).take 2⟩)

/-- The lines that show the first `count` bytes of the program area. -/
def dump (m : Memory) (count : Nat) : Option (List String) := do
  let stop ← sum hostLimit programStart count
  let bytes ← range m.cells programStart (min stop memorySize)
  (List.range ((bytes.length + 1) / 2)).mapM (dumpLine bytes)

lemma dumpLine_eq_some {bytes : Array UInt8} {i : Nat} (h : programStart + 2 * i < hostLimit) :
    dumpLine bytes.toList i = some (rowAt programStart bytes i).head := by
  have hoffset : i * 2 < hostLimit := by omega
  rw [dumpLine, product_eq_some hoffset, Nat.mul_comm i 2]
  simp only [Option.bind_eq_bind, Option.bind_some, sum_eq_some h]
  rw [← bytes_rowAt programStart]
  rfl

/-- **Showing the program area does not break down**, as long as the host can count to its
end. -/
theorem dump_eq_some {m : Memory} {count : Nat} (h : programStart + count < hostLimit) :
    dump m count = some (m.dump count) := by
  have hstart : programStart ≤ min (programStart + count) memorySize := by
    show 512 ≤ min (512 + count) 4096
    omega
  have hbytes : range m.cells programStart (min (programStart + count) memorySize) =
      some (m.programArea count).toList := by
    rw [range, if_pos ⟨hstart, Nat.min_le_right ..⟩, Memory.programArea, Array.toList_extract,
      List.drop_take]
    rfl
  have hsize : (m.programArea count).size ≤ memorySize := by
    rw [Memory.programArea, Array.size_extract]
    omega
  -- no line begins behind the memory, so its address is far below the limit of the host
  have hlines : (List.range (((m.programArea count).size + 1) / 2)).mapM
      (dumpLine (m.programArea count).toList) =
        some ((List.range (((m.programArea count).size + 1) / 2)).map fun i =>
          (rowAt programStart (m.programArea count) i).head) := by
    refine mapM_eq_some fun i hi => dumpLine_eq_some ?_
    have hi := List.mem_range.1 hi
    have hmemory : memorySize = 4096 := rfl
    have hplace : programStart + 2 * i < 131072 := by
      show 512 + 2 * i < 131072
      omega
    exact lt_hostLimit hplace
  rw [dump, sum_eq_some h]
  simp only [Option.bind_eq_bind, Option.bind_some, hbytes, Array.length_toList, hlines]
  simp [Memory.dump, rows, Function.comp_def]

/-! ### Assembly -/

/-- What is left of a program from a cursor on, if the cursor is not behind its end. -/
def rest (program : List UInt8) (cursor : Nat) : Option (List UInt8) :=
  if cursor ≤ program.length then some (program.drop cursor) else none

/-- The line for what lies at the cursor, unless it cannot be written. -/
def assemblyLine (program : List UInt8) (cursor : Nat) : Option (Except Fault String) := do
  let address ← sum hostLimit programStart cursor
  match ← rest program cursor with
  | high :: low :: _ =>
    let head := Row.head ⟨address, [high, low]⟩
    match ← decode (Memory.wordOf high low) with
    | .ok i =>
      match ← text i with
      | .ok instruction => some (.ok (head ++ ("  " ++ instruction)))
      | .error f => some (.error f)
    | .error _ => some (.ok (head ++ (Reading.dataWord (Memory.wordOf high low)).text))
  | [b] => some (.ok (Row.head ⟨address, [b]⟩ ++ (Reading.dataByte b).text))
  | [] => some (.ok "")

/-- The lines from the cursor on. -/
def assemblyFrom (program : List UInt8) (cursor : Nat) :
    Option (Except Fault (List String)) :=
  if cursor < program.length then do
    match ← assemblyLine program cursor with
    | .error f => some (.error f)
    | .ok line =>
      if cursor + 2 < hostLimit then
        match ← assemblyFrom program (cursor + 2) with
        | .error f => some (.error f)
        | .ok lines => some (.ok (line :: lines))
      else none
  else some (.ok [])
termination_by program.length - cursor

/-- The lines of the listing of a program, unless one cannot be written. -/
def assembly (program : List UInt8) : Option (Except Fault (List String)) :=
  assemblyFrom program 0

variable {program : List UInt8} {i : Nat}

/-- The line at the cursor is that of the row that starts there. -/
lemma assemblyLine_eq_some (hi : 2 * i < program.length)
    (h : programStart + program.length < hostLimit) :
    assemblyLine program (2 * i) =
      some (.ok (rowAt programStart program.toArray i).assembly) := by
  have hsum : programStart + 2 * i < hostLimit := by omega
  have hbytes := bytes_rowAt programStart program.toArray i
  have haddress : (rowAt programStart program.toArray i).address = programStart + 2 * i := rfl
  rw [assemblyLine, sum_eq_some hsum, rest, if_pos (Nat.le_of_lt hi)]
  generalize rowAt programStart program.toArray i = row at hbytes haddress ⊢
  obtain ⟨address, bytes⟩ := row
  dsimp only at hbytes haddress
  subst hbytes haddress
  simp only [Option.bind_eq_bind, Option.bind_some]
  -- the bytes from here on: none is impossible, one makes half an instruction, two make a word
  match hleft : program.drop (2 * i) with
  | [] => simp at hleft; omega
  | [b] => rfl
  | high :: low :: _ =>
    simp only [decode_eq_some, Option.bind_some, Row.assembly, Row.reading?, Reading.ofWord,
      List.take_succ_cons, List.take_zero, Option.map_some, Option.getD_some]
    cases Instruction.decode (Memory.wordOf high low) with
    | error f => rfl
    | ok instruction =>
      simp only [text_eq_some, Option.bind_some]
      rfl

lemma assemblyFrom_eq_some (h : programStart + program.length < hostLimit) {n : Nat}
    (hn : i + n = (program.length + 1) / 2) :
    assemblyFrom program (2 * i) = some (.ok ((List.range' i n).map fun k =>
      (rowAt programStart program.toArray k).assembly)) := by
  induction n generalizing i with
  | zero =>
    have hend : ¬ 2 * i < program.length := by omega
    rw [assemblyFrom, if_neg hend]
    rfl
  | succ n ih =>
    have hi : 2 * i < program.length := by omega
    have hnext : 2 * i + 2 < hostLimit := by
      have hstart : programStart = 512 := rfl
      omega
    rw [assemblyFrom, if_pos hi, assemblyLine_eq_some hi h, List.range'_succ]
    simp only [Option.bind_eq_bind, Option.bind_some, if_pos hnext]
    rw [show 2 * i + 2 = 2 * (i + 1) by omega, ih (by omega)]
    rfl

/-- **The assembly listing does not break down**, whatever the bytes, as long as the host can
count to the end of the program. -/
theorem assembly_eq_some (h : programStart + program.length < hostLimit) :
    assembly program = some (.ok (Chip8.assembly program)) := by
  rw [assembly, ← Nat.mul_zero 2, assemblyFrom_eq_some h (Nat.zero_add _)]
  simp [Chip8.assembly, rows, List.range_eq_range', Function.comp_def]

end Chip8.Guarded
