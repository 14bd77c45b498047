import Chip8.Memory
import Chip8.Proofs.Guarded.Basic
import Chip8.ReturnStack

/-!
Memory and return stack on a host that checks every access.

An access to memory is first checked as a whole, and may be refused with a fault; what was not
refused is then read and written place by place. The return stack goes by its depth.

* `slice_eq_some`, `writeSlice_eq_some` and their like: no access to memory breaks down, as long
  as its end is a number of the host;
* `push_eq_some`, `pop_eq_some`, `restore_eq_some`: nor does the return stack.
-/

namespace Chip8.Guarded

/-! ### Memory -/

/-- Succeeds on legal accesses only. -/
def check (a length : Nat) : Option (Except Fault Unit) :=
  if length = 0 then some (.ok ()) else do
    let stop ← sum hostLimit a length
    if stop - 1 ≤ lastAddress then some (.ok ()) else some (.error (.outOfMemory a length))

/-- The `length` bytes from `a` on. -/
def slice (m : Memory) (a length : Nat) : Option (Except Fault (List UInt8)) :=
  if length = 0 then some (.ok []) else do
    match ← check a length with
    | .error f => some (.error f)
    | .ok () =>
      let stop ← sum hostLimit a length
      let bytes ← range m.cells a stop
      some (.ok bytes)

/-- The `count` bytes from `a` on, in an array of that size. -/
def readArray (m : Memory) (a count : Nat) : Option (Except Fault (Vector UInt8 count)) := do
  match ← slice m a count with
  | .error f => some (.error f)
  | .ok bytes =>
    let array ← copy (Vector.replicate count 0) 0 count bytes
    some (.ok array)

/-- The big-endian word at `a`. -/
def readWord (m : Memory) (a : Nat) : Option (Except Fault UInt16) := do
  match ← readArray m a 2 with
  | .error f => some (.error f)
  | .ok array => some (.ok (Memory.wordOf array[0] array[1]))

/-- One byte. -/
def read (m : Memory) (a : Nat) : Option (Except Fault UInt8) := do
  match ← check a 1 with
  | .error f => some (.error f)
  | .ok () =>
    let b ← m.cells[a]?
    some (.ok b)

/-- Stores a run of bytes, if its range is legal. -/
def writeSlice (m : Memory) (a : Nat) (data : List UInt8) : Option (Except Fault Memory) :=
  if data = [] then some (.ok m) else do
    match ← check a data.length with
    | .error f => some (.error f)
    | .ok () =>
      let stop ← sum hostLimit a data.length
      let cells ← copy m.cells a stop data
      some (.ok ⟨cells⟩)

/-- Stores one byte. -/
def write (m : Memory) (a : Nat) (b : UInt8) : Option (Except Fault Memory) := do
  match ← check a 1 with
  | .error f => some (.error f)
  | .ok () =>
    let cells ← put m.cells a b
    some (.ok ⟨cells⟩)

/-- Stores a word, the more significant byte first. -/
def writeWord (m : Memory) (a : Nat) (w : UInt16) : Option (Except Fault Memory) :=
  writeSlice m a (Memory.bytesOf w)

variable {m : Memory} {a length : Nat}

lemma check_eq_some (h : a + length < hostLimit) :
    check a length = some (Memory.check a length) := by
  rw [check, Memory.check]
  by_cases h0 : length = 0
  · rw [if_pos h0, if_pos (.inl h0)]
  · have hrange : a + length - 1 ≤ lastAddress ↔ Memory.InRange a length := by
      rw [Memory.inRange_iff]
      show a + length - 1 ≤ 4095 ↔ length = 0 ∨ a + length ≤ 4096
      omega
    rw [if_neg h0, sum_eq_some h]
    show (if a + length - 1 ≤ lastAddress then _ else _) = _
    by_cases hr : Memory.InRange a length
    · rw [if_pos (hrange.2 hr), if_pos hr]
    · rw [if_neg fun h' => hr (hrange.1 h'), if_neg hr]

/-- The end of the access is a number that the host cannot count to. -/
example : check (hostLimit - 1) 1 = none := by decide

lemma getElem_cells (h : a < memorySize) : m.cells[a] = m.byte a :=
  (dif_pos h).symm

/-- **A slice does not break down**: its places are looked at only if they are there. -/
theorem slice_eq_some (h : a + length < hostLimit) :
    slice m a length = some (m.slice a length) := by
  rw [slice]
  by_cases h0 : length = 0
  · subst h0
    rw [if_pos rfl, Memory.slice_eq_ok_iff.2 ⟨.inl rfl, rfl⟩]
    simp
  rw [if_neg h0, check_eq_some h]
  by_cases hr : Memory.InRange a length
  · have hle : a + length ≤ memorySize := hr.resolve_left h0
    have hbytes : range m.cells a (a + length) =
        some (List.ofFn fun i : Fin length => m.byte (a + i)) := by
      rw [range_eq_some hle]
      congr 2
      funext i
      exact getElem_cells _
    rw [Memory.check, if_pos hr, Memory.slice_eq_ok_iff.2 ⟨hr, rfl⟩]
    simp [sum_eq_some h, hbytes]
  · rw [Memory.check, if_neg hr, Memory.slice_eq_error_iff.2 ⟨hr, rfl⟩]
    rfl

theorem readArray_eq_some {count : Nat} (h : a + count < hostLimit) :
    readArray m a count = some
      (if Memory.InRange a count then .ok (Vector.ofFn fun i => m.byte (a + i))
       else .error (.outOfMemory a count)) := by
  rw [readArray, slice_eq_some h]
  by_cases hr : Memory.InRange a count
  · have hcopy : copy (Vector.replicate count (0 : UInt8)) 0 count
        (List.ofFn fun i : Fin count => m.byte (a + i)) =
          some (Vector.ofFn fun i => m.byte (a + i)) := by
      rw [copy_front List.length_ofFn (Nat.le_refl _)]
      refine congrArg some (Vector.ext fun i _ => ?_)
      simp
    rw [if_pos hr, Memory.slice_eq_ok_iff.2 ⟨hr, rfl⟩]
    simp [hcopy]
  · rw [if_neg hr, Memory.slice_eq_error_iff.2 ⟨hr, rfl⟩]
    rfl

theorem readWord_eq_some (h : a + 2 < hostLimit) : readWord m a = some (m.readWord a) := by
  rw [readWord, readArray_eq_some h]
  by_cases hr : Memory.InRange a 2
  · have hle : a + 2 ≤ memorySize := hr.resolve_left (by decide)
    rw [if_pos hr, Memory.readWord_eq_ok_iff.2 ⟨hle, rfl⟩]
    simp
  · have hlt : memorySize < a + 2 := Nat.not_le.1 fun hle => hr (.inr hle)
    rw [if_neg hr, Memory.readWord_eq_error_iff.2 ⟨hlt, rfl⟩]
    rfl

theorem read_eq_some (h : a + 1 < hostLimit) : read m a = some (m.read a) := by
  rw [read, check_eq_some h, Memory.read, Memory.check]
  by_cases hr : Memory.InRange a 1
  · have ha : a < memorySize := hr.add_lt Nat.zero_lt_one
    simp [hr, ha]
  · have ha : ¬ a < memorySize := fun ha => hr (.inr ha)
    simp [hr, ha]

/-- What is copied over the bytes of a memory is what a store writes there. -/
lemma copy_cells {data : List UInt8} (h : a + data.length ≤ memorySize) :
    copy m.cells a (a + data.length) data = some (m.overwrite a data).cells := by
  rw [copy_eq_some (Nat.le_add_right _ _) h (by omega)]
  refine congrArg some (Vector.ext fun i hi => ?_)
  rw [getElem_cells (m := m.overwrite a data) hi, Memory.byte_overwrite m a i data h,
    ← getElem_cells hi, Vector.getElem_ofFn]
  by_cases hmid : a ≤ i ∧ i < a + data.length
  · have hplace : i - a < data.length := by omega
    simp [hmid, hplace]
  · simp [hmid]

/-- **A store does not break down**: it copies as many bytes as it has room for. -/
theorem writeSlice_eq_some {data : List UInt8} (h : a + data.length < hostLimit) :
    writeSlice m a data = some (m.writeSlice a data) := by
  rw [writeSlice, Memory.writeSlice]
  by_cases h0 : data = []
  · subst h0
    rw [if_pos rfl, if_pos (.inl rfl), Memory.overwrite]
  rw [if_neg h0, check_eq_some h, Memory.check]
  by_cases hr : Memory.InRange a data.length
  · have hle : a + data.length ≤ memorySize := hr.resolve_left (by simpa using h0)
    simp [hr, sum_eq_some h, copy_cells hle]
  · simp [hr]

theorem write_eq_some {b : UInt8} (h : a + 1 < hostLimit) :
    write m a b = some (m.write a b) := by
  rw [write, check_eq_some h, Memory.write, Memory.writeSlice, Memory.check]
  by_cases hr : Memory.InRange a 1
  · have ha : a < memorySize := hr.add_lt Nat.zero_lt_one
    have hput : m.cells.set a b = m.cells.setIfInBounds a b :=
      Vector.ext fun i hi => by
        rw [Vector.getElem_set, Vector.getElem_setIfInBounds]
    simp [hr, put_eq_some ha, Memory.overwrite, Memory.put, hput]
  · simp [hr]

theorem writeWord_eq_some {w : UInt16} (h : a + 2 < hostLimit) :
    writeWord m a w = some (m.writeWord a w) :=
  writeSlice_eq_some h

/-! ### Return stack -/

/-- The latest return address. -/
def top (s : ReturnStack) : Option (Option UInt16) :=
  match s.pointer? with
  | none => some none
  | some p => do
    let a ← s.slots[p]?
    some (some a)

/-- One more return address, in the first free slot. -/
def push (s : ReturnStack) (a : UInt16) : Option (Except Fault ReturnStack) :=
  if s.isFull then some (.error .stackOverflow) else do
    let slots ← put s.slots s.depth a
    if h : s.depth + 1 ≤ stackCapacity then some (.ok ⟨slots, s.depth + 1, h⟩) else none

/-- The latest return address, and the stack without it. -/
def pop (s : ReturnStack) : Option (Except Fault (UInt16 × ReturnStack)) :=
  match s.pointer? with
  | none => some (.error .stackUnderflow)
  | some p => do
    let a ← s.slots[p]?
    if h : p ≤ stackCapacity then some (.ok (a, ⟨s.slots, p, h⟩)) else none

/-- Sets slots and pointer from outside. -/
def restore (s : ReturnStack) (pointer : Option Nat) (words : List UInt16) :
    Option ReturnStack := do
  let count := min words.length stackCapacity
  let slots ← copy s.slots 0 count (words.take count)
  match pointer with
  | none => some ⟨slots, 0, Nat.zero_le _⟩
  | some p =>
    let depth ← sum hostLimit p 1
    some ⟨slots, min depth stackCapacity, Nat.min_le_right ..⟩

variable {s : ReturnStack}

/-- The slot of the latest address is one of the slots. -/
lemma pointer?_cases (s : ReturnStack) :
    (s.depth = 0 ∧ s.pointer? = none) ∨
      (0 < s.depth ∧ s.depth - 1 < stackCapacity ∧ s.pointer? = some (s.depth - 1)) := by
  have := s.depth_le
  rw [ReturnStack.pointer?]
  split
  · next h => exact .inl ⟨h, rfl⟩
  · exact .inr ⟨by omega, by omega, rfl⟩

theorem top_eq_some : top s = some s.top? := by
  rw [top, ReturnStack.top?]
  obtain ⟨h, hp⟩ | ⟨h, hlt, hp⟩ := pointer?_cases s
  · simp [hp, h]
  · simp [hp, h, hlt]

theorem push_eq_some {a : UInt16} : push s a = some (s.push a) := by
  rw [push, ReturnStack.push, ReturnStack.isFull]
  have := s.depth_le
  by_cases h : s.depth = stackCapacity
  · simp [h]
  · have hlt : s.depth < stackCapacity := by omega
    simp [h, put_eq_some hlt, hlt, Nat.succ_le_of_lt hlt]

theorem pop_eq_some : pop s = some s.pop := by
  rw [pop, ReturnStack.pop]
  obtain ⟨h, hp⟩ | ⟨h, hlt, hp⟩ := pointer?_cases s
  · simp [hp, h]
  · simp [hp, h, hlt, Nat.le_of_lt hlt]

/-- **Setting the return stack from outside does not break down**, whatever the words and the
pointer, as long as the host can count one further. -/
theorem restore_eq_some {pointer : Option Nat} {words : List UInt16}
    (h : ∀ p ∈ pointer, p + 1 < hostLimit) :
    restore s pointer words = some (s.restore pointer words) := by
  have hcopy : copy s.slots 0 (min words.length stackCapacity)
      (words.take (min words.length stackCapacity)) =
        some (ReturnStack.fill s.slots words) := by
    rw [copy_front (List.length_take.trans (by omega)) (Nat.min_le_right ..)]
    refine congrArg some (Vector.ext fun i hi => ?_)
    -- the words that are left out would go into slots that are not there
    have hword : (words.take (min words.length stackCapacity))[i]? = words[i]? := by
      rw [List.getElem?_take]
      by_cases hw : i < min words.length stackCapacity
      · rw [if_pos hw]
      · rw [if_neg hw, List.getElem?_eq_none (by omega)]
    simp [ReturnStack.fill, hword]
  rw [restore]
  simp only [hcopy, Option.bind_eq_bind, Option.bind_some]
  cases pointer with
  | none => rfl
  | some p =>
    simp only [sum_eq_some (h p rfl), Option.bind_some]
    rfl

end Chip8.Guarded
