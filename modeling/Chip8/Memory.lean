import Chip8.Fault

/-!
The memory of the machine: 4096 bytes.

Every access names an address and a length, and is checked as a whole before a
byte is touched: it succeeds or it changes nothing. The view of a memory is
`Memory.byte`, which gives the byte at any address; an address past the end holds
zero. Main statements:

* `inRange_iff`: an access is legal if it is empty or ends within memory;
* `byte_overwrite`: what a store does to every byte;
* `slice_eq_ok_iff`: a slice that succeeds lists the bytes of its range.
-/

namespace Chip8

/-- The bytes of the machine. -/
structure Memory where
  cells : Vector UInt8 memorySize
  deriving DecidableEq

namespace Memory

/-- All bytes zero. -/
def blank : Memory :=
  ⟨Vector.replicate memorySize 0⟩

/-- The byte at an address; past the end of memory it is zero. -/
def byte (m : Memory) (a : Nat) : UInt8 :=
  if h : a < memorySize then m.cells[a] else 0

theorem ext_byte {m m' : Memory} (h : ∀ a < memorySize, m.byte a = m'.byte a) : m = m' := by
  cases m; cases m'
  congr 1
  ext i hi
  have := congrArg UInt8.toBitVec (h i hi)
  simp_all [byte]

@[simp] theorem byte_blank (a : Nat) : blank.byte a = 0 := by
  simp [byte, blank]

/-! ### The range of an access -/

/-- The access of `length` bytes from `a` stays within memory; an access of
nothing is legal everywhere. -/
def InRange (a length : Nat) : Prop :=
  length = 0 ∨ a + length ≤ memorySize

instance (a length : Nat) : Decidable (InRange a length) :=
  inferInstanceAs (Decidable (_ ∨ _))

/-- An access is legal if it is empty or ends within memory. -/
theorem inRange_iff {a length : Nat} :
    InRange a length ↔ length = 0 ∨ a + length ≤ memorySize :=
  Iff.rfl

theorem InRange.add_lt {a length i : Nat} (h : InRange a length) (hi : i < length) :
    a + i < memorySize := by
  rcases h with h | h <;> omega

/-- Succeeds on legal accesses only. -/
def check (a length : Nat) : Except Fault Unit :=
  if InRange a length then .ok () else .error (.outOfMemory a length)

/-! ### Reading -/

/-- The `length` bytes from `a` on. -/
def slice (m : Memory) (a length : Nat) : Except Fault (List UInt8) :=
  if h : InRange a length then
    .ok (List.ofFn fun i : Fin length => m.cells.get ⟨a + i, h.add_lt i.isLt⟩)
  else .error (.outOfMemory a length)

theorem slice_eq_ok_iff {m : Memory} {a length : Nat} {bytes : List UInt8} :
    m.slice a length = .ok bytes ↔
      InRange a length ∧ bytes = List.ofFn fun i : Fin length => m.byte (a + i) := by
  rw [slice]
  split
  · next h =>
    have : (List.ofFn fun i : Fin length => m.cells.get ⟨a + i, h.add_lt i.isLt⟩)
        = List.ofFn fun i : Fin length => m.byte (a + i) := by
      congr 1
      funext i
      simp [byte, h.add_lt i.isLt, Vector.get]
    rw [this]
    simp [h, eq_comm]
  · next h => simp [h]

/-- A slice fails exactly outside of memory, and names the access. -/
theorem slice_eq_error_iff {m : Memory} {a length : Nat} {f : Fault} :
    m.slice a length = .error f ↔ ¬ InRange a length ∧ f = .outOfMemory a length := by
  rw [slice]
  split <;> simp_all [eq_comm]

/-- The `count` bytes from `a` on, in an array of that size. -/
def readArray (m : Memory) (a count : Nat) : Except Fault (Vector UInt8 count) :=
  (m.slice a count).map fun bytes => .ofFn fun i => bytes.getD i 0

/-- One byte. -/
def read (m : Memory) (a : Nat) : Except Fault UInt8 :=
  if h : a < memorySize then .ok m.cells[a] else .error (.outOfMemory a 1)

/-- The word of two bytes, the more significant first. -/
def wordOf (high low : UInt8) : UInt16 :=
  high.toUInt16 <<< 8 ||| low.toUInt16

theorem toNat_wordOf (high low : UInt8) :
    (wordOf high low).toNat = high.toNat * 256 + low.toNat := by
  have hh := high.toNat_lt
  have hl : low.toNat < 2 ^ 8 := low.toNat_lt
  have hs : (high.toUInt16 <<< 8).toNat = high.toNat <<< 8 := by
    simp only [UInt16.toNat_shiftLeft, UInt8.toNat_toUInt16]
    rw [Nat.mod_eq_of_lt]
    · rfl
    · show high.toNat <<< 8 < 65536
      rw [Nat.shiftLeft_eq]
      omega
  rw [wordOf, UInt16.toNat_or, hs, UInt8.toNat_toUInt16, ← Nat.shiftLeft_add_eq_or_of_lt hl,
    Nat.shiftLeft_eq]

/-- The big-endian word at `a`. -/
def readWord (m : Memory) (a : Nat) : Except Fault UInt16 :=
  if h : a + 2 ≤ memorySize then .ok (wordOf m.cells[a] m.cells[a + 1])
  else .error (.outOfMemory a 2)

theorem readWord_eq_ok_iff {m : Memory} {a : Nat} {w : UInt16} :
    m.readWord a = .ok w ↔ a + 2 ≤ memorySize ∧ wordOf (m.byte a) (m.byte (a + 1)) = w := by
  rw [readWord]
  split
  · next h =>
    have h1 : a < memorySize := by omega
    have h2 : a + 1 < memorySize := by omega
    simp [byte, h, h1, h2]
  · next h => simp [h]

theorem readWord_eq_error_iff {m : Memory} {a : Nat} {f : Fault} :
    m.readWord a = .error f ↔ memorySize < a + 2 ∧ f = .outOfMemory a 2 := by
  rw [readWord]
  split
  · next h => simp [Nat.not_lt.2 h]
  · next h => simp [Nat.not_le.1 h, eq_comm]

/-! ### Writing -/

/-- Changes one byte; an address past the end changes nothing. -/
def put (m : Memory) (a : Nat) (b : UInt8) : Memory :=
  ⟨m.cells.setIfInBounds a b⟩

theorem byte_put (m : Memory) (a i : Nat) (b : UInt8) :
    (m.put a b).byte i = if i = a ∧ a < memorySize then b else m.byte i := by
  simp only [byte, put]
  split
  · next h =>
    rw [Vector.getElem_setIfInBounds h]
    by_cases hi : i = a
    · subst hi; simp [h]
    · simp [hi, Ne.symm hi]
  · next h =>
    have : ¬ (i = a ∧ a < memorySize) := by omega
    simp [this]

/-- Changes the bytes from `a` on to the given ones. -/
def overwrite (m : Memory) (a : Nat) : List UInt8 → Memory
  | [] => m
  | b :: rest => (m.put a b).overwrite (a + 1) rest

/-- A store changes the bytes of its range to the data, and no other byte. -/
theorem byte_overwrite (m : Memory) (a i : Nat) (data : List UInt8)
    (h : a + data.length ≤ memorySize) :
    (m.overwrite a data).byte i =
      if a ≤ i ∧ i < a + data.length then data.getD (i - a) 0 else m.byte i := by
  induction data generalizing m a with
  | nil => rw [overwrite, if_neg (by simp only [List.length_nil]; omega)]
  | cons b rest ih =>
    simp only [List.length_cons] at h
    rw [overwrite, ih _ _ (by omega), byte_put]
    -- the byte is the first of the data, one behind it, or none of them
    by_cases h1 : i = a
    · subst h1
      have h3 : i ≤ i ∧ i < i + (b :: rest).length := by
        simp only [List.length_cons]; omega
      rw [if_neg (by omega), if_pos ⟨rfl, by omega⟩, if_pos h3, Nat.sub_self]
      rfl
    · by_cases h2 : a + 1 ≤ i ∧ i < a + 1 + rest.length
      · obtain ⟨k, rfl⟩ := Nat.exists_eq_add_of_le h2.1
        have h3 : a ≤ a + 1 + k ∧ a + 1 + k < a + (b :: rest).length := by
          simp only [List.length_cons]; omega
        rw [if_pos h2, if_pos h3, show a + 1 + k - a = k + 1 by omega]
        simp
      · have h3 : ¬ (a ≤ i ∧ i < a + (b :: rest).length) := by
          simp only [List.length_cons]; omega
        have h4 : ¬ (i = a ∧ a < memorySize) := fun h => h1 h.1
        rw [if_neg h2, if_neg h3, if_neg h4]

/-- Stores a run of bytes, if its range is legal. -/
def writeSlice (m : Memory) (a : Nat) (data : List UInt8) : Except Fault Memory :=
  if InRange a data.length then .ok (m.overwrite a data)
  else .error (.outOfMemory a data.length)

theorem writeSlice_eq_ok_iff {m m' : Memory} {a : Nat} {data : List UInt8} :
    m.writeSlice a data = .ok m' ↔ InRange a data.length ∧ m.overwrite a data = m' := by
  rw [writeSlice]
  split <;> simp_all

/-- A store fails exactly outside of memory, and names the access. -/
theorem writeSlice_eq_error_iff {m : Memory} {a : Nat} {data : List UInt8} {f : Fault} :
    m.writeSlice a data = .error f ↔
      ¬ InRange a data.length ∧ f = .outOfMemory a data.length := by
  rw [writeSlice]
  split <;> simp_all [eq_comm]

/-- Stores one byte. -/
def write (m : Memory) (a : Nat) (b : UInt8) : Except Fault Memory :=
  m.writeSlice a [b]

/-- The more significant byte of a word and the less significant one. -/
def bytesOf (w : UInt16) : List UInt8 :=
  [(w >>> 8).toUInt8, w.toUInt8]

theorem wordOf_bytesOf (w : UInt16) : wordOf (w >>> 8).toUInt8 w.toUInt8 = w := by
  have hw := w.toNat_lt
  apply UInt16.toNat_inj.1
  have hh : (w >>> 8).toUInt8.toNat = w.toNat / 256 % 256 := by
    simp [UInt16.toNat_shiftRight, Nat.shiftRight_eq_div_pow]
  rw [toNat_wordOf, hh, UInt16.toNat_toUInt8]
  omega

/-- Stores a word, the more significant byte first. -/
def writeWord (m : Memory) (a : Nat) (w : UInt16) : Except Fault Memory :=
  m.writeSlice a (bytesOf w)

/-- The bytes of a run of words, each with the more significant byte first. -/
def bytesOfWords (words : List UInt16) : List UInt8 :=
  words.flatMap bytesOf

@[simp] theorem length_bytesOfWords (words : List UInt16) :
    (bytesOfWords words).length = 2 * words.length := by
  induction words with
  | nil => rfl
  | cons w rest ih =>
    rw [bytesOfWords, List.flatMap_cons, List.length_append, ← bytesOfWords, ih]
    simp only [bytesOf, List.length_cons, List.length_nil]
    omega

/-- The bytes of a word lie at twice its number. -/
theorem getD_bytesOfWords (words : List UInt16) {i : Nat} (h : i < words.length) :
    (bytesOfWords words).getD (2 * i) 0 = (words[i] >>> 8).toUInt8 ∧
      (bytesOfWords words).getD (2 * i + 1) 0 = words[i].toUInt8 := by
  induction words generalizing i with
  | nil => cases h
  | cons w rest ih =>
    rw [bytesOfWords, List.flatMap_cons, ← bytesOfWords]
    cases i with
    | zero => exact ⟨rfl, rfl⟩
    | succ i => exact ih (Nat.lt_of_succ_lt_succ h)

end Memory

end Chip8
