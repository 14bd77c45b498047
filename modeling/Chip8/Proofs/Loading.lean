import Mathlib.Data.List.GetD
import Chip8.Host.Random
import Chip8.Proofs.Footprint
import Chip8.Proofs.History
import Chip8.Proofs.Refusal

/-!
Loading erases history.

A load that succeeds leaves a machine in which nothing but the seed, and the random bytes
of a machine without a seed, is as it was before. What comes afterwards therefore goes the
same way as on a new machine with that seed. A load that fails changes nothing.

* `load_of_oversized`, `load_of_fits`: what a load leaves;
* `loaded_load`: a loaded machine part by part;
* `seed_afterAll`: no operation changes the seed;
* `readWord_loadWords`: a program that is given as words is found word by word;
* `load_erases_history`: all of this together.
-/

namespace Chip8

/-- A zero byte after a program makes no difference in memory, as long as it fits. -/
lemma loadedMemory_pad {program : List UInt8}
    (h : program.length + 1 ≤ programCapacity) :
    loadedMemory (program ++ [0]) = loadedMemory program := by
  have hlen : (program ++ [0]).length = program.length + 1 := by simp
  apply Memory.ext_byte
  intro a _
  rw [byte_loadedMemory _ (hlen ▸ h), byte_loadedMemory _ (Nat.le_of_succ_le h), hlen]
  by_cases hfont : a < 80
  · rw [if_pos hfont, if_pos hfont]
  rw [if_neg hfont, if_neg hfont]
  by_cases hin : programStart ≤ a ∧ a < programStart + program.length
  · rw [if_pos hin, if_pos (by omega), List.getD_append _ _ _ _ (by omega)]
  · -- the byte behind the program is the zero that was added
    rw [if_neg hin]
    by_cases hlast : a = programStart + program.length
    · rw [if_pos (by omega), hlast, Nat.add_sub_cancel_left,
        List.getD_append_right _ _ _ _ (Nat.le_refl _), Nat.sub_self]
      rfl
    · rw [if_neg (by omega)]

namespace Machine

section Source

variable [RandomSource] {m : Machine} {program : List UInt8}

/-- A machine in which a program was loaded and nothing has happened since. -/
structure Loaded (m : Machine) (program : List UInt8) : Prop where
  pc : m.pc = 0x200
  registers : ∀ r, m.register r = 0
  index : m.index = 0
  delay : m.timers.delay = 0
  sound : m.timers.sound = 0
  key : m.key = none
  depth : m.stack.depth = 0
  slots : ∀ n (h : n < stackCapacity), m.stack.slots[n] = 0
  screen : ∀ c, m.screen.lit c = false
  font : ∀ a (h : a < Font.bytes.length), m.memory.byte a = Font.bytes[a]
  bytes : ∀ i (h : i < program.length), m.memory.byte (0x200 + i) = program[i]
  rest : ∀ a, Font.bytes.length ≤ a → a < 0x200 ∨ 0x200 + program.length ≤ a →
    m.memory.byte a = 0

/-! ### What a load leaves -/

theorem load_of_oversized (h : programCapacity < program.length) (m : Machine) :
    m.load program = (.error (.oversizedProgram program.length), m) :=
  if_pos h

lemma store_of_inRange {a : Nat} {data : List UInt8} (h : Memory.InRange a data.length)
    (m : Machine) :
    m.store a data = (.ok (), { m with memory := m.memory.overwrite a data }) := by
  rw [store, Memory.writeSlice_eq_ok_iff.2 ⟨h, rfl⟩]

/-- **A program that fits is loaded**, and of the machine before only the seed and the
random bytes are left. -/
theorem load_of_fits (h : program.length ≤ programCapacity) (m : Machine) :
    m.load program =
      (.ok (), { blank m.seed m.random with memory := loadedMemory program }) := by
  have hfont : Memory.InRange Font.start Font.bytes.length := by decide
  have hprogram : Memory.InRange programStart program.length :=
    .inr (programCapacity_add ▸ Nat.add_le_add_left h programStart)
  rw [load, if_neg (Nat.not_lt.2 h)]
  simp only [store_of_inRange hfont, store_of_inRange hprogram, loadedMemory, reset, reseed]
  rfl

lemma load_of_error {f : Fault} (h : (m.load program).1 = .error f) :
    (m.load program).2 = m := by
  rcases Nat.lt_or_ge programCapacity program.length with hsize | hsize
  · rw [load_of_oversized hsize]
  · simp [load_of_fits hsize] at h

/-- **A loaded machine part by part.** -/
theorem loaded_load (h : program.length ≤ programCapacity) (m : Machine) :
    (m.load program).2.Loaded program := by
  have hl : Font.bytes.length = 80 := rfl
  have hq : programStart = 0x200 := rfl
  rw [load_of_fits h]
  constructor
  case pc => rfl
  case registers => intro r; simp [Processor.register, blank, Processor.blank]
  case index => rfl
  case delay => rfl
  case sound => rfl
  case key => rfl
  case depth => rfl
  case slots => intro n hn; simp [blank, Processor.blank, ReturnStack.blank]
  case screen => exact Screen.lit_blank
  case font =>
    intro a ha
    show (loadedMemory program).byte a = _
    rw [byte_loadedMemory program h, if_pos (hl ▸ ha), List.getElem_eq_getD 0]
  case bytes =>
    intro i hi
    show (loadedMemory program).byte (0x200 + i) = _
    rw [byte_loadedMemory program h, if_neg (by omega), if_pos (by omega), hq,
      Nat.add_sub_cancel_left, List.getElem_eq_getD 0]
  case rest =>
    intro a ha hout
    show (loadedMemory program).byte a = 0
    rw [byte_loadedMemory program h, if_neg (by omega), if_neg (by omega)]

/-- Of the machine before a load only the seed counts, and the random bytes if there is
none. -/
theorem load_congr {a b : Machine} (h : program.length ≤ programCapacity)
    (seed : a.seed = b.seed) (random : a.seed = none → a.random = b.random) :
    a.load program = b.load program := by
  have hfresh : freshRandom b.seed a.random = freshRandom b.seed b.random := by
    rw [seed] at random
    cases hs : b.seed with
    | none => exact random hs
    | some s => rfl
  rw [load_of_fits h, load_of_fits h]
  simp only [blank, seed, hfresh]

/-! ### The seed -/

lemma seed_step (m : Machine) : m.step.2.seed = m.seed := by
  cases hf : m.fetch with
  | error f => rw [step_of_fetch_error hf]
  | ok i =>
    obtain ⟨pc, hp⟩ := exists_perform_eq m i
    rw [step_of_fetch hf, hp]
    exact (execute_keeps m i).seed

lemma seed_runFrom (m : Machine) (last : Signal) (n : Nat) :
    (m.runFrom last n).2.seed = m.seed := by
  induction n generalizing m last with
  | zero => rfl
  | succ n ih =>
    have hseed := seed_step m
    rw [runFrom]
    rcases hs : m.step with ⟨f | signal, m'⟩ <;> rw [hs] at hseed
    · exact hseed
    · exact (ih m' signal).trans hseed

lemma seed_load (m : Machine) (program : List UInt8) : (m.load program).2.seed = m.seed := by
  rcases Nat.lt_or_ge programCapacity program.length with h | h
  · rw [load_of_oversized h]
  · rw [load_of_fits h]
    rfl

lemma seed_edit (m : Machine) (e : Edit) : (m.edit e).2.seed = m.seed := by
  obtain ⟨p, timers, h⟩ := exists_edit_eq m e
  rw [h]

/-- **No operation changes the seed.** -/
theorem seed_operate (m : Machine) (o : Operation) : (m.operate o).2.seed = m.seed := by
  cases o with
  | act a =>
    cases a with
    | step => exact seed_step m
    | tick | press => rfl
  | run n => exact seed_runFrom m .ran n
  | load program => exact seed_load m program
  | loadWords words => exact seed_load m _
  | edit e => exact seed_edit m e

/-- **No history changes the seed.** -/
theorem seed_afterAll (m : Machine) (history : List Operation) :
    (m.afterAll history).seed = m.seed := by
  induction history generalizing m with
  | nil => rfl
  | cons o rest ih => exact (ih (m.operate o).2).trans (seed_operate m o)

/-! ### Programs as bytes and as words -/

/-- **A program of odd length is padded with a zero byte.** -/
theorem load_pad (hodd : program.length % 2 = 1) (m : Machine) :
    (m.load (program ++ [0])).2 = (m.load program).2 := by
  have hlen : (program ++ [0]).length = program.length + 1 := by simp
  have hcap : programCapacity = 3584 := rfl
  rcases Nat.lt_or_ge programCapacity program.length with h | h
  · rw [load_of_oversized h, load_of_oversized (by omega)]
  · -- the capacity is even, so there is room for one more byte
    have h' : program.length + 1 ≤ programCapacity := by omega
    rw [load_of_fits h, load_of_fits (hlen ▸ h'), loadedMemory_pad h']

/-- **A program that is given as words is found word by word.** -/
theorem readWord_loadWords {words : List UInt16} (h : 2 * words.length ≤ programCapacity)
    (m : Machine) {i : Nat} (hi : i < words.length) :
    (m.loadWords words).2.memory.readWord (0x200 + 2 * i) = .ok words[i] := by
  have hcap : programCapacity = 3584 := rfl
  have hsize : memorySize = 4096 := rfl
  have hlen := Memory.length_bytesOfWords words
  have hloaded := loaded_load (hlen ▸ h) m
  obtain ⟨hhigh, hlow⟩ := Memory.getD_bytesOfWords words hi
  rw [← List.getElem_eq_getD 0 (h := by omega)] at hhigh hlow
  rw [Memory.readWord_eq_ok_iff]
  refine ⟨by omega, ?_⟩
  rw [loadWords, hloaded.bytes _ (by omega), hhigh, Nat.add_assoc, hloaded.bytes _ (by omega), hlow,
    Memory.wordOf_bytesOf]

/-! ### History -/

/-- **Loading erases history.** A program that does not fit is refused, and the machine
stays as it is. A program that fits is loaded, and the machine is then the same whatever it
was before, the seed apart, and the random bytes if there is no seed. So on a machine with a
seed everything goes the same way after a load as it does on a new one. A program of odd
length is padded with a zero byte, and one that is given as words is stored with the more
significant bytes first. -/
theorem load_erases_history (program : List UInt8) :
    (programCapacity < program.length → ∀ m : Machine,
      m.load program = (.error (.oversizedProgram program.length), m)) ∧
    (program.length ≤ programCapacity →
      (∀ m : Machine, (m.load program).1 = .ok () ∧ (m.load program).2.Loaded program ∧
        (m.load program).2.seed = m.seed ∧
        (m.load program).2.random = freshRandom m.seed m.random) ∧
      (∀ a b : Machine, a.seed = b.seed → (a.seed = none → a.random = b.random) →
        a.load program = b.load program) ∧
      (∀ s given given' history later,
        (((blank (some s) given).afterAll history).load program).2.answers later =
          ((blank (some s) given').load program).2.answers later ∧
        (((blank (some s) given).afterAll history).load program).2.afterAll later =
          ((blank (some s) given').load program).2.afterAll later)) ∧
    (program.length % 2 = 1 → ∀ m : Machine,
      (m.load (program ++ [0])).2 = (m.load program).2) ∧
    (∀ (m : Machine) (words : List UInt16),
      m.loadWords words =
        m.load (words.flatMap fun w : UInt16 => [(w >>> 8).toUInt8, w.toUInt8]) ∧
      (2 * words.length ≤ programCapacity →
        (m.loadWords words).1 = .ok () ∧
        ∀ i (hi : i < words.length),
          (m.loadWords words).2.memory.readWord (0x200 + 2 * i) = .ok words[i])) := by
  refine ⟨fun h m => load_of_oversized h m, fun h => ⟨fun m => ?_, fun a b => load_congr h, ?_⟩,
    fun hodd m => load_pad hodd m, fun m words => ⟨rfl, fun h => ⟨?_, ?_⟩⟩⟩
  · refine ⟨by rw [load_of_fits h], loaded_load h m, seed_load m program, ?_⟩
    rw [load_of_fits h]
    rfl
  · intro s given given' history later
    -- the seed is all that a load takes over, and no operation changes it
    have hseed : ((blank (some s) given).afterAll history).seed = some s := seed_afterAll _ history
    have hload : ((blank (some s) given).afterAll history).load program =
        (blank (some s) given').load program :=
      load_congr h hseed fun hnone => by simp [hnone] at hseed
    rw [hload]
    exact ⟨rfl, rfl⟩
  · rw [loadWords, load_of_fits (by rwa [Memory.length_bytesOfWords])]
  · exact fun i hi => readWord_loadWords h m hi

end Source

/-- A program of three bytes, which draws a random byte in its first instruction. -/
def draft : List UInt8 :=
  [0xC0, 0xFF, 0x12]

/-- A past in which the program ran before, a key was pressed and a timer was set. -/
def past : List Operation :=
  [.load draft, .act .step, .act (.press (some ⟨3⟩)), .edit (.setTimers ⟨9, 3⟩)]

/-- The program finds the same machine after its past as a new one, padded or not, and one
byte too many is refused. -/
theorem load_erases_history_past :
    (blank (some 7) (.ofSeed 7)).load (.replicate 3585 0) =
      (.error (.oversizedProgram 3585), blank (some 7) (.ofSeed 7)) ∧
    (((blank (some 7) (.ofSeed 7)).afterAll past).load draft).2.Loaded draft ∧
    ((blank none (.ofSeed 7)).load draft =
      ({ blank none (.ofSeed 7) with index := 5 } : Machine).load draft) ∧
    (∀ later, (((blank (some 7) (.ofSeed 7)).afterAll past).load draft).2.answers later =
      ((blank (some 7) (.ofSeed 8)).load draft).2.answers later) ∧
    ((blank none (.ofSeed 7)).load (draft ++ [0])).2 =
      ((blank none (.ofSeed 7)).load draft).2 ∧
    ((blank none (.ofSeed 7)).loadWords [0xC0FF, 0x1200]).2.memory.readWord (0x200 + 2 * 1) =
      .ok 0x1200 := by
  have hlen : (List.replicate 3585 (0 : UInt8)).length = 3585 := List.length_replicate
  obtain ⟨-, hfits, hpad, hwords⟩ := load_erases_history draft
  obtain ⟨hloaded, hsame, hreplay⟩ := hfits (by decide)
  refine ⟨?_, (hloaded _).2.1, hsame _ _ rfl fun _ => rfl, fun later => ?_, hpad rfl _, ?_⟩
  · have h := (load_erases_history (.replicate 3585 0)).1 (by rw [hlen]; decide)
      (blank (some 7) (.ofSeed 7))
    rwa [hlen] at h
  · exact (hreplay 7 (.ofSeed 7) (.ofSeed 8) past later).1
  · exact ((hwords (blank none (.ofSeed 7)) [0xC0FF, 0x1200]).2 (by decide)).2 1 (by decide)

end Machine

end Chip8
