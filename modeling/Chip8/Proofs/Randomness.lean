import Chip8.Host.Random
import Chip8.Proofs.Loading

/-!
Random bytes are drawn in turn.

Of the source of random numbers two things are assumed: a seed determines a stream of words, and a
byte is drawn by drawing a word, of which it is the low end. A new machine with a seed stands at
the start of the stream, and so does a machine into which a program was just loaded. From there
every `CXNN` takes the next word, and nothing else moves on in the stream: no other instruction,
no fault, no tick or key, no direct change, and no program that is too large to be loaded.

* `RandomSource.Follows`: what is assumed of the source;
* `Consumes`: the cycles of a list take words in turn, and leave a generator behind;
* `consumes_run`, `consumes_afterAll`: so do the cycles of a run and of a history;
* `random_bytes_in_turn`: the byte of each `CXNN` since a start.
-/

namespace Chip8

/-! ### Streams of words -/

section Source

variable [RandomSource]

/-- The generator after a number of words were drawn. -/
def Generator.skip (g : Generator) : Nat → Generator
  | 0 => g
  | k + 1 => g.nextWord.2.skip k

lemma Generator.skip_skip (g : Generator) (k n : Nat) : (g.skip k).skip n = g.skip (k + n) := by
  induction k generalizing g with
  | zero => rw [skip, Nat.zero_add]
  | succ k ih => rw [Nat.succ_add, skip, skip, ih]

/-- The source hands out the words of `stream seed`, one after the other, from every seed on, and
draws a byte by drawing a word, of which it takes the low byte. -/
structure RandomSource.Follows (stream : UInt64 → Nat → UInt32) : Prop where
  word : ∀ seed k, ((Generator.ofSeed seed).skip k).nextWord.1 = stream seed k
  byte : ∀ g : Generator, g.next = (g.nextWord.1.toUInt8, g.nextWord.2)

variable {stream : UInt64 → Nat → UInt32}

lemma RandomSource.Follows.next_skip (follows : Follows stream) (seed : UInt64) (k : Nat) :
    ((Generator.ofSeed seed).skip k).next.1 = (stream seed k).toUInt8 := by
  rw [follows.byte, follows.word]

namespace Machine

variable {m : Machine} {i : Instruction}

/-! ### One cycle -/

/-- Whether the cycle executes a `CXNN`. -/
def drawsRandom (c : Machine) : Bool :=
  c.fetch.toOption.any (·.opcode = .randomByte)

lemma drawsRandom_iff : m.drawsRandom ↔ ∃ i, m.fetch = .ok i ∧ i.opcode = .randomByte := by
  rw [drawsRandom]
  cases m.fetch <;> simp [Except.toOption]

/-- A cycle of a `CXNN` draws a byte, and leaves its masked bits in `VX`. -/
lemma step_of_randomByte (hf : m.fetch = .ok i) (op : i.opcode = .randomByte) :
    m.step.2.random = m.random.next.2 ∧
      m.step.2.register i.x = m.random.next.1 &&& i.nn := by
  have hx : m.execute i =
      (.ok .next,
        { m with random := m.random.next.2 }.setRegister i.x (m.random.next.1 &&& i.nn)) := by
    rw [execute, op]
  rw [step_of_fetch hf, perform_of_ok hx]
  refine ⟨rfl, ?_⟩
  exact (Processor.register_setRegister _ i.x i.x _).trans (if_pos rfl)

lemma random_step_of_not (h : ¬ m.drawsRandom) : m.step.2.random = m.random := by
  cases hf : m.fetch with
  | error f => rw [step_of_fetch_error hf]
  | ok i =>
    have op : i.opcode ≠ .randomByte := fun op => h (drawsRandom_iff.2 ⟨i, hf, op⟩)
    obtain ⟨pc, hp⟩ := exists_perform_eq m i
    rw [step_of_fetch hf, hp]
    exact (execute_keeps m i).random op

/-! ### Taking words in turn -/

/-- Those of the cycles that execute a `CXNN` take one word after the other, from the generator
`g` on, and `g'` is left behind them. -/
structure Consumes (g : Generator) (cycles : List Machine) (g' : Generator) : Prop where
  inTurn : (cycles.filter drawsRandom).map (·.random) =
    (List.range (cycles.filter drawsRandom).length).map g.skip
  left : g' = g.skip (cycles.filter drawsRandom).length

namespace Consumes

variable {g g' g'' : Generator} {cycles cycles' : List Machine}

lemma nil (g : Generator) : Consumes g [] g :=
  ⟨rfl, rfl⟩

/-- A cycle takes a word if it executes a `CXNN`, and none otherwise. -/
lemma cycle (follows : RandomSource.Follows stream) (m : Machine) :
    Consumes m.random [m] m.step.2.random := by
  by_cases h : m.drawsRandom
  · obtain ⟨i, hf, op⟩ := drawsRandom_iff.1 h
    constructor
    · simp [h, Generator.skip]
    · rw [(step_of_randomByte hf op).1, follows.byte]
      simp [h, Generator.skip]
  · constructor
    · simp [h]
    · rw [random_step_of_not h]
      simp [h, Generator.skip]

lemma append (h : Consumes g cycles g') (h' : Consumes g' cycles' g'') :
    Consumes g (cycles ++ cycles') g'' := by
  obtain ⟨hturn, rfl⟩ := h
  obtain ⟨hturn', rfl⟩ := h'
  constructor
  · rw [List.filter_append, List.map_append, hturn, hturn', List.length_append, List.range_add,
      List.map_append, List.map_map]
    congr 2
    funext k
    exact Generator.skip_skip g _ k
  · rw [List.filter_append, List.length_append, Generator.skip_skip]

/-- The `k`-th of the cycles that execute a `CXNN` starts after `k` words. -/
lemma random_of_getElem? (h : Consumes g cycles g') {k : Nat} {c : Machine}
    (hc : (cycles.filter drawsRandom)[k]? = some c) : c.random = g.skip k := by
  obtain ⟨hk, hget⟩ := List.getElem?_eq_some_iff.1 hc
  have hmap := congrArg (·[k]?) h.inTurn
  simpa [hk, hget] using hmap

end Consumes

/-- **The cycles of a run take words in turn.** -/
theorem consumes_run (follows : RandomSource.Follows stream) (m : Machine) (last : Signal)
    (n : Nat) :
    Consumes m.random (runCycles n m) (runFrom last n m).2.random := by
  induction n generalizing m last with
  | zero => exact Consumes.nil _
  | succ n ih =>
    have hfirst := Consumes.cycle follows m
    rw [runFrom, runCycles]
    rcases hs : m.step with ⟨f | signal, m'⟩ <;> rw [hs] at hfirst
    · exact hfirst
    · exact hfirst.append (ih m' signal)

end Machine

/-- The operation loads a program that fits. -/
def Operation.Reloads : Operation → Prop
  | .load program => program.length ≤ programCapacity
  | .loadWords words => 2 * words.length ≤ programCapacity
  | _ => False

instance : DecidablePred Operation.Reloads
  | .load program => inferInstanceAs (Decidable (program.length ≤ programCapacity))
  | .loadWords words => inferInstanceAs (Decidable (2 * words.length ≤ programCapacity))
  | .act _ | .run _ | .edit _ => isFalse id

namespace Machine

variable {m : Machine}

/-- The cycles of an operation that loads nothing take words in turn. -/
lemma consumes_operate (follows : RandomSource.Follows stream) (m : Machine) {o : Operation}
    (kept : ¬ o.Reloads) :
    Consumes m.random (m.cyclesOf o) (m.operate o).2.random := by
  have hload : ∀ {program : List UInt8}, ¬ program.length ≤ programCapacity →
      Consumes m.random [] (m.load program).2.random := fun h => by
    rw [load_of_oversized (Nat.not_le.1 h)]
    exact Consumes.nil _
  -- single cycles and runs take words; a load that is refused and a direct change have no cycles
  cases o with
  | act a =>
    cases a with
    | step => exact Consumes.cycle follows m
    | tick | press => exact Consumes.nil _
  | run count => exact consumes_run follows m .ran count
  | load program => exact hload kept
  | loadWords words =>
    refine hload ?_
    rw [Memory.length_bytesOfWords]
    exact kept
  | edit e =>
    obtain ⟨p, timers, h⟩ := exists_edit_eq m e
    show Consumes m.random [] (m.edit e).2.random
    rw [h]
    exact Consumes.nil _

/-- **The cycles of a history take words in turn**, as long as nothing is loaded. -/
theorem consumes_afterAll (follows : RandomSource.Follows stream) (m : Machine)
    {history : List Operation} (kept : ∀ o ∈ history, ¬ o.Reloads) :
    Consumes m.random (m.allCycles history) (m.afterAll history).random := by
  induction history generalizing m with
  | nil => exact Consumes.nil _
  | cons o rest ih =>
    rw [List.forall_mem_cons] at kept
    exact (consumes_operate follows m kept.1).append (ih _ kept.2)

/-! ### From a start -/

/-- The machine is new, or a program has just been loaded into it. -/
inductive Fresh (seed : UInt64) : Machine → Prop where
  | new (given : Generator) : Fresh seed (blank (some seed) given)
  | loaded {before m : Machine} {program : List UInt8} (seeded : before.seed = some seed)
      (load : before.load program = (.ok (), m)) : Fresh seed m

/-- A fresh machine has its seed and stands at the start of the stream. -/
lemma Fresh.seed_random {seed : UInt64} (h : Fresh seed m) :
    m.seed = some seed ∧ m.random = .ofSeed seed := by
  cases h with
  | new given => exact ⟨rfl, rfl⟩
  | @loaded before _ program seeded load =>
    rcases Nat.lt_or_ge programCapacity program.length with hsize | hsize
    · simp [load_of_oversized hsize] at load
    · rw [load_of_fits hsize] at load
      obtain rfl := congrArg Prod.snd load
      refine ⟨seeded, ?_⟩
      show freshRandom before.seed before.random = _
      rw [seeded]
      rfl

/-- The machines in which the `CXNN` of a history are executed, in their order. -/
def draws (m : Machine) (history : List Operation) : List Machine :=
  (m.allCycles history).filter drawsRandom

/-- **Random bytes are drawn in turn**, from any source that follows a stream of words for every
seed. From a start on, the `k`-th `CXNN` sets `VX` to the low byte of word `k` of the stream,
masked with `NN`, whatever happens in between; there is no other way on in the stream; and a load
brings the machine to a start again. -/
theorem random_bytes_in_turn (follows : RandomSource.Follows stream) {seed : UInt64}
    (start : Fresh seed m) {history : List Operation} (kept : ∀ o ∈ history, ¬ o.Reloads) :
    (∀ k c, (m.draws history)[k]? = some c →
      ∃ i, c.fetch = .ok i ∧ i.opcode = .randomByte ∧
        c.step.2.register i.x = (stream seed k).toUInt8 &&& i.nn) ∧
    (m.afterAll history).random = (Generator.ofSeed seed).skip (m.draws history).length ∧
    (∀ program m', (m.afterAll history).load program = (.ok (), m') → Fresh seed m') := by
  obtain ⟨hseed, hrandom⟩ := start.seed_random
  have hconsumes := consumes_afterAll follows m kept
  rw [hrandom] at hconsumes
  refine ⟨fun k c hc => ?_, hconsumes.left, fun program m' hload => ?_⟩
  · -- the machine before the draw has the generator behind `k` words, so it gets word `k`
    obtain ⟨i, hf, op⟩ := drawsRandom_iff.1 (List.mem_filter.1 (List.mem_of_getElem? hc)).2
    refine ⟨i, hf, op, ?_⟩
    rw [(step_of_randomByte hf op).2, hconsumes.random_of_getElem? hc, follows.next_skip]
  · exact .loaded ((seed_afterAll m history).trans hseed) hload

end Machine

end Source

lemma ChaCha.follows_stream : RandomSource.Follows stream := by
  have hskip (p : Position) (k : Nat) :
      Generator.skip p k = (⟨p.key, p.drawn + k⟩ : Position) := by
    induction k generalizing p with
    | zero => rfl
    | succ k ih =>
      have hnext : Generator.skip p (k + 1) = (⟨p.key, p.drawn + 1 + k⟩ : Position) :=
        ih ⟨p.key, p.drawn + 1⟩
      rw [hnext, Nat.add_right_comm, Nat.add_assoc]
  refine ⟨fun seed k => ?_, fun _ => rfl⟩
  rw [Generator.ofSeed, hskip]
  show word (keyOfSeed seed) (0 + k) = stream seed k
  rw [Nat.zero_add, stream]

namespace Machine

/-- A program that draws three random bytes, in registers and through masks that differ. -/
def lottery : List UInt8 :=
  [0xC0, 0xFF, 0xC1, 0x00, 0xC2, 0x0F, 0x00, 0x00]

/-- A history of it with a tick, a direct change, a program that is too large, and a fault. -/
def errands : List Operation :=
  [.act .step, .act .tick, .edit (.setIndex 5), .load (.replicate 3585 0), .run 2, .act .step]

/-- The third byte is the low byte of word 2 of the stream, and no more words were taken. -/
theorem random_bytes_in_turn_errands :
    (((blank (some 7) (.ofSeed 8)).load lottery).2.draws errands).length = 3 ∧
    (∀ c, (((blank (some 7) (.ofSeed 8)).load lottery).2.draws errands)[2]? = some c →
      ∃ i, c.fetch = .ok i ∧ i.opcode = .randomByte ∧
        c.step.2.register i.x = (ChaCha.stream 7 2).toUInt8 &&& i.nn) ∧
    (((blank (some 7) (.ofSeed 8)).load lottery).2.afterAll errands).random =
      (Generator.ofSeed 7).skip 3 := by
  have hlength : (((blank (some 7) (.ofSeed 8)).load lottery).2.draws errands).length = 3 := by
    decide +kernel
  have hkept : ∀ o ∈ errands, ¬ o.Reloads := by
    decide +kernel
  have hseed : (blank (some 7) (.ofSeed 8)).seed = some 7 := rfl
  have hload : (blank (some 7) (.ofSeed 8)).load lottery =
      (.ok (), ((blank (some 7) (.ofSeed 8)).load lottery).2) := by
    rw [load_of_fits (by decide)]
  obtain ⟨hdraws, hrandom, -⟩ :=
    random_bytes_in_turn ChaCha.follows_stream (.loaded hseed hload) hkept
  refine ⟨hlength, hdraws 2, ?_⟩
  rw [← hlength, hrandom]

end Machine

end Chip8
