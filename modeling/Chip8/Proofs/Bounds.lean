import Chip8.Host.Random
import Chip8.Proofs.Calls
import Chip8.Proofs.Control
import Chip8.Proofs.Digits
import Chip8.Proofs.Loading

/-!
Bounds on the program counter and on the return addresses.

A driver that only loads programs, runs them, ticks and presses keys never brings the program
counter beyond the largest address that a jump from `V0` can name, and every return address is
one behind an instruction that lies within memory. So no sum of addresses wraps around. If
besides all jumps go to even addresses, then the program counter and the return addresses stay
even, as they are after a load.

* `InBounds.step`: the bounds are kept by a cycle;
* `Aligned.step`: so is evenness, if the cycle does not jump to an odd address;
* `exact_step`: a cycle that succeeds adds to addresses without wrapping around;
* `reachable_bounds`: the same along every history.
-/

namespace Chip8

/-- An address behind an instruction. -/
def IsReturnAddress (a : UInt16) : Prop :=
  2 ≤ a.toNat ∧ a.toNat ≤ 0x1000

/-- A slot of a stack after a call holds what it held before, or the new return address. -/
lemma ReturnStack.mem_slots_of_push {s s' : ReturnStack} {a b : UInt16} (h : s.push a = .ok s')
    (hb : b ∈ s'.slots) : b ∈ s.slots ∨ b = a := by
  obtain ⟨hroom, rfl⟩ := push_eq_ok_iff.1 h
  have hset : b ∈ s.slots.set s.depth a hroom := hb
  exact Vector.mem_or_eq_of_mem_set hset

namespace Machine

section Source

variable [RandomSource] {m : Machine} {i : Instruction}

/-! ### Sums of addresses -/

lemma isReturnAddress_pc_add_two (h : m.fetch = .ok i) : IsReturnAddress (m.pc + 2) := by
  have hle : m.pc.toNat + 2 ≤ 4096 := (fetch_eq_ok_iff.1 h).1
  rw [IsReturnAddress, toNat_pc_add_two h]
  omega

lemma toNat_pc_add_four (h : m.fetch = .ok i) : (m.pc + 4).toNat = m.pc.toNat + 4 := by
  have hle : m.pc.toNat + 2 ≤ 4096 := (fetch_eq_ok_iff.1 h).1
  rw [UInt16.toNat_add]
  show (m.pc.toNat + 4) % 65536 = m.pc.toNat + 4
  omega

lemma exists_push_of_call {signal : Signal} (hf : m.fetch = .ok i) (op : i.opcode = .call)
    (h : m.step.1 = .ok signal) : ∃ stack, m.stack.push (m.pc + 2) = .ok stack := by
  cases hp : m.stack.push (m.pc + 2) with
  | ok stack => exact ⟨stack, rfl⟩
  | error f =>
    have hrefused : m.step.1 = .error f :=
      step_error_iff.2 (.inr ⟨i, hf, (Processor.refuses_call_iff op _).2 hp⟩)
    simp [hrefused] at h

/-- **A cycle that succeeds adds without wrapping around**: the next address, the one behind it,
and the address that a call pushes are exact sums. -/
theorem exact_step {signal : Signal} (h : m.step.1 = .ok signal) :
    ∃ i motion, m.fetch = .ok i ∧ (m.execute i).1 = .ok motion ∧
      (motion = .next → m.step.2.pc.toNat = m.pc.toNat + 2) ∧
      (motion = .skip → m.step.2.pc.toNat = m.pc.toNat + 4) ∧
      (i.opcode = .call →
        m.step.2.stack.contents.map UInt16.toNat =
          m.stack.contents.map UInt16.toNat ++ [m.pc.toNat + 2]) := by
  obtain ⟨i, motion, m', hf, hx, -, hnext⟩ := exists_of_step_ok h
  refine ⟨i, motion, hf, by rw [hx], ?_, ?_, ?_⟩
  · rintro rfl
    rw [hnext]
    exact toNat_pc_add_two hf
  · rintro rfl
    rw [hnext]
    exact toNat_pc_add_four hf
  · intro op
    obtain ⟨stack, hp⟩ := exists_push_of_call hf op h
    rw [step_of_call hf op hp]
    show stack.contents.map UInt16.toNat = _
    rw [ReturnStack.contents_push hp, List.map_append, List.map_singleton, toNat_pc_add_two hf]

/-! ### Bounds -/

/-- The program counter and the return addresses are within their bounds. A slot that is given
up keeps its return address. -/
structure InBounds (m : Machine) : Prop where
  pc : m.pc.toNat ≤ 0x10FE
  depth : m.stack.depth ≤ 16
  pending : ∀ a ∈ m.stack.contents, IsReturnAddress a
  slots : ∀ a ∈ m.stack.slots, a = 0 ∨ IsReturnAddress a

/-- The bounds concern the program counter and the return stack only. -/
lemma InBounds.congr {m' : Machine} (h : m.InBounds) (hpc : m'.pc = m.pc)
    (hstack : m'.stack = m.stack) : m'.InBounds := by
  refine ⟨?_, ?_, ?_, ?_⟩
  · rw [hpc]
    exact h.pc
  · rw [hstack]
    exact h.depth
  · rw [hstack]
    exact h.pending
  · rw [hstack]
    exact h.slots

lemma mem_contents_of_pop {a : UInt16} {stack : ReturnStack} (h : m.stack.pop = .ok (a, stack)) :
    a ∈ m.stack.contents := by
  rw [ReturnStack.contents_pop h]
  exact List.mem_append_right _ (List.mem_singleton_self a)

/-- A cycle keeps the program counter within its bound: a fetch must have succeeded to move it
on, operands have twelve bits, and a return goes behind an instruction. -/
lemma InBounds.pc_step (h : m.InBounds) : m.step.2.pc.toNat ≤ 0x10FE := by
  rcases step_pc_cases m with hpc | ⟨i, hf, -, hpc | hpc | hjump⟩
  · rw [hpc]
    exact h.pc
  · have hle : m.pc.toNat + 2 ≤ 4096 := (fetch_eq_ok_iff.1 hf).1
    rw [hpc, toNat_pc_add_two hf]
    omega
  · have hle : m.pc.toNat + 2 ≤ 4096 := (fetch_eq_ok_iff.1 hf).1
    rw [hpc, toNat_pc_add_four hf]
    omega
  · -- a jump goes to 12 bits, to 12 bits and a byte, or back to a pending address
    have hnnn := i.toNat_nnn_lt
    generalize m.step.2.pc = a at hjump ⊢
    cases hjump with
    | jump => omega
    | call => omega
    | offset =>
      have hv := (m.register 0).toNat_lt
      rw [Instruction.toNat_nnn_add]
      omega
    | leave op hpop =>
      have hreturn := (h.pending a (mem_contents_of_pop hpop)).2
      omega

/-- **A cycle keeps the bounds.** -/
theorem InBounds.step (h : m.InBounds) : m.step.2.InBounds := by
  rcases step_stack_cases m with hs | ⟨i, stack, hf, op, hp, hs⟩ | ⟨i, a, stack, hf, op, hp, hs⟩
  · refine ⟨h.pc_step, ?_, ?_, ?_⟩
    · rw [hs]
      exact h.depth
    · rw [hs]
      exact h.pending
    · rw [hs]
      exact h.slots
  · -- a call pushes the address behind an instruction that was fetched
    have hnew := isReturnAddress_pc_add_two hf
    refine ⟨h.pc_step, ReturnStack.depth_le _, ?_, ?_⟩
    · rw [hs]
      show ∀ a ∈ stack.contents, IsReturnAddress a
      rw [ReturnStack.contents_push hp, List.forall_mem_append, List.forall_mem_singleton]
      exact ⟨h.pending, hnew⟩
    · rw [hs]
      intro a ha
      rcases ReturnStack.mem_slots_of_push hp ha with ha | rfl
      · exact h.slots a ha
      · exact .inr hnew
  · -- the address that a return takes off stays in its slot
    refine ⟨h.pc_step, ReturnStack.depth_le _, ?_, ?_⟩
    · rw [hs]
      intro b hb
      refine h.pending b ?_
      rw [ReturnStack.contents_pop hp]
      exact List.mem_append_left _ hb
    · rw [hs]
      show ∀ a ∈ stack.slots, _
      rw [ReturnStack.slots_pop hp]
      exact h.slots

/-! ### Evenness -/

/-- The program counter and the pending return addresses are even. -/
structure Aligned (m : Machine) : Prop where
  pc : m.pc.toNat % 2 = 0
  pending : ∀ a ∈ m.stack.contents, a.toNat % 2 = 0

/-- The cycle does not execute a jump to an odd address of its own. -/
def JumpsEven (c : Machine) : Prop :=
  ∀ i, c.fetch = .ok i → c.step.1.isOk →
    (i.opcode = .jump ∨ i.opcode = .call → i.nnn.toNat % 2 = 0) ∧
    (i.opcode = .jumpFromV0 → (i.nnn.toNat + (c.register 0).toNat) % 2 = 0)

/-- A cycle that does not jump to an odd address keeps the program counter even. -/
lemma Aligned.pc_step (h : m.Aligned) (jumps : m.JumpsEven) : m.step.2.pc.toNat % 2 = 0 := by
  have hpc := h.pc
  rcases step_pc_cases m with hnext | ⟨i, hf, hok, hnext | hnext | hjump⟩
  · rw [hnext]
    exact hpc
  · rw [hnext, toNat_pc_add_two hf]
    omega
  · rw [hnext, toNat_pc_add_four hf]
    omega
  · obtain ⟨hdirect, hoffset⟩ := jumps i hf hok
    generalize m.step.2.pc = a at hjump ⊢
    cases hjump with
    | jump op => exact hdirect (.inl op)
    | call op => exact hdirect (.inr op)
    | offset op =>
      rw [Instruction.toNat_nnn_add]
      exact hoffset op
    | leave op hpop => exact h.pending a (mem_contents_of_pop hpop)

/-- **A cycle that does not jump to an odd address keeps the machine aligned.** -/
theorem Aligned.step (h : m.Aligned) (jumps : m.JumpsEven) : m.step.2.Aligned := by
  refine ⟨h.pc_step jumps, ?_⟩
  rcases step_stack_cases m with hs | ⟨i, stack, hf, op, hp, hs⟩ | ⟨i, a, stack, hf, op, hp, hs⟩
  · rw [hs]
    exact h.pending
  · rw [hs]
    show ∀ a ∈ stack.contents, a.toNat % 2 = 0
    rw [ReturnStack.contents_push hp, List.forall_mem_append, List.forall_mem_singleton]
    have hpc := h.pc
    have hnew := toNat_pc_add_two hf
    exact ⟨h.pending, by omega⟩
  · rw [hs]
    intro b hb
    refine h.pending b ?_
    rw [ReturnStack.contents_pop hp]
    exact List.mem_append_left _ hb

/-! ### Histories -/

/-- A machine at the start of the program area, with no return address at all, is within bounds
and aligned. -/
lemma inBounds_aligned_of_start (hpc : m.pc = 0x200) (hstack : m.stack = .blank) :
    m.InBounds ∧ m.Aligned := by
  have hslots : ∀ a ∈ m.stack.slots, a = 0 := by
    rw [hstack]
    intro a ha
    exact (Vector.mem_replicate.1 ha).2
  refine ⟨⟨?_, m.stack.depth_le, ?_, fun a ha => .inl (hslots a ha)⟩, ?_, ?_⟩
  · rw [hpc]
    decide
  · simp [hstack]
  · rw [hpc]
    decide
  · simp [hstack]

lemma start_load {program : List UInt8} (h : program.length ≤ programCapacity) (m : Machine) :
    (m.load program).2.pc = 0x200 ∧ (m.load program).2.stack = .blank := by
  rw [load_of_fits h]
  exact ⟨rfl, rfl⟩

lemma inBounds_keptBetween : KeptBetween InBounds where
  tick _ h := h.congr rfl rfl
  press _ _ h := h.congr rfl rfl
  load m program h := by
    rcases Nat.lt_or_ge programCapacity program.length with hsize | hsize
    · rw [load_of_oversized hsize]
      exact h
    · obtain ⟨hpc, hstack⟩ := start_load hsize m
      exact (inBounds_aligned_of_start hpc hstack).1

lemma aligned_keptBetween : KeptBetween Aligned where
  tick _ h := ⟨h.pc, h.pending⟩
  press _ _ h := ⟨h.pc, h.pending⟩
  load m program h := by
    rcases Nat.lt_or_ge programCapacity program.length with hsize | hsize
    · rw [load_of_oversized hsize]
      exact h
    · obtain ⟨hpc, hstack⟩ := start_load hsize m
      exact (inBounds_aligned_of_start hpc hstack).2

/-- **The program counter and the return addresses stay within bounds.** Whatever a driver does
with a new machine, the program counter is at most `0x10FE`, at most sixteen return addresses
are pending, each of them lies behind an instruction within memory, and a slot that holds none
of these holds zero; and a cycle that succeeds adds to addresses without wrapping around. If no
executed jump after a load goes to an odd address, then the program counter and the pending
addresses are even all the time. -/
theorem reachable_bounds :
    (∀ (seed : Option UInt64) (given : Generator) (history : List Operation),
      (∀ o ∈ history, o.IsDriving) →
      ∀ m ∈ (blank seed given).afterAll history :: (blank seed given).allCycles history,
        m.pc.toNat ≤ 0x10FE ∧ m.stack.depth ≤ 16 ∧
        (∀ a ∈ m.stack.contents, 2 ≤ a.toNat ∧ a.toNat ≤ 0x1000) ∧
        (∀ a ∈ m.stack.slots, a = 0 ∨ 2 ≤ a.toNat ∧ a.toNat ≤ 0x1000) ∧
        (∀ signal, m.step.1 = .ok signal →
          ∃ i motion, m.fetch = .ok i ∧ (m.execute i).1 = .ok motion ∧
            (motion = .next → m.step.2.pc.toNat = m.pc.toNat + 2) ∧
            (motion = .skip → m.step.2.pc.toNat = m.pc.toNat + 4) ∧
            (i.opcode = .call →
              m.step.2.stack.contents.map UInt16.toNat =
                m.stack.contents.map UInt16.toNat ++ [m.pc.toNat + 2]))) ∧
    (∀ (start : Machine) (program : List UInt8) (later : List Operation),
      program.length ≤ programCapacity → (∀ o ∈ later, o.IsDriving) →
      (∀ c ∈ (start.load program).2.allCycles later, c.JumpsEven) →
      ∀ m ∈ (start.load program).2.afterAll later :: (start.load program).2.allCycles later,
        m.pc.toNat % 2 = 0 ∧ ∀ a ∈ m.stack.contents, a.toNat % 2 = 0) := by
  constructor
  · intro seed given history driving
    have hstart : (blank seed given).InBounds := (inBounds_aligned_of_start rfl rfl).1
    -- the bounds are kept by every cycle, so they hold before each one and at the end
    have hall := afterAll_invariant inBounds_keptBetween hstart driving fun _ _ h => h.step
    rw [← List.forall_mem_cons] at hall
    intro m hm
    have h := hall m hm
    exact ⟨h.pc, h.depth, h.pending, h.slots, fun signal hs => exact_step hs⟩
  · intro start program later hsize driving jumps
    obtain ⟨hpc, hstack⟩ := start_load hsize start
    have hstart := (inBounds_aligned_of_start hpc hstack).2
    -- to be even is kept only by cycles that jump to even addresses, as these do
    have hall := afterAll_invariant aligned_keptBetween hstart driving
      fun c hc h => h.step (jumps c hc)
    rw [← List.forall_mem_cons] at hall
    intro m hm
    exact ⟨(hall m hm).pc, (hall m hm).pending⟩

end Source

/-- What a driver does with a machine that jumps as far as it can. -/
def leap : List Operation :=
  [.load [0x60, 0xFF, 0xBF, 0xFF], .act .tick, .run 2]

/-- A program with a subroutine, from which it returns to a jump. -/
def detour : List UInt8 :=
  [0x22, 0x06, 0x12, 0x02, 0x00, 0x00, 0x61, 0x01, 0x00, 0xEE]

/-- What a driver does with it. -/
def stroll : List Operation :=
  [.act .step, .act (.press (some ⟨5⟩)), .run 3]

/-- The bound on the program counter is met, and the program with the subroutine is aligned in
the middle of a run and at its end. -/
theorem reachable_bounds_leap :
    ((blank (some 7) (.ofSeed 7)).afterAll leap).pc.toNat = 0x10FE ∧
    ((blank (some 7) (.ofSeed 7)).afterAll leap).pc.toNat ≤ 0x10FE ∧
    (((blank none (.ofSeed 7)).load detour).2.allCycles stroll).length = 4 ∧
    ∀ m ∈ ((blank none (.ofSeed 7)).load detour).2.allCycles stroll, m.pc.toNat % 2 = 0 := by
  obtain ⟨hpc, hlength, hjumps⟩ :
      ((blank (some 7) (.ofSeed 7)).afterAll leap).pc.toNat = 0x10FE ∧
      (((blank none (.ofSeed 7)).load detour).2.allCycles stroll).length = 4 ∧
      (∀ c ∈ ((blank none (.ofSeed 7)).load detour).2.allCycles stroll, ∀ i ∈ c.fetch.toOption,
        (i.opcode = .jump ∨ i.opcode = .call → i.nnn.toNat % 2 = 0) ∧
        (i.opcode = .jumpFromV0 → (i.nnn.toNat + (c.register 0).toNat) % 2 = 0)) := by
    decide +kernel
  have hbound := reachable_bounds.1 (some 7) (.ofSeed 7) leap (by decide) _ List.mem_cons_self
  have haligned := reachable_bounds.2 (blank none (.ofSeed 7)) detour stroll (by decide)
    (by decide) fun c hc i hf _ => hjumps c hc i (by rw [hf]; rfl)
  refine ⟨hpc, hbound.1, hlength, fun m hm => ?_⟩
  exact (haligned m (List.mem_cons_of_mem _ hm)).1

end Machine

end Chip8
