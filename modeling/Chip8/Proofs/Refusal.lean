import Mathlib.Tactic.Common
import Chip8.Machine.Cycle

/-!
When the machine refuses to go on.

A cycle fails in one of three stages: the word cannot be fetched, the word is no
instruction, or the instruction asks for something that the machine does not have.
The last of these is `Processor.Refuses`, a relation between a processor, an
instruction and a fault; the timers, the key and the random bytes have no part in it.

* `execute_error_iff`: an instruction fails exactly if it is refused;
* `step_error_iff`: a cycle fails exactly in its fetch or by a refusal;
* `step_of_error`: a cycle that fails leaves the machine as it was;
* `step_error_congr`: the fault of a cycle depends on the processor alone.
-/

namespace Chip8

/-- The number of bytes that an instruction reads or writes from the index on. -/
def Instruction.span (i : Instruction) : Nat :=
  match i.opcode with
  | .drawSprite => i.n
  | .storeDecimal => 3
  | .storeRegisters | .fetchRegisters => i.x.val + 1
  | _ => 0

/-! ### Refusal -/

/-- What makes a processor refuse an instruction: no address to return to, no slot
left for a return address, or bytes past the end of memory. -/
inductive Processor.Refuses (p : Processor) (i : Instruction) : Fault → Prop where
  | leave (op : i.opcode = .leave) (empty : p.stack.depth = 0) : Refuses p i .stackUnderflow
  | call (op : i.opcode = .call) (full : p.stack.depth = stackCapacity) :
      Refuses p i .stackOverflow
  | reach (beyond : ¬ Memory.InRange p.index.toNat i.span) :
      Refuses p i (.outOfMemory p.index.toNat i.span)

namespace Processor

variable {p : Processor} {i : Instruction} {f : Fault}

lemma inRange_span_of_eq_zero (h : i.span = 0) : Memory.InRange p.index.toNat i.span :=
  .inl h

lemma refuses_leave_iff (op : i.opcode = .leave) : p.Refuses i f ↔ p.stack.pop = .error f := by
  have hspan : i.span = 0 := by rw [Instruction.span, op]
  rw [ReturnStack.pop_eq_error_iff]
  constructor
  · rintro (⟨_, h⟩ | ⟨op', _⟩ | h)
    · exact ⟨h, rfl⟩
    · simp [op] at op'
    · exact absurd (inRange_span_of_eq_zero hspan) h
  · rintro ⟨h, rfl⟩
    exact .leave op h

/-- A call is refused as the return stack refuses it, whatever address it pushes. -/
lemma refuses_call_iff (op : i.opcode = .call) (a : UInt16) :
    p.Refuses i f ↔ p.stack.push a = .error f := by
  have hspan : i.span = 0 := by rw [Instruction.span, op]
  rw [ReturnStack.push_eq_error_iff]
  constructor
  · rintro (⟨op', _⟩ | ⟨_, h⟩ | h)
    · simp [op] at op'
    · exact ⟨h, rfl⟩
    · exact absurd (inRange_span_of_eq_zero hspan) h
  · rintro ⟨h, rfl⟩
    exact .call op h

/-- Any other instruction is refused if its span leaves memory. -/
lemma refuses_iff_of_ne (hl : i.opcode ≠ .leave) (hc : i.opcode ≠ .call) :
    p.Refuses i f ↔
      ¬ Memory.InRange p.index.toNat i.span ∧ f = .outOfMemory p.index.toNat i.span := by
  constructor
  · rintro (⟨op, _⟩ | ⟨op, _⟩ | h)
    · exact absurd op hl
    · exact absurd op hc
    · exact ⟨h, rfl⟩
  · rintro ⟨h, rfl⟩
    exact .reach h

end Processor

namespace Machine

variable [RandomSource] {m : Machine} {i : Instruction} {f : Fault}

/-! ### Instructions -/

lemma store_error_iff {a : Nat} {data : List UInt8} :
    (m.store a data).1 = .error f ↔
      ¬ Memory.InRange a data.length ∧ f = .outOfMemory a data.length := by
  rw [← Memory.writeSlice_eq_error_iff (m := m.memory), store]
  cases m.memory.writeSlice a data <;> simp

lemma store_of_error {a : Nat} {data : List UInt8} (h : (m.store a data).1 = .error f) :
    (m.store a data).2 = m := by
  revert h
  rw [store]
  cases m.memory.writeSlice a data <;> simp

lemma length_firstRegisters (r : Fin registerCount) :
    (m.firstRegisters (r.val + 1)).length = r.val + 1 := by
  simp only [firstRegisters, List.length_take, Vector.length_toList]
  omega

/-- **An instruction fails exactly if it is refused**, and with the fault of the
refusal. -/
theorem execute_error_iff : (m.execute i).1 = .error f ↔ m.Refuses i f := by
  rw [execute]
  cases op : i.opcode
  case leave =>
    rw [Processor.refuses_leave_iff op]
    cases m.stack.pop <;> simp
  case call =>
    rw [Processor.refuses_call_iff op (m.pc + 2)]
    cases m.stack.push (m.pc + 2) <;> simp
  -- no other instruction concerns the return stack, so what counts is the span
  all_goals rw [Processor.refuses_iff_of_ne (by simp [op]) (by simp [op]), Instruction.span, op]
  case drawSprite =>
    rw [← Memory.slice_eq_error_iff (m := m.memory)]
    cases m.memory.slice m.index.toNat i.n <;> simp
  case storeDecimal =>
    rw [thenNext_error_iff, store_error_iff]
    rfl
  case storeRegisters =>
    rw [thenNext_error_iff, store_error_iff, length_firstRegisters]
  case fetchRegisters =>
    rw [← Memory.slice_eq_error_iff (m := m.memory)]
    cases m.memory.slice m.index.toNat (i.x.val + 1) <;> simp
  case awaitKey => cases m.key <;> simp [Memory.InRange]
  all_goals simp [Memory.InRange]

/-- **An instruction that fails leaves the machine as it was.** -/
theorem execute_of_error (h : (m.execute i).1 = .error f) : (m.execute i).2 = m := by
  revert h
  rw [execute]
  cases i.opcode
  case leave => cases m.stack.pop <;> simp
  case call => cases m.stack.push (m.pc + 2) <;> simp
  case drawSprite => cases m.memory.slice m.index.toNat i.n <;> simp
  case fetchRegisters => cases m.memory.slice m.index.toNat (i.x.val + 1) <;> simp
  case storeDecimal => exact fun h => store_of_error (thenNext_error_iff.1 h)
  case storeRegisters => exact fun h => store_of_error (thenNext_error_iff.1 h)
  case awaitKey => cases m.key <;> simp
  all_goals simp

/-! ### Cycles -/

lemma step_of_fetch (h : m.fetch = .ok i) : m.step = m.perform i := by
  rw [step, h]

lemma step_of_fetch_error (h : m.fetch = .error f) : m.step = (.error f, m) := by
  rw [step, h]

lemma perform_of_ok {motion : Motion} {m' : Machine} (h : m.execute i = (.ok motion, m')) :
    m.perform i = (.ok (.of i.opcode motion), { m' with pc := motion.target m.pc }) := by
  rw [perform, h]

lemma perform_of_error (h : (m.execute i).1 = .error f) : m.perform i = (.error f, m) := by
  have he : m.execute i = (.error f, m) := Prod.ext h (execute_of_error h)
  rw [perform, he]

lemma perform_error_iff : (m.perform i).1 = .error f ↔ (m.execute i).1 = .error f := by
  rcases hx : m.execute i with ⟨g | motion, m'⟩
  · simp [perform_of_error (m := m) (f := g) (congrArg Prod.fst hx)]
  · simp [perform_of_ok hx]

/-- **A cycle fails exactly in its fetch or by a refusal.** -/
theorem step_error_iff :
    m.step.1 = .error f ↔ m.fetch = .error f ∨ ∃ i, m.fetch = .ok i ∧ m.Refuses i f := by
  cases hf : m.fetch with
  | error g => simp [step_of_fetch_error hf]
  | ok i =>
    rw [step_of_fetch hf, perform_error_iff, execute_error_iff]
    simp

/-- **A cycle that fails leaves the machine as it was.** -/
theorem step_of_error (h : m.step.1 = .error f) : m.step = (.error f, m) := by
  cases hf : m.fetch with
  | error g =>
    rw [step_of_fetch_error hf] at h ⊢
    exact Prod.ext h rfl
  | ok i =>
    rw [step_of_fetch hf] at h ⊢
    exact perform_of_error (perform_error_iff.1 h)

variable {a b : Machine}

lemma fetch_congr (same : a.toProcessor = b.toProcessor) : a.fetch = b.fetch := by
  rw [fetch, fetch, same]

/-- **The fault of a cycle depends on the processor alone.** -/
theorem step_error_congr (same : a.toProcessor = b.toProcessor) :
    a.step.1 = .error f ↔ b.step.1 = .error f := by
  rw [step_error_iff, step_error_iff, fetch_congr same, same]

end Machine

end Chip8
