import Chip8.Proofs.Refusal

/-!
Where the program counter goes.

A cycle that succeeds has executed one instruction, and the motion that this instruction wants
is all that moves the program counter. Most instructions want the next one or the one behind it;
only four kinds send the program counter to an address of their own, and only one can hold it.

* `exists_of_step_ok`: what a cycle that succeeds consists of;
* `wants_of_execute`: the motions that an instruction can want;
* `jumpsTo_of_execute`, `hold_of_execute`: which instructions jump, and which wait;
* `step_pc_cases`: where a cycle leaves the program counter.
-/

namespace Chip8

namespace Machine

variable [RandomSource] {m : Machine} {i : Instruction}

/-- **What a cycle that succeeds consists of**: an instruction that is fetched, its execution,
and the motion that it wants. -/
theorem exists_of_step_ok {signal : Signal} (h : m.step.1 = .ok signal) :
    ∃ i motion m', m.fetch = .ok i ∧ m.execute i = (.ok motion, m') ∧
      signal = .of i.opcode motion ∧ m.step.2 = { m' with pc := motion.target m.pc } := by
  cases hf : m.fetch with
  | error f => simp [step_of_fetch_error hf] at h
  | ok i =>
    rw [step_of_fetch hf] at h ⊢
    rcases hx : m.execute i with ⟨f | motion, m'⟩
    · simp [perform_of_error (m := m) (f := f) (congrArg Prod.fst hx)] at h
    · rw [perform_of_ok hx] at h ⊢
      exact ⟨i, motion, m', rfl, hx, by simpa using h.symm, rfl⟩

lemma step_of_execute {motion : Motion} {m' : Machine} (hf : m.fetch = .ok i)
    (hx : m.execute i = (.ok motion, m')) :
    m.step = (.ok (.of i.opcode motion), { m' with pc := motion.target m.pc }) := by
  rw [step_of_fetch hf, perform_of_ok hx]

/-! ### Motions -/

/-- The addresses to which an instruction sends the program counter. -/
inductive JumpsTo (m : Machine) (i : Instruction) : UInt16 → Prop where
  | jump (op : i.opcode = .jump) : JumpsTo m i i.nnn
  | call (op : i.opcode = .call) : JumpsTo m i i.nnn
  | offset (op : i.opcode = .jumpFromV0) : JumpsTo m i (i.nnn + (m.register 0).toUInt16)
  | leave (op : i.opcode = .leave) {a : UInt16} {stack : ReturnStack}
      (pop : m.stack.pop = .ok (a, stack)) : JumpsTo m i a

/-- The motions that an instruction can want. -/
inductive Wants (m : Machine) (i : Instruction) : Motion → Prop where
  | next : Wants m i .next
  | skip : Wants m i .skip
  | jump {a : UInt16} (jumps : m.JumpsTo i a) : Wants m i (.jump a)
  | hold (op : i.opcode = .awaitKey) (key : m.key = none) : Wants m i .hold

lemma wants_skipIf (p : Prop) [Decidable p] : m.Wants i (.skipIf p) := by
  rw [Motion.skipIf]
  split
  · exact .skip
  · exact .next

/-- **What an instruction wants**: the next one, the one behind it, an address if it is a jump, a
call or a return, or no motion if it waits for a key and there is none. -/
theorem wants_of_execute {motion : Motion} (h : (m.execute i).1 = .ok motion) :
    m.Wants i motion := by
  rw [execute] at h
  -- by opcode: where it can fail, the failure contradicts `h`; whatever does not jump, hold or
  -- skip goes on to the next instruction
  cases op : i.opcode <;> simp only [op] at h
  case jump =>
    cases h
    exact .jump (.jump op)
  case jumpFromV0 =>
    cases h
    exact .jump (.offset op)
  case leave =>
    cases hp : m.stack.pop with
    | error f => simp [hp] at h
    | ok r =>
      simp only [hp] at h
      cases h
      exact .jump (.leave op hp)
  case call =>
    cases hp : m.stack.push (m.pc + 2) with
    | error f => simp [hp] at h
    | ok stack =>
      simp only [hp] at h
      cases h
      exact .jump (.call op)
  case awaitKey =>
    cases hk : m.key with
    | none =>
      simp only [hk] at h
      cases h
      exact .hold op hk
    | some k =>
      simp only [hk] at h
      cases h
      exact .next
  case drawSprite =>
    cases hs : m.memory.slice m.index.toNat i.n with
    | error f => simp [hs] at h
    | ok rows =>
      simp only [hs] at h
      cases h
      exact .next
  case fetchRegisters =>
    cases hs : m.memory.slice m.index.toNat (i.x.val + 1) with
    | error f => simp [hs] at h
    | ok values =>
      simp only [hs] at h
      cases h
      exact .next
  case storeDecimal => exact (thenNext_ok_iff.1 h).2 ▸ .next
  case storeRegisters => exact (thenNext_ok_iff.1 h).2 ▸ .next
  case skipIfByte | skipUnlessByte | skipIfSame | skipUnlessSame | skipIfKey | skipUnlessKey =>
    cases h
    exact wants_skipIf _
  all_goals
    cases h
    exact .next

/-- **An instruction that jumps is a jump, a call or a return.** -/
theorem jumpsTo_of_execute {a : UInt16} (h : (m.execute i).1 = .ok (.jump a)) :
    m.JumpsTo i a := by
  cases wants_of_execute h with
  | jump jumps => exact jumps

/-- **Only one instruction holds the program counter**, and only without a key. -/
theorem hold_of_execute (h : (m.execute i).1 = .ok .hold) :
    i.opcode = .awaitKey ∧ m.key = none := by
  cases wants_of_execute h with
  | hold op key => exact ⟨op, key⟩

/-- **Where a cycle leaves the program counter**: where it was, behind the instruction, behind
the instruction after that, or where the instruction jumps. -/
theorem step_pc_cases (m : Machine) :
    m.step.2.pc = m.pc ∨
    ∃ i, m.fetch = .ok i ∧ m.step.1.isOk ∧
      (m.step.2.pc = m.pc + 2 ∨ m.step.2.pc = m.pc + 4 ∨ m.JumpsTo i m.step.2.pc) := by
  cases hs : m.step.1 with
  | error f => exact .inl (by rw [step_of_error hs])
  | ok signal =>
    obtain ⟨i, motion, m', hf, hx, -, hnext⟩ := exists_of_step_ok hs
    rw [hnext]
    cases motion with
    | next => exact .inr ⟨i, hf, rfl, .inl rfl⟩
    | skip => exact .inr ⟨i, hf, rfl, .inr (.inl rfl)⟩
    | jump a =>
      have hjump : m.JumpsTo i a := jumpsTo_of_execute (congrArg Prod.fst hx)
      exact .inr ⟨i, hf, rfl, .inr (.inr hjump)⟩
    | hold => exact .inl rfl

end Machine

end Chip8
