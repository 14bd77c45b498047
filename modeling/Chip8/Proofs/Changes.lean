import Chip8.Host.Random
import Chip8.Proofs.Calls
import Chip8.Proofs.Control
import Chip8.Proofs.Countdown
import Chip8.Proofs.Randomness

/-!
What one cycle may change.

Each instruction has a few parts of the machine that it may change, and these follow from its word
and from the index alone. Two instructions store to memory, each to a range that starts at the
index; so a run leaves the memory that a program was loaded into as it was, outside of the ranges
that its cycles stored to.

* `Instruction.MaySet`, `Instruction.MayStore`: the registers and the addresses that an instruction
  may change;
* `register_execute_of_not`, `byte_execute_of_not`: it changes no others;
* `changesOnly_step`: what a cycle may change, part by part;
* `byte_afterAll_of_untouched`: the memory that a history does not store to;
* `step_changes_only`: both of these.
-/

namespace Chip8

namespace Instruction

/-- The registers that the instruction may set: that of its first operand, the flag register, both
of them, or all from the first one up to that of its operand. -/
def MaySet (i : Instruction) (r : Fin registerCount) : Prop :=
  match i.opcode with
  | .setByte | .addByte | .randomByte | .readDelay | .awaitKey => r = i.x
  | .arithmetic .assign | .arithmetic .or | .arithmetic .and | .arithmetic .xor => r = i.x
  | .arithmetic _ => r = i.x ∨ r = flagRegister
  | .drawSprite | .advanceIndex => r = flagRegister
  | .fetchRegisters => r ≤ i.x
  | _ => False

/-- The addresses that the instruction may store to when the index is `start`. -/
def MayStore (i : Instruction) (start a : Nat) : Prop :=
  (i.opcode = .storeDecimal ∧ start ≤ a ∧ a < start + 3) ∨
    (i.opcode = .storeRegisters ∧ start ≤ a ∧ a ≤ start + i.x)

instance (i : Instruction) (start a : Nat) : Decidable (i.MayStore start a) :=
  inferInstanceAs (Decidable (_ ∨ _))

/-- The second machine differs from the first at most in the program counter and in what the
instruction may change. -/
structure ChangesOnly [RandomSource] (i : Instruction) (m m' : Machine) : Prop where
  registers : ∀ r, m'.register r ≠ m.register r → i.MaySet r
  index : m'.index ≠ m.index →
    i.opcode = .setIndex ∨ i.opcode = .advanceIndex ∨ i.opcode = .locateDigit
  memory : ∀ a, m'.memory.byte a ≠ m.memory.byte a → i.MayStore m.index.toNat a
  depth : m'.stack.depth ≠ m.stack.depth →
    (i.opcode = .call ∧ m'.stack.depth = m.stack.depth + 1) ∨
      (i.opcode = .leave ∧ m'.stack.depth + 1 = m.stack.depth)
  slots : ∀ n (h : n < stackCapacity), m'.stack.slots[n] ≠ m.stack.slots[n] →
    i.opcode = .call ∧ n = m.stack.depth
  screen : m'.screen ≠ m.screen → i.opcode = .clearScreen ∨ i.opcode = .drawSprite
  delay : m'.timers.delay ≠ m.timers.delay → i.opcode = .startDelay
  sound : m'.timers.sound ≠ m.timers.sound → i.opcode = .startSound
  key : m'.key = m.key
  random : m'.random ≠ m.random → i.opcode = .randomByte
  seed : m'.seed = m.seed

end Instruction

namespace Machine

section Source

variable [RandomSource] {m : Machine} {i : Instruction} {r : Fin registerCount} {a : Nat}

/-! ### Registers -/

lemma register_setRegister (m : Machine) (s : Fin registerCount) (v : UInt8)
    (r : Fin registerCount) : (m.setRegister s v).register r = if r = s then v else m.register r :=
  Processor.register_setRegister _ s r v

lemma register_setRegister_of_ne (m : Machine) {s : Fin registerCount} (h : r ≠ s) (v : UInt8) :
    (m.setRegister s v).register r = m.register r :=
  (register_setRegister m s v r).trans (if_neg h)

lemma register_store (m : Machine) (start : Nat) (data : List UInt8) (r : Fin registerCount) :
    (m.store start data).2.register r = m.register r := by
  rw [store]
  cases m.memory.writeSlice start data <;> rfl

/-- A computation sets the register of its result, and the flag register if it has a flag. -/
lemma register_compute_of_ne (m : Machine) {op : Arithmetic} {x y : Fin registerCount} (hx : r ≠ x)
    (hflag : op.flag? (m.register x) (m.register y) ≠ none → r ≠ flagRegister) :
    (m.compute op x y).register r = m.register r := by
  rw [compute]
  cases hf : op.flag? (m.register x) (m.register y) with
  | none => exact register_setRegister_of_ne m hx _
  | some f =>
    have hr : r ≠ flagRegister := hflag (by simp [hf])
    exact (register_setRegister_of_ne _ hr f).trans (register_setRegister_of_ne m hx _)

lemma register_setFirstRegisters_of_le (m : Machine) {values : List UInt8}
    (h : values.length ≤ r.val) : (m.setFirstRegisters values).register r = m.register r := by
  simp [setFirstRegisters, Processor.register, List.getElem?_eq_none h]

/-- **An instruction sets no register but those that it may set.** -/
theorem register_execute_of_not (m : Machine) (h : ¬ i.MaySet r) :
    (m.execute i).2.register r = m.register r := by
  rw [execute]
  rw [Instruction.MaySet] at h
  -- by opcode: `h` then says which registers the instruction leaves alone
  cases op : i.opcode <;> simp only [op] at h
  case arithmetic o =>
    have hx : r ≠ i.x := by cases o <;> simp_all
    have hflag : o.flag? (m.register i.x) (m.register i.y) ≠ none → r ≠ flagRegister := by
      cases o <;> simp_all [Arithmetic.flag?]
    exact register_compute_of_ne m hx hflag
  case leave => cases m.stack.pop <;> rfl
  case call => cases m.stack.push (m.pc + 2) <;> rfl
  case drawSprite =>
    cases m.memory.slice m.index.toNat i.n with
    | error f => rfl
    | ok rows => exact register_setRegister_of_ne _ h _
  case awaitKey =>
    cases m.key with
    | none => rfl
    | some k => exact register_setRegister_of_ne _ h _
  case storeDecimal | storeRegisters => exact register_store m _ _ r
  case fetchRegisters =>
    cases hs : m.memory.slice m.index.toNat (i.x.val + 1) with
    | error f => rfl
    | ok values =>
      obtain ⟨-, rfl⟩ := Memory.slice_eq_ok_iff.1 hs
      refine register_setFirstRegisters_of_le m ?_
      rw [List.length_ofFn]
      exact Nat.not_le.1 h
  case setByte | addByte | randomByte | readDelay | advanceIndex =>
    exact register_setRegister_of_ne _ h _
  all_goals rfl

/-! ### Memory -/

lemma byte_store_of_not (m : Machine) {start : Nat} {data : List UInt8}
    (h : ¬ (start ≤ a ∧ a < start + data.length)) :
    (m.store start data).2.memory.byte a = m.memory.byte a := by
  rw [store]
  cases hw : m.memory.writeSlice start data with
  | error f => rfl
  | ok memory =>
    obtain ⟨hrange, rfl⟩ := Memory.writeSlice_eq_ok_iff.1 hw
    rcases hrange with hempty | hfits
    · obtain rfl := List.length_eq_zero_iff.1 hempty
      rfl
    · exact (Memory.byte_overwrite _ _ _ _ hfits).trans (if_neg h)

/-- **An instruction stores to no address but those that it may store to.** -/
theorem byte_execute_of_not (m : Machine) (h : ¬ i.MayStore m.index.toNat a) :
    (m.execute i).2.memory.byte a = m.memory.byte a := by
  by_cases hd : i.opcode = .storeDecimal
  · rw [execute, hd]
    exact byte_store_of_not m fun hin => h (.inl ⟨hd, hin⟩)
  by_cases hr : i.opcode = .storeRegisters
  · rw [execute, hr]
    refine byte_store_of_not m fun hin => h (.inr ⟨hr, ?_⟩)
    rw [length_firstRegisters] at hin
    omega
  · rw [(execute_keeps m i).memory hd hr]

/-! ### One cycle -/

/-- **The return stack in a cycle**: its depth changes by a call or a return only, and the only slot
that is written is the first free one, by a call. -/
theorem stack_step_changes (hf : m.fetch = .ok i) :
    (m.step.2.stack.depth ≠ m.stack.depth →
      (i.opcode = .call ∧ m.step.2.stack.depth = m.stack.depth + 1) ∨
        (i.opcode = .leave ∧ m.step.2.stack.depth + 1 = m.stack.depth)) ∧
    (∀ n (h : n < stackCapacity), m.step.2.stack.slots[n] ≠ m.stack.slots[n] →
      i.opcode = .call ∧ n = m.stack.depth) := by
  rcases step_stack_cases m with hs | ⟨j, stack, hj, op, hp, hs⟩ | ⟨j, b, stack, hj, op, hp, hs⟩
  · rw [hs]
    exact ⟨fun h => absurd rfl h, fun n hn h => absurd rfl h⟩
  · obtain rfl : i = j := by simpa [hf] using hj
    obtain ⟨hroom, rfl⟩ := ReturnStack.push_eq_ok_iff.1 hp
    rw [hs]
    refine ⟨fun _ => .inl ⟨op, rfl⟩, fun n hn h => ⟨op, ?_⟩⟩
    by_contra hne
    exact h (Vector.getElem_set_ne hroom hn (Ne.symm hne))
  · obtain rfl : i = j := by simpa [hf] using hj
    obtain ⟨hdepth, hslots, -⟩ := ReturnStack.pop_eq_ok_iff.1 hp
    rw [hs]
    exact ⟨fun _ => .inr ⟨op, hdepth.symm⟩, fun n hn h => absurd (congrArg (·[n]) hslots) h⟩

/-- **What a cycle may change**, part by part, also when it fails. -/
theorem changesOnly_step (hf : m.fetch = .ok i) : i.ChangesOnly m m.step.2 := by
  have keeps := execute_keeps m i
  obtain ⟨hdepth, hslots⟩ := stack_step_changes hf
  obtain ⟨pc, hp⟩ := exists_perform_eq m i
  rw [← step_of_fetch hf] at hp
  -- a cycle adds to the execution only the new program counter, which may always change
  rw [hp] at hdepth hslots ⊢
  constructor
  case registers => exact fun r => not_imp_comm.1 (register_execute_of_not m)
  case index =>
    intro hne
    by_contra hno
    simp only [not_or] at hno
    exact hne (keeps.index hno.1 hno.2.1 hno.2.2)
  case memory => exact fun a => not_imp_comm.1 (byte_execute_of_not m)
  case depth => exact hdepth
  case slots => exact hslots
  case screen =>
    intro hne
    by_contra hno
    simp only [not_or] at hno
    exact hne (keeps.screen hno.1 hno.2)
  case delay => exact not_imp_comm.1 keeps.delay
  case sound => exact not_imp_comm.1 keeps.sound
  case key => exact keeps.key
  case random => exact not_imp_comm.1 keeps.random
  case seed => exact keeps.seed

/-! ### Histories -/

/-- The cycle that starts in the machine succeeds, and may store to the address. -/
def StoresTo (m : Machine) (a : Nat) : Prop :=
  m.step.1.isOk ∧ ∃ i, m.fetch = .ok i ∧ i.MayStore m.index.toNat a

instance (m : Machine) (a : Nat) : Decidable (m.StoresTo a) :=
  have := decidableExistsFetch m fun i => i.MayStore m.index.toNat a
  inferInstanceAs (Decidable (_ ∧ _))

lemma byte_step_of_untouched (h : ¬ m.StoresTo a) : m.step.2.memory.byte a = m.memory.byte a := by
  cases hs : m.step.1 with
  | error f => rw [step_of_error hs]
  | ok signal =>
    obtain ⟨i, -, -, hf, -⟩ := exists_of_step_ok hs
    by_contra hne
    exact h ⟨by rw [hs]; rfl, i, hf, (changesOnly_step hf).memory a hne⟩

/-- An operation of a driver that loads nothing keeps the bytes that its cycles do not store to. -/
lemma byte_operate_of_untouched {o : Operation} (driving : o.IsDriving) (kept : ¬ o.Reloads)
    (untouched : ∀ c ∈ m.cyclesOf o, ¬ c.StoresTo a) :
    (m.operate o).2.memory.byte a = m.memory.byte a := by
  cases o with
  | act action =>
    cases action with
    | step => exact byte_step_of_untouched (untouched m (List.mem_singleton_self m))
    | tick | press => rfl
  | run count =>
    exact (runFrom_invariant (P := fun c => c.memory.byte a = m.memory.byte a) rfl .ran count
      fun c hc hbyte => (byte_step_of_untouched (untouched c hc)).trans hbyte).1
  | load program =>
    show (m.load program).2.memory.byte a = _
    rw [load_of_oversized (Nat.not_le.1 kept)]
  | loadWords words =>
    show (m.load _).2.memory.byte a = _
    rw [load_of_oversized (by rw [Memory.length_bytesOfWords]; exact Nat.not_le.1 kept)]
  | edit e => exact absurd driving id

/-- **A history keeps the bytes that its cycles do not store to**, as long as it is that of a driver
and loads nothing. -/
theorem byte_afterAll_of_untouched {history : List Operation}
    (driving : ∀ o ∈ history, o.IsDriving) (kept : ∀ o ∈ history, ¬ o.Reloads)
    (untouched : ∀ c ∈ m.allCycles history, ¬ c.StoresTo a) :
    (m.afterAll history).memory.byte a = m.memory.byte a := by
  induction history generalizing m with
  | nil => rfl
  | cons o rest ih =>
    rw [List.forall_mem_cons] at driving kept
    rw [allCycles, List.forall_mem_append] at untouched
    exact (ih driving.2 kept.2 untouched.2).trans
      (byte_operate_of_untouched driving.1 kept.1 untouched.1)

/-- **What one cycle may change.** A cycle that succeeds has executed an instruction, and it changes
no part of the machine, the program counter apart, but those that this instruction may change. In
whatever a driver does after a program was loaded, as long as it loads no other one, the memory
stays as it was loaded outside of the ranges that the cycles store to. -/
theorem step_changes_only :
    (∀ (m : Machine) signal, m.step.1 = .ok signal →
      ∃ i, m.fetch = .ok i ∧ i.ChangesOnly m m.step.2) ∧
    (∀ (before m : Machine) program, before.load program = (.ok (), m) →
      ∀ history : List Operation,
        (∀ o ∈ history, o.IsDriving) → (∀ o ∈ history, ¬ o.Reloads) →
        ∀ a, (∀ c ∈ m.allCycles history, ¬ c.StoresTo a) →
          (m.afterAll history).memory.byte a = (loadedMemory program).byte a) := by
  refine ⟨fun m signal h => ?_, fun before m program hload history driving kept a untouched => ?_⟩
  · obtain ⟨i, -, -, hf, -⟩ := exists_of_step_ok h
    exact ⟨i, hf, changesOnly_step hf⟩
  · have hmemory : m.memory = loadedMemory program := by
      rcases Nat.lt_or_ge programCapacity program.length with hsize | hsize
      · simp [load_of_oversized hsize] at hload
      · rw [load_of_fits hsize] at hload
        obtain rfl := congrArg Prod.snd hload
        rfl
    rw [byte_afterAll_of_untouched driving kept untouched, hmemory]

end Source

/-- A program that stores a number in decimal over the word behind itself, and then registers. -/
def scribble : List UInt8 :=
  [0x60, 0x7B, 0xA2, 0x08, 0xF0, 0x33, 0xF1, 0x55, 0x00, 0xE0]

/-- The machine in which it was loaded. -/
def scribbler : Machine :=
  ((blank (some 7) (.ofSeed 7)).load scribble).2

/-- A history of it that includes both stores, a tick, a key, and a program that is too large. -/
def scribbling : List Operation :=
  [.act .step, .act .tick, .run 2, .act (.press (some ⟨3⟩)), .load (.replicate 3585 0), .run 1]

/-- The first store leaves all registers alone. After both of them the word behind the program is
another one, and the bytes around the three digits are those that were loaded. -/
theorem step_changes_only_scribbling :
    (∃ i, (scribbler.after [.step, .step]).fetch = .ok i ∧ i.opcode = .storeDecimal ∧
      ∀ r, (scribbler.after [.step, .step]).step.2.register r =
        (scribbler.after [.step, .step]).register r) ∧
    (scribbler.afterAll scribbling).memory.readWord 0x208 = .ok 0x7B00 ∧
    (scribbler.afterAll scribbling).memory.byte 0x20A = 3 ∧
    (scribbler.afterAll scribbling).memory.byte 0x207 = (loadedMemory scribble).byte 0x207 ∧
    (scribbler.afterAll scribbling).memory.byte 0x20B = (loadedMemory scribble).byte 0x20B := by
  obtain ⟨hok, ⟨j, hj, op⟩, hword, hdigit, hbefore, hbehind⟩ :
      (scribbler.after [.step, .step]).step.1 = .ok .ran ∧
      (scribbler.after [.step, .step]).Executes .storeDecimal ∧
      (scribbler.afterAll scribbling).memory.readWord 0x208 = .ok 0x7B00 ∧
      (scribbler.afterAll scribbling).memory.byte 0x20A = 3 ∧
      (∀ c ∈ scribbler.allCycles scribbling, ¬ c.StoresTo 0x207) ∧
      (∀ c ∈ scribbler.allCycles scribbling, ¬ c.StoresTo 0x20B) := by
    decide +kernel
  obtain ⟨hstep, hrun⟩ := step_changes_only
  obtain ⟨i, hf, hchanges⟩ := hstep _ _ hok
  obtain rfl : i = j := Except.ok.inj (hf.symm.trans hj)
  have hload : (blank (some 7) (.ofSeed 7)).load scribble = (.ok (), scribbler) :=
    Prod.ext (congrArg Prod.fst (load_of_fits (by decide) _)) rfl
  have hkept := hrun _ _ _ hload scribbling (by decide) (by decide +kernel)
  refine ⟨⟨i, hf, op, fun r => ?_⟩, hword, hdigit, hkept _ hbefore, hkept _ hbehind⟩
  by_contra hne
  have hset := hchanges.registers r hne
  rw [Instruction.MaySet, op] at hset
  exact hset

end Machine

end Chip8
