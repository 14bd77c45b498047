import Chip8.Host.Random
import Chip8.Proofs.Bounds
import Chip8.Proofs.Changes
import Chip8.Proofs.Waiting

/-!
Where a cycle goes, and what it reports.

Both are settled by the instruction and the machine before the cycle, with a table each: jumps,
calls and returns go to an address of their own, waiting for a key stays in place, a skip goes past
one instruction more if its condition holds, and everything else goes on. The reports are enough for
a driver that shows the screen: if it takes over the screen when a program is loaded, and after each
cycle that reports that it drew, then it always shows the screen of the machine.

* `Instruction.destination?`, `Instruction.report`: the tables, and `step_goes`: they are right;
* `step_of_skip`, `skips_opposite`: what a skip leaves, and which one of two opposite skips skips;
* `screen_step_of_ne_drew`, `IsCurrent.afterAll`: what a driver shows that goes by the reports;
* `signals_exact`: all of this together.
-/

namespace Chip8

/-! ### Destinations and reports -/

section Source

variable [RandomSource]

namespace Machine

/-- The address behind the instruction, or under a condition the one behind the next. -/
def onward (m : Machine) (p : Prop) [Decidable p] : Nat :=
  if p then m.pc.toNat + 4 else m.pc.toNat + 2

end Machine

namespace Opcode

/-- The instructions that skip. -/
def skips : List Opcode :=
  [.skipIfByte, .skipUnlessByte, .skipIfSame, .skipUnlessSame, .skipIfKey, .skipUnlessKey]

/-- The pairs of skips under opposite conditions. -/
def oppositeSkips : List (Opcode × Opcode) :=
  [(.skipIfByte, .skipUnlessByte), (.skipIfSame, .skipUnlessSame), (.skipIfKey, .skipUnlessKey)]

end Opcode

namespace Instruction

/-- Where a cycle with the instruction goes, from the machine before it; nowhere if it returns and
no address is pending. A register that is no code of a key differs from any key. -/
def destination? (i : Instruction) (m : Machine) : Option Nat :=
  match i.opcode with
  | .jump | .call => some i.nnn.toNat
  | .jumpFromV0 => some (i.nnn.toNat + (m.register 0).toNat)
  | .leave => m.stack.top?.map UInt16.toNat
  | .awaitKey => some (if m.key = none then m.pc.toNat else m.pc.toNat + 2)
  | .skipIfByte => some (m.onward (m.register i.x = i.nn))
  | .skipUnlessByte => some (m.onward (m.register i.x ≠ i.nn))
  | .skipIfSame => some (m.onward (m.register i.x = m.register i.y))
  | .skipUnlessSame => some (m.onward (m.register i.x ≠ m.register i.y))
  | .skipIfKey => some (m.onward (m.key.map (·.code.val) = some (m.register i.x).toNat))
  | .skipUnlessKey => some (m.onward (m.key.map (·.code.val) ≠ some (m.register i.x).toNat))
  | _ => some (m.pc.toNat + 2)

/-- What a cycle with the instruction reports, from the machine before it. -/
def report (i : Instruction) (m : Machine) : Signal :=
  match i.opcode with
  | .jump | .call | .jumpFromV0 | .leave => .jumped
  | .awaitKey => if m.key = none then .awaiting else .ran
  | .clearScreen | .drawSprite => .drew
  | .startSound => .sounded
  | _ => .ran

end Instruction

namespace Machine

variable {m m' : Machine} {i j : Instruction} {motion : Motion} {signal : Signal}

lemma keyIs_iff (code : UInt8) :
    m.KeyIs code ↔ m.key.map (·.code.val) = some code.toNat := by
  have htoNat (k : Key) : k.toByte.toNat = k.code.val := by
    have hk := k.code.isLt
    rw [Key.toByte, UInt8.toNat_ofNat']
    omega
  rw [KeyIs]
  cases m.key with
  | none => simp
  | some k => simp [← UInt8.toNat_inj, htoNat]

lemma target_skipIf (hf : m.fetch = .ok i) {p q : Prop} [Decidable p] [Decidable q] (h : p ↔ q) :
    ((Motion.skipIf p).target m.pc).toNat = m.onward q := by
  rw [Motion.skipIf, onward]
  by_cases hp : p
  · rw [if_pos hp, if_pos (h.1 hp)]
    exact toNat_pc_add_four hf
  · rw [if_neg hp, if_neg (mt h.2 hp)]
    exact toNat_pc_add_two hf

omit [RandomSource] in
/-- The report on a skip does not tell whether it has skipped. -/
lemma signal_of_skipIf {op : Opcode} (h : op ∈ Opcode.skips) (p : Prop) [Decidable p] :
    Signal.of op (.skipIf p) = .ran := by
  have hran : ∀ op ∈ Opcode.skips, Signal.of op .next = .ran ∧ Signal.of op .skip = .ran := by
    decide
  rw [Motion.skipIf]
  split
  · exact (hran op h).2
  · exact (hran op h).1

/-- **Where an instruction goes that succeeds**, and what is reported on it. -/
theorem goes_of_execute (hf : m.fetch = .ok i) (hx : m.execute i = (.ok motion, m')) :
    i.destination? m = some (motion.target m.pc).toNat ∧
      Signal.of i.opcode motion = i.report m := by
  have hnext : some (m.pc.toNat + 2) = some (Motion.next.target m.pc).toNat :=
    congrArg some (toNat_pc_add_two hf).symm
  rw [execute] at hx
  rw [Instruction.destination?, Instruction.report]
  cases op : i.opcode <;> simp only [op] at hx ⊢
  case jump =>
    cases hx
    exact ⟨rfl, rfl⟩
  case jumpFromV0 =>
    cases hx
    exact ⟨congrArg some (i.toNat_nnn_add _).symm, rfl⟩
  case leave =>
    cases hp : m.stack.pop with
    | error f => simp [hp] at hx
    | ok r =>
      simp only [hp] at hx
      cases hx
      rw [ReturnStack.top?_of_pop hp]
      exact ⟨rfl, rfl⟩
  case call =>
    cases hp : m.stack.push (m.pc + 2) with
    | error f => simp [hp] at hx
    | ok stack =>
      simp only [hp] at hx
      cases hx
      exact ⟨rfl, rfl⟩
  case awaitKey =>
    cases hk : m.key with
    | none =>
      simp only [hk] at hx
      cases hx
      exact ⟨rfl, rfl⟩
    | some k =>
      simp only [hk] at hx
      cases hx
      exact ⟨hnext, rfl⟩
  case skipIfByte | skipUnlessByte | skipIfSame | skipUnlessSame =>
    cases hx
    exact ⟨congrArg some (target_skipIf hf Iff.rfl).symm, signal_of_skipIf (by decide) _⟩
  case skipIfKey =>
    cases hx
    exact ⟨congrArg some (target_skipIf hf (keyIs_iff _)).symm, signal_of_skipIf (by decide) _⟩
  case skipUnlessKey =>
    cases hx
    exact ⟨congrArg some (target_skipIf hf (not_congr (keyIs_iff _))).symm,
      signal_of_skipIf (by decide) _⟩
  -- everything else goes on, if it succeeds
  case drawSprite =>
    cases hs : m.memory.slice m.index.toNat i.n with
    | error f => simp [hs] at hx
    | ok rows =>
      simp only [hs] at hx
      cases hx
      exact ⟨hnext, rfl⟩
  case fetchRegisters =>
    cases hs : m.memory.slice m.index.toNat (i.x.val + 1) with
    | error f => simp [hs] at hx
    | ok values =>
      simp only [hs] at hx
      cases hx
      exact ⟨hnext, rfl⟩
  case storeDecimal | storeRegisters =>
    obtain ⟨-, rfl⟩ := thenNext_ok_iff.1 (congrArg Prod.fst hx)
    exact ⟨hnext, rfl⟩
  all_goals
    cases hx
    exact ⟨hnext, rfl⟩

/-- **Where a cycle goes that succeeds, and what it reports**, from the machine before it. -/
theorem step_goes (h : m.step.1 = .ok signal) :
    ∃ i, m.fetch = .ok i ∧ i.destination? m = some m.step.2.pc.toNat ∧ signal = i.report m := by
  obtain ⟨i, motion, m', hf, hx, hsignal, hstep⟩ := exists_of_step_ok h
  obtain ⟨hdestination, hreport⟩ := goes_of_execute hf hx
  refine ⟨i, hf, ?_, hsignal.trans hreport⟩
  rw [hstep]
  exact hdestination

/-! ### Skips -/

/-- **A cycle that skips or not changes nothing but the program counter**, and always succeeds. -/
theorem step_of_skip (hf : m.fetch = .ok i) (hskip : i.opcode ∈ Opcode.skips) :
    m.step = (.ok .ran, { m with pc := m.step.2.pc }) := by
  have hx : ∃ (p : Prop) (_ : Decidable p), m.execute i = (.ok (.skipIf p), m) := by
    rw [execute]
    simp only [Opcode.skips, List.mem_cons, List.not_mem_nil, or_false] at hskip
    rcases hskip with op | op | op | op | op | op <;> exact ⟨_, _, by rw [op]⟩
  obtain ⟨p, _, hx⟩ := hx
  rw [step_of_execute hf hx, signal_of_skipIf hskip]

lemma destination?_of_skip (hf : m.fetch = .ok i) (hskip : i.opcode ∈ Opcode.skips) :
    i.destination? m = some m.step.2.pc.toNat := by
  obtain ⟨j, hj, hdestination, -⟩ := step_goes (congrArg Prod.fst (step_of_skip hf hskip))
  obtain rfl : i = j := Except.ok.inj (hf.symm.trans hj)
  exact hdestination

/-- Under opposite conditions one of two machines goes on, and the other one goes past. -/
lemma onward_opposite (m m' : Machine) {p q : Prop} [Decidable p] [Decidable q] (h : q ↔ ¬ p) :
    (m.onward p = m.pc.toNat + 4 ∧ m'.onward q = m'.pc.toNat + 2) ∨
      (m.onward p = m.pc.toNat + 2 ∧ m'.onward q = m'.pc.toNat + 4) := by
  rw [onward, onward]
  by_cases hp : p
  · exact .inl ⟨if_pos hp, if_neg fun hq => h.1 hq hp⟩
  · exact .inr ⟨if_neg hp, if_pos (h.2 hp)⟩

/-- **Of two opposite skips with the same operands exactly one skips**, whatever else is different
between the machines that they are executed in. -/
theorem skips_opposite (hf : m.fetch = .ok i) (hf' : m'.fetch = .ok j)
    (opposite : (i.opcode, j.opcode) ∈ Opcode.oppositeSkips) (operands : i.operands = j.operands)
    (registers : m'.registers = m.registers) (key : m'.key = m.key) :
    (m.step.2.pc.toNat = m.pc.toNat + 4 ∧ m'.step.2.pc.toNat = m'.pc.toNat + 2) ∨
      (m.step.2.pc.toNat = m.pc.toNat + 2 ∧ m'.step.2.pc.toNat = m'.pc.toNat + 4) := by
  have hskips : ∀ pair ∈ Opcode.oppositeSkips, pair.1 ∈ Opcode.skips ∧ pair.2 ∈ Opcode.skips := by
    decide
  obtain ⟨hskip, hskip'⟩ := hskips _ opposite
  have hi := destination?_of_skip hf hskip
  have hj := destination?_of_skip hf' hskip'
  have hregister (r : Fin registerCount) : m'.register r = m.register r := by
    rw [Processor.register, registers, Processor.register]
  -- equal operands are equal fields, and these are all that a skip compares
  have hx (h : Field.x.value i.word = Field.x.value j.word) : i.x = j.x :=
    Fin.ext (congrArg UInt16.toNat h)
  have hy (h : Field.y.value i.word = Field.y.value j.word) : i.y = j.y :=
    Fin.ext (congrArg UInt16.toNat h)
  have hnn (h : Field.nn.value i.word = Field.nn.value j.word) : i.nn = j.nn :=
    congrArg UInt16.toUInt8 h
  simp only [Opcode.oppositeSkips, List.mem_cons, Prod.mk.injEq, List.not_mem_nil,
    or_false] at opposite
  rcases opposite with ⟨op, op'⟩ | ⟨op, op'⟩ | ⟨op, op'⟩ <;>
    simp only [Instruction.operands, op, op', Opcode.format, List.map_cons, List.map_nil,
      List.cons.injEq, and_true] at operands <;>
    simp only [Instruction.destination?, op, op', Option.some.injEq] at hi hj <;>
    rw [← hi, ← hj]
  · refine onward_opposite m m' ?_
    rw [hregister, hx operands.1, hnn operands.2]
  · refine onward_opposite m m' ?_
    rw [hregister, hregister, hx operands.1, hy operands.2]
  · refine onward_opposite m m' ?_
    rw [key, hregister, hx operands]

/-- A register that is no code of a key does not skip as a key, and nothing does without a key. -/
lemma destination?_of_noKey (op : i.opcode = .skipIfKey)
    (h : m.key = none ∨ 15 < (m.register i.x).toNat) :
    i.destination? m = some (m.pc.toNat + 2) := by
  have hother : m.key.map (·.code.val) ≠ some (m.register i.x).toNat := by
    rcases h with h | h
    · simp [h]
    · intro heq
      obtain ⟨k, -, hk⟩ := Option.map_eq_some_iff.1 heq
      have hcode := k.code.isLt
      omega
  rw [Instruction.destination?, op]
  exact congrArg some (if_neg hother)

end Machine

/-! ### The screen -/

namespace Machine

variable {m : Machine}

/-- **A cycle that does not report that it drew keeps the screen.** -/
theorem screen_step_of_ne_drew (h : m.step.1 ≠ .ok .drew) : m.step.2.screen = m.screen := by
  cases hs : m.step.1 with
  | error f => rw [step_of_error hs]
  | ok signal =>
    obtain ⟨i, hf, -, hreport⟩ := step_goes hs
    by_contra hne
    refine h (hs.trans (congrArg Except.ok (hreport.trans ?_)))
    rw [Instruction.report]
    rcases (changesOnly_step hf).screen hne with op | op <;> rw [op]

lemma screen_store (m : Machine) (a : Nat) (data : List UInt8) :
    (m.store a data).2.screen = m.screen := by
  rw [store]
  cases m.memory.writeSlice a data <;> rfl

lemma screen_edit (m : Machine) (e : Edit) : (m.edit e).2.screen = m.screen := by
  cases e with
  | write a b => exact screen_store m a [b]
  | writeWord a w => exact screen_store m a (Memory.bytesOf w)
  | writeSlice a data => exact screen_store m a data
  | push a =>
    simp only [edit]
    cases m.stack.push a <;> rfl
  | pop =>
    simp only [edit]
    cases m.stack.pop <;> rfl
  | restore => simp only [edit]
  | setPc | setIndex | setRegister | setTimers => rfl

end Machine

/-- A machine, and the screen that its driver shows. -/
structure Viewer where
  machine : Machine
  shown : Screen

namespace Viewer

/-- What is shown after an operation with some answer: the screen of the machine, if a program was
loaded or a cycle has reported that it drew, and otherwise what was shown before. -/
def refreshed (shown : Screen) (m : Machine) : Operation → Except Fault Answer → Screen
  | .load _, .ok _ => m.screen
  | .loadWords _, .ok _ => m.screen
  | .act .step, .ok (.signal .drew) => m.screen
  | _, _ => shown

/-- One operation, and what is shown after it. -/
def operate (v : Viewer) (o : Operation) : Viewer :=
  ⟨(v.machine.operate o).2,
    refreshed v.shown (v.machine.operate o).2 o (v.machine.operate o).1⟩

/-- A list of operations, and what is shown after it. -/
def afterAll (v : Viewer) (operations : List Operation) : Viewer :=
  operations.foldl operate v

/-- What is shown is the screen of the machine. -/
def IsCurrent (v : Viewer) : Prop :=
  v.shown = v.machine.screen

variable {v : Viewer} {o : Operation}

lemma machine_afterAll (v : Viewer) (operations : List Operation) :
    (v.afterAll operations).machine = v.machine.afterAll operations := by
  induction operations generalizing v with
  | nil => rfl
  | cons o rest ih => exact ih (v.operate o)

lemma operate_loadWords (v : Viewer) (words : List UInt16) :
    v.operate (.loadWords words) = v.operate (.load (Memory.bytesOfWords words)) := by
  have hsame (m : Machine) (answer : Except Fault Answer) :
      refreshed v.shown m (.loadWords words) answer =
        refreshed v.shown m (.load (Memory.bytesOfWords words)) answer := by
    cases answer <;> rfl
  exact congrArg (Viewer.mk _) (hsame _ _)

/-- A program that is loaded makes what is shown current, whatever was shown before. -/
lemma isCurrent_load {program : List UInt8} (h : (v.machine.load program).1 = .ok ()) :
    (v.operate (.load program)).IsCurrent := by
  have hanswer : (v.machine.operate (.load program)).1 = .ok .done := by
    show (v.machine.load program).1.map _ = _
    rw [h]
    rfl
  rw [IsCurrent, operate, hanswer]
  rfl

lemma IsCurrent.load (h : v.IsCurrent) (program : List UInt8) :
    (v.operate (.load program)).IsCurrent := by
  cases hl : (v.machine.load program).1 with
  | ok => exact isCurrent_load hl
  | error f =>
    have hanswer : (v.machine.operate (.load program)).1 = .error f := by
      show (v.machine.load program).1.map _ = _
      rw [hl]
      rfl
    rw [IsCurrent, Viewer.operate, hanswer]
    show v.shown = (v.machine.load program).2.screen
    rw [Machine.load_of_error hl]
    exact h

/-- A cycle keeps what is shown current: it reports that it drew if it has changed the screen. -/
lemma IsCurrent.step (h : v.IsCurrent) : (v.operate (.act .step)).IsCurrent := by
  by_cases hdrew : v.machine.step.1 = .ok .drew
  · have hanswer : (v.machine.operate (.act .step)).1 = .ok (.signal .drew) := by
      show v.machine.step.1.map _ = _
      rw [hdrew]
      rfl
    rw [IsCurrent, Viewer.operate, hanswer]
    rfl
  · have hkept : refreshed v.shown v.machine.step.2 (.act .step)
        (v.machine.step.1.map .signal) = v.shown := by
      cases hs : v.machine.step.1 with
      | error f => rfl
      | ok signal =>
        cases signal with
        | drew => exact absurd hs hdrew
        | ran | jumped | sounded | awaiting => rfl
    calc (v.operate (.act .step)).shown
        = v.shown := hkept
      _ = v.machine.screen := h
      _ = v.machine.step.2.screen := (Machine.screen_step_of_ne_drew hdrew).symm

/-- **An operation keeps what is shown current**, unless it is a run of several cycles. -/
theorem IsCurrent.operate (h : v.IsCurrent) (single : ∀ count, o ≠ .run count) :
    (v.operate o).IsCurrent := by
  cases o with
  | act a =>
    cases a with
    | step => exact h.step
    | tick | press key => exact h
  | run count => exact absurd rfl (single count)
  | load program => exact h.load program
  | loadWords words =>
    rw [operate_loadWords]
    exact h.load (Memory.bytesOfWords words)
  | edit e => exact h.trans (Machine.screen_edit v.machine e).symm

/-- **What is shown stays current**, as long as the driver looks after every cycle. -/
theorem IsCurrent.afterAll (h : v.IsCurrent) {history : List Operation}
    (single : ∀ count, .run count ∉ history) : (v.afterAll history).IsCurrent := by
  induction history generalizing v with
  | nil => exact h
  | cons o rest ih =>
    refine ih (h.operate ?_) ?_
    · intro count ho
      exact single count (ho ▸ List.mem_cons_self)
    · intro count hrest
      exact single count (List.mem_cons_of_mem _ hrest)

end Viewer

/-- **Where a cycle goes, and what it reports, is exact.** A cycle that succeeds goes to the
destination of its instruction and gives the report on it, both from the machine before; one that
waits for a key changes nothing, and one that skips or not changes nothing else. Of two opposite
skips with the same operands exactly one skips; without a key, or with a register that is no code
of a key, there is no skip for a key. A cycle reports that it waits exactly if its instruction waits
for a key and there is none. A driver that takes over the screen when it loads a program, and after
each cycle that reports that it drew, always shows the screen of the machine. -/
theorem signals_exact :
    (∀ (m : Machine) signal, m.step.1 = .ok signal →
      ∃ i, m.fetch = .ok i ∧ i.destination? m = some m.step.2.pc.toNat ∧ signal = i.report m ∧
        (i.opcode = .awaitKey → m.key = none → m.step.2 = m) ∧
        (i.opcode ∈ Opcode.skips → m.step.2 = { m with pc := m.step.2.pc })) ∧
    (∀ (m m' : Machine) i j, m.fetch = .ok i → m'.fetch = .ok j →
      (i.opcode, j.opcode) ∈ Opcode.oppositeSkips → i.operands = j.operands →
      m'.registers = m.registers → m'.key = m.key →
      (m.step.2.pc.toNat = m.pc.toNat + 4 ∧ m'.step.2.pc.toNat = m'.pc.toNat + 2) ∨
        (m.step.2.pc.toNat = m.pc.toNat + 2 ∧ m'.step.2.pc.toNat = m'.pc.toNat + 4)) ∧
    (∀ (m : Machine) i, m.fetch = .ok i → i.opcode = .skipIfKey →
      m.key = none ∨ 15 < (m.register i.x).toNat → m.step.2.pc.toNat = m.pc.toNat + 2) ∧
    (∀ m : Machine, m.step.1 = .ok .awaiting ↔
      ∃ i, m.fetch = .ok i ∧ i.opcode = .awaitKey ∧ m.key = none) ∧
    (∀ (m : Machine) shown program history, (m.load program).1 = .ok () →
      (∀ count, .run count ∉ history) →
      ((Viewer.mk m shown).afterAll (.load program :: history)).shown =
        (m.afterAll (.load program :: history)).screen) := by
  refine ⟨?_, fun m m' i j => Machine.skips_opposite, ?_, ?_, ?_⟩
  · intro m signal h
    obtain ⟨i, hf, hdestination, hreport⟩ := Machine.step_goes h
    refine ⟨i, hf, hdestination, hreport, ?_, ?_⟩
    · intro op key
      rw [Machine.step_of_awaits ⟨key, i, hf, op⟩]
    · intro hskip
      exact congrArg Prod.snd (Machine.step_of_skip hf hskip)
  · intro m i hf op h
    have hskip : i.opcode ∈ Opcode.skips := by
      rw [op]
      decide
    have hgoes := Machine.destination?_of_skip hf hskip
    rw [Machine.destination?_of_noKey op h] at hgoes
    exact (Option.some.inj hgoes).symm
  · intro m
    rw [Machine.step_awaiting_iff]
    constructor
    · rintro ⟨key, i, hf, op⟩
      exact ⟨i, hf, op, key⟩
    · rintro ⟨i, hf, op, key⟩
      exact ⟨key, i, hf, op⟩
  · intro m shown program history hload single
    -- a load redraws, and from then on what is shown is kept current by every single cycle
    have hstart : ((Viewer.mk m shown).operate (.load program)).IsCurrent :=
      Viewer.isCurrent_load hload
    have hcurrent := hstart.afterAll single
    rw [Viewer.IsCurrent, Viewer.machine_afterAll] at hcurrent
    exact hcurrent

end Source

/-- A program that draws a digit, and comes to two opposite skips, a skip for a key and a wait. -/
def peeking : List UInt8 :=
  [0x60, 0x05, 0xF0, 0x29, 0xD0, 0x05, 0x30, 0x05, 0x40, 0x05, 0xE0, 0x9E, 0xF0, 0x0A]

/-- A machine without a program. -/
def idle : Machine :=
  .blank (some 7) (.ofSeed 7)

/-- The machine in which the program was loaded, after some cycles. -/
def peek (cycles : Nat) : Machine :=
  (idle.load peeking).2.after (.replicate cycles .step)

/-- What a driver does with it until the digit is drawn. -/
def drawingDigit : List Operation :=
  [.act .step, .act .tick, .act .step, .act .step, .act (.press none)]

/-- The first skip skips, to where the opposite one goes on. There is no skip without a key, and no
motion at all of an instruction that waits for one. The driver shows the digit, and a spot that was
there before the load is gone. -/
theorem signals_exact_peeking :
    (peek 3).step.2.pc.toNat = 0x20A ∧
    ({ peek 3 with pc := 0x208 } : Machine).step.2.pc.toNat = 0x20A ∧
    (peek 4).step.2.pc.toNat = 0x20C ∧
    (peek 5).step.1 = .ok .awaiting ∧ (peek 5).step.2 = peek 5 ∧
    ((Viewer.mk idle (Screen.blank.toggle 0)).afterAll
      (.load peeking :: drawingDigit)).shown.pixel 5 5 = true ∧
    ((Viewer.mk idle (Screen.blank.toggle 0)).afterAll
      (.load peeking :: drawingDigit)).shown.pixel 0 0 = false := by
  obtain ⟨hgoes, hopposite, hnoKey, hawaiting, hshown⟩ := signals_exact
  obtain ⟨⟨hskip, hother, hkey, hwait⟩, ⟨hran, hpast⟩, ⟨hpc, hpc₄⟩, hnone⟩ :
      ((peek 3).fetch = .ok ⟨.skipIfByte, 0x3005, by decide⟩ ∧
        ({ peek 3 with pc := 0x208 } : Machine).fetch = .ok ⟨.skipUnlessByte, 0x4005, by decide⟩ ∧
        (peek 4).fetch = .ok ⟨.skipIfKey, 0xE09E, by decide⟩ ∧
        (peek 5).fetch = .ok ⟨.awaitKey, 0xF00A, by decide⟩) ∧
      ((peek 3).step.1 = .ok .ran ∧
        Instruction.destination? ⟨.skipIfByte, 0x3005, by decide⟩ (peek 3) = some 0x20A) ∧
      ((peek 3).pc = 0x206 ∧ (peek 4).pc = 0x20A) ∧ (peek 4).key = none ∧ (peek 5).key = none := by
    decide +kernel
  have htaken : (peek 3).step.2.pc.toNat = 0x20A := by
    obtain ⟨i, hi, hdestination, -⟩ := hgoes _ _ hran
    obtain rfl := Except.ok.inj (hskip.symm.trans hi)
    exact (Option.some.inj (hpast.symm.trans hdestination)).symm
  have hmoved (m : Machine) (a : UInt16) : ({ m with pc := a } : Machine).registers = m.registers ∧
      ({ m with pc := a } : Machine).key = m.key ∧ ({ m with pc := a } : Machine).pc = a :=
    ⟨rfl, rfl, rfl⟩
  obtain ⟨hregisters, hheld, hthere⟩ := hmoved (peek 3) 0x208
  have hexactly := hopposite _ _ _ _ hskip hother (by decide) (by decide) hregisters hheld
  rw [htaken, hpc, hthere] at hexactly
  have huntaken : ({ peek 3 with pc := 0x208 } : Machine).step.2.pc.toNat = 0x20A := by
    rcases hexactly with ⟨-, h⟩ | ⟨h, -⟩
    · exact h
    · exact absurd h (by decide)
  have hkeyless := hnoKey _ _ hkey rfl (.inl hnone.1)
  rw [hpc₄] at hkeyless
  have hwaits := (hawaiting _).2 ⟨_, hwait, rfl, hnone.2⟩
  obtain ⟨i, hi, -, -, hunchanged, -⟩ := hgoes _ _ hwaits
  obtain rfl := Except.ok.inj (hwait.symm.trans hi)
  have hload : (idle.load peeking).1 = .ok () := by
    rw [Machine.load_of_fits (by decide)]
  have hcurrent := hshown idle (Screen.blank.toggle 0) peeking drawingDigit hload
    (by simp [drawingDigit])
  have hpixels : (idle.afterAll (.load peeking :: drawingDigit)).screen.pixel 5 5 = true ∧
      (idle.afterAll (.load peeking :: drawingDigit)).screen.pixel 0 0 = false := by
    decide +kernel
  exact ⟨htaken, huntaken, hkeyless, hwaits, hunchanged rfl hnone.2,
    (congrArg (·.pixel 5 5) hcurrent).trans hpixels.1,
    (congrArg (·.pixel 0 0) hcurrent).trans hpixels.2⟩

end Chip8
