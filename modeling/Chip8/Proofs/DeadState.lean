import Chip8.Host.Random
import Chip8.Proofs.Footprint
import Chip8.Proofs.History
import Chip8.Proofs.Loading

/-!
Dead state is never observed.

A slot of the return stack that is not in use keeps an old address, and the sound timer sounds a
buzzer, but no instruction reads either. Two machines that differ in these alone therefore answer
everything that a driver does in the same way and go on to differ in these alone; and once both
have set their sound timers, they differ in the old addresses only.

* `ReturnStack.Alike`, `push_alike`, `pop_alike`: stacks that differ in slots that are not in use;
* `Machine.Alike`: machines that differ in dead state alone;
* `execute_alike`, `step_alike`, `operate_alike`: whatever is done keeps them alike;
* `sound_step`, `sound_operate`: what becomes of the sound timers;
* `dead_state_unobserved`: whole histories.
-/

namespace Chip8

/-! ### Stacks -/

namespace ReturnStack

/-- The stacks have the same depth and agree in every slot below it. -/
structure Alike (s t : ReturnStack) : Prop where
  depth : s.depth = t.depth
  live : ∀ n < s.depth, s.slots[n]? = t.slots[n]?

variable {s t : ReturnStack}

/-- Stacks are alike exactly if the same addresses are pending. -/
lemma alike_iff : s.Alike t ↔ s.contents = t.contents := by
  constructor
  · intro h
    refine List.ext_getElem? fun n => ?_
    rcases Nat.lt_or_ge n s.depth with hn | hn
    · rw [← getElem?_slots hn, ← getElem?_slots (h.depth ▸ hn), h.live n hn]
    · rw [List.getElem?_eq_none (by simpa using hn),
        List.getElem?_eq_none (by simpa [← h.depth] using hn)]
  · intro h
    have hdepth : s.depth = t.depth := by simpa using congrArg List.length h
    exact ⟨hdepth, fun n hn => by rw [getElem?_slots hn, getElem?_slots (hdepth ▸ hn), h]⟩

/-- A call takes the same slot of stacks that are alike, or overflows both. -/
lemma push_alike (h : s.Alike t) (a : UInt16) :
    (∃ f, s.push a = .error f ∧ t.push a = .error f) ∨
      ∃ s' t', s.push a = .ok s' ∧ t.push a = .ok t' ∧ s'.Alike t' := by
  cases hs : s.push a with
  | error f =>
    obtain ⟨hfull, rfl⟩ := push_eq_error_iff.1 hs
    exact .inl ⟨_, rfl, push_eq_error_iff.2 ⟨h.depth ▸ hfull, rfl⟩⟩
  | ok s' =>
    cases ht : t.push a with
    | error f =>
      obtain ⟨hroom, -⟩ := push_eq_ok_iff.1 hs
      exact absurd (h.depth.trans (push_eq_error_iff.1 ht).1) (Nat.ne_of_lt hroom)
    | ok t' =>
      refine .inr ⟨s', t', rfl, rfl, alike_iff.2 ?_⟩
      rw [contents_push hs, contents_push ht, alike_iff.1 h]

/-- A return takes the same address off stacks that are alike, or underflows both. -/
lemma pop_alike (h : s.Alike t) :
    (∃ f, s.pop = .error f ∧ t.pop = .error f) ∨
      ∃ a s' t', s.pop = .ok (a, s') ∧ t.pop = .ok (a, t') ∧ s'.Alike t' := by
  cases hs : s.pop with
  | error f =>
    obtain ⟨hempty, rfl⟩ := pop_eq_error_iff.1 hs
    exact .inl ⟨_, rfl, pop_eq_error_iff.2 ⟨h.depth ▸ hempty, rfl⟩⟩
  | ok r =>
    obtain ⟨a, s'⟩ := r
    have hsplit : s.contents = s'.contents ++ [a] := contents_pop hs
    cases ht : t.pop with
    | error f =>
      have hempty : t.depth = 0 := (pop_eq_error_iff.1 ht).1
      rw [← length_contents, ← alike_iff.1 h, hsplit] at hempty
      simp at hempty
    | ok r =>
      obtain ⟨b, t'⟩ := r
      -- equal contents have equal last elements, and equal rests
      have hboth : s'.contents ++ [a] = t'.contents ++ [b] := by
        rw [← hsplit, alike_iff.1 h, contents_pop ht]
      obtain ⟨hrest, hlast⟩ := List.append_inj' hboth rfl
      obtain rfl : a = b := by simpa using hlast
      exact .inr ⟨a, s', t', rfl, rfl, alike_iff.2 hrest⟩

end ReturnStack

/-! ### Machines -/

namespace Machine

section Source

variable [RandomSource]

/-- The machine is about to set the sound timer. -/
def StartsSound (m : Machine) : Prop :=
  ∃ i, m.fetch = .ok i ∧ i.opcode = .startSound

instance (m : Machine) : Decidable m.StartsSound :=
  decidable_of_iff (∃ i ∈ m.fetch.toOption, i.opcode = .startSound) (by
    rw [StartsSound]
    cases m.fetch <;> simp [Except.toOption])

/-- The machines agree in everything but the slots of the stack that are not in use and the sound
timer. -/
structure Alike (a b : Machine) : Prop where
  stack : a.stack.Alike b.stack
  rest : b = { a with stack := b.stack, timers.sound := b.timers.sound }

variable {a b : Machine}

namespace Alike

lemma refl (m : Machine) : m.Alike m :=
  ⟨⟨rfl, fun _ _ => rfl⟩, rfl⟩

/-- Of two machines that are alike, the second is the first with another stack and another
sound. -/
lemma exists_eq (h : a.Alike b) :
    ∃ stack sound, a.stack.Alike stack ∧ b = { a with stack, timers.sound := sound } :=
  ⟨b.stack, b.timers.sound, h.stack, h.rest⟩

lemma fetch (h : a.Alike b) : a.fetch = b.fetch := by
  obtain ⟨stack, sound, -, rfl⟩ := h.exists_eq
  rfl

lemma register (h : a.Alike b) (r : Fin registerCount) : a.register r = b.register r := by
  obtain ⟨stack, sound, -, rfl⟩ := h.exists_eq
  rfl

lemma pc (h : a.Alike b) : a.pc = b.pc := by
  obtain ⟨stack, sound, -, rfl⟩ := h.exists_eq
  rfl

lemma move (h : a.Alike b) (pc : UInt16) : Alike { a with pc } { b with pc } := by
  obtain ⟨stack, sound, hstack, rfl⟩ := h.exists_eq
  exact ⟨hstack, rfl⟩

lemma tick (h : a.Alike b) : a.tick.Alike b.tick := by
  obtain ⟨stack, sound, hstack, rfl⟩ := h.exists_eq
  exact ⟨hstack, rfl⟩

lemma press (h : a.Alike b) (key : Option Key) : (a.press key).Alike (b.press key) := by
  obtain ⟨stack, sound, hstack, rfl⟩ := h.exists_eq
  exact ⟨hstack, rfl⟩

/-- A program leaves the same machine when it is loaded into both, or both refuse it. -/
lemma load_cases (h : a.Alike b) (program : List UInt8) :
    a.load program = b.load program ∨
      ∃ f, a.load program = (.error f, a) ∧ b.load program = (.error f, b) := by
  rcases Nat.lt_or_ge programCapacity program.length with hsize | hsize
  · exact .inr ⟨_, load_of_oversized hsize a, load_of_oversized hsize b⟩
  · obtain ⟨stack, sound, -, rfl⟩ := h.exists_eq
    exact .inl (load_congr hsize rfl fun _ => rfl)

lemma load (h : a.Alike b) (program : List UInt8) :
    (a.load program).1 = (b.load program).1 ∧ (a.load program).2.Alike (b.load program).2 := by
  rcases h.load_cases program with hsame | ⟨f, ha, hb⟩
  · rw [hsame]
    exact ⟨rfl, .refl _⟩
  · rw [ha, hb]
    exact ⟨rfl, h⟩

end Alike

/-! ### What is done with them -/

lemma setRegister_alike (h : a.Alike b) (r : Fin registerCount) (v : UInt8) :
    (a.setRegister r v).Alike (b.setRegister r v) := by
  obtain ⟨stack, sound, hstack, rfl⟩ := h.exists_eq
  exact ⟨hstack, rfl⟩

lemma compute_alike (h : a.Alike b) (op : Arithmetic) (x y : Fin registerCount) :
    (a.compute op x y).Alike (b.compute op x y) := by
  rw [compute, compute, h.register x, h.register y]
  have hresult := setRegister_alike h x (op.result (b.register x) (b.register y))
  cases op.flag? (b.register x) (b.register y) with
  | none => exact hresult
  | some f => exact setRegister_alike hresult flagRegister f

/-- A store writes the same bytes on machines that are alike, or fails on both. -/
lemma store_alike (h : a.Alike b) (start : Nat) (data : List UInt8) :
    (thenNext (a.store start data)).1 = (thenNext (b.store start data)).1 ∧
      (thenNext (a.store start data)).2.Alike (thenNext (b.store start data)).2 := by
  obtain ⟨stack, sound, hstack, rfl⟩ := h.exists_eq
  rw [store, store]
  cases a.memory.writeSlice start data <;> exact ⟨rfl, hstack, rfl⟩

/-- **An instruction does the same on machines that are alike**, and keeps them alike. -/
theorem execute_alike (h : a.Alike b) (i : Instruction) :
    (a.execute i).1 = (b.execute i).1 ∧ (a.execute i).2.Alike (b.execute i).2 := by
  have hcompute := compute_alike h
  have hstore := store_alike h
  -- `b` is `a` with another stack and another sound timer; most instructions see neither
  obtain ⟨stack, sound, hstack, rfl⟩ := h.exists_eq
  obtain ⟨p, timers, key, random, seed⟩ := a
  rw [execute, execute]
  cases op : i.opcode
  case leave =>
    rcases ReturnStack.pop_alike hstack with ⟨f, ha, hb⟩ | ⟨target, s', t', ha, hb, hleft⟩
    · simp only [ha, hb]
      exact ⟨trivial, h⟩
    · simp only [ha, hb]
      exact ⟨trivial, hleft, rfl⟩
  case call =>
    rcases ReturnStack.push_alike hstack (p.pc + 2) with ⟨f, ha, hb⟩ | ⟨s', t', ha, hb, hleft⟩
    · simp only [ha, hb]
      exact ⟨trivial, h⟩
    · simp only [ha, hb]
      exact ⟨trivial, hleft, rfl⟩
  case storeDecimal => exact hstore _ _
  case storeRegisters => exact hstore _ _
  case drawSprite => cases p.memory.slice p.index.toNat i.n <;> exact ⟨rfl, hstack, rfl⟩
  case fetchRegisters =>
    cases p.memory.slice p.index.toNat (i.x.val + 1) <;> exact ⟨rfl, hstack, rfl⟩
  case awaitKey => cases key <;> exact ⟨rfl, hstack, rfl⟩
  case arithmetic o => exact ⟨rfl, hcompute o i.x i.y⟩
  all_goals exact ⟨rfl, hstack, rfl⟩

lemma perform_alike (h : a.Alike b) (i : Instruction) :
    (a.perform i).1 = (b.perform i).1 ∧ (a.perform i).2.Alike (b.perform i).2 := by
  obtain ⟨hresult, hleft⟩ := execute_alike h i
  rw [perform, perform, h.pc]
  generalize a.execute i = ra at hresult hleft ⊢
  generalize b.execute i = rb at hresult hleft ⊢
  obtain ⟨ra, ma⟩ := ra
  obtain ⟨rb, mb⟩ := rb
  obtain rfl : ra = rb := hresult
  cases ra with
  | error f => exact ⟨rfl, hleft⟩
  | ok motion => exact ⟨rfl, hleft.move _⟩

/-- **A cycle does the same on machines that are alike**, and keeps them alike. -/
theorem step_alike (h : a.Alike b) : a.step.1 = b.step.1 ∧ a.step.2.Alike b.step.2 := by
  cases hfetch : a.fetch with
  | error f =>
    rw [step_of_fetch_error hfetch, step_of_fetch_error (h.fetch ▸ hfetch)]
    exact ⟨rfl, h⟩
  | ok i =>
    rw [step_of_fetch hfetch, step_of_fetch (h.fetch ▸ hfetch)]
    exact perform_alike h i

lemma step_alike_cases (h : a.Alike b) :
    (∃ f a' b', a.step = (.error f, a') ∧ b.step = (.error f, b') ∧ a'.Alike b') ∨
      ∃ signal a' b', a.step = (.ok signal, a') ∧ b.step = (.ok signal, b') ∧ a'.Alike b' := by
  obtain ⟨hresult, hleft⟩ := step_alike h
  generalize a.step = ra at hresult hleft ⊢
  generalize b.step = rb at hresult hleft ⊢
  obtain ⟨ra, a'⟩ := ra
  obtain ⟨rb, b'⟩ := rb
  obtain rfl : ra = rb := hresult
  cases ra with
  | error f => exact .inl ⟨f, a', b', rfl, rfl, hleft⟩
  | ok signal => exact .inr ⟨signal, a', b', rfl, rfl, hleft⟩

lemma runFrom_alike (h : a.Alike b) (last : Signal) (n : Nat) :
    (runFrom last n a).1 = (runFrom last n b).1 ∧
      (runFrom last n a).2.Alike (runFrom last n b).2 := by
  induction n generalizing a b last with
  | zero => exact ⟨rfl, h⟩
  | succ n ih =>
    rw [runFrom, runFrom]
    rcases step_alike_cases h with ⟨f, a', b', ha, hb, hleft⟩ | ⟨signal, a', b', ha, hb, hleft⟩
    · rw [ha, hb]
      exact ⟨rfl, hleft⟩
    · rw [ha, hb]
      exact ih hleft signal

/-- **What a driver does has the same result on machines that are alike**, and keeps them alike. -/
theorem operate_alike (h : a.Alike b) {o : Operation} (driving : o.IsDriving) :
    (a.operate o).1 = (b.operate o).1 ∧ (a.operate o).2.Alike (b.operate o).2 := by
  have hload : ∀ program, (completed (a.load program)).1 = (completed (b.load program)).1 ∧
      (completed (a.load program)).2.Alike (completed (b.load program)).2 := fun program =>
    ⟨congrArg (Except.map _) (h.load program).1, (h.load program).2⟩
  cases o with
  | act x =>
    cases x with
    | step => exact ⟨congrArg (Except.map _) (step_alike h).1, (step_alike h).2⟩
    | tick => exact ⟨rfl, h.tick⟩
    | press key => exact ⟨rfl, h.press key⟩
  | run count =>
    obtain ⟨hresult, hleft⟩ := runFrom_alike h .ran count
    exact ⟨congrArg (Except.map _) hresult, hleft⟩
  | load program => exact hload program
  | loadWords words => exact hload _
  | edit e => exact absurd driving id

/-! ### The sound timer -/

/-- What an instruction leaves in the sound timer. -/
lemma sound_execute (m : Machine) (i : Instruction) :
    (m.execute i).2.timers.sound =
      if i.opcode = .startSound then m.register i.x else m.timers.sound := by
  split
  · next op => simp only [execute, op]
  · next op => exact (execute_keeps m i).sound op

lemma same_of_no_cycles {x y : UInt8}
    (hsound : x = y ∨ ∃ c ∈ ([] : List Machine), c.StartsSound) : x = y := by
  simpa using hsound

/-- A cycle leaves the same in the sound timers of machines that are alike, if the same was there
before or if it sets them. -/
lemma sound_step (h : a.Alike b)
    (hsound : a.timers.sound = b.timers.sound ∨ a.StartsSound) :
    a.step.2.timers.sound = b.step.2.timers.sound := by
  cases hfetch : a.fetch with
  | error f =>
    rw [step_of_fetch_error hfetch, step_of_fetch_error (h.fetch ▸ hfetch)]
    -- a cycle that fails starts no sound, so the timers were equal before
    refine hsound.resolve_right ?_
    rintro ⟨i, hi, -⟩
    rw [hfetch] at hi
    cases hi
  | ok i =>
    obtain ⟨pca, ha⟩ := exists_perform_eq a i
    obtain ⟨pcb, hb⟩ := exists_perform_eq b i
    rw [step_of_fetch hfetch, step_of_fetch (h.fetch ▸ hfetch), ha, hb]
    show (a.execute i).2.timers.sound = (b.execute i).2.timers.sound
    rw [sound_execute, sound_execute, h.register]
    split
    · rfl
    · next hop =>
      refine hsound.resolve_right ?_
      rintro ⟨j, hj, hstart⟩
      rw [hfetch, Except.ok.injEq] at hj
      exact hop (hj ▸ hstart)

lemma sound_runFrom (h : a.Alike b) (last : Signal) (n : Nat)
    (hsound : a.timers.sound = b.timers.sound ∨ ∃ c ∈ runCycles n a, c.StartsSound) :
    (runFrom last n a).2.timers.sound = (runFrom last n b).2.timers.sound := by
  induction n generalizing a b last with
  | zero => exact same_of_no_cycles hsound
  | succ n ih =>
    have hnext := sound_step h
    rw [runFrom, runFrom]
    rw [runCycles] at hsound
    rcases step_alike_cases h with ⟨f, a', b', ha, hb, hleft⟩ | ⟨signal, a', b', ha, hb, hleft⟩
    · rw [ha, hb] at hnext ⊢
      rw [ha] at hsound
      exact hnext (by simpa using hsound)
    · rw [ha, hb] at hnext ⊢
      rw [ha] at hsound
      refine ih hleft signal ?_
      rcases hsound with hsame | ⟨c, hc, hstart⟩
      · exact .inl (hnext (.inl hsame))
      · rcases List.mem_cons.1 hc with rfl | hc
        · exact .inl (hnext (.inr hstart))
        · exact .inr ⟨c, hc, hstart⟩

lemma sound_operate (h : a.Alike b) {o : Operation} (driving : o.IsDriving)
    (hsound : a.timers.sound = b.timers.sound ∨ ∃ c ∈ a.cyclesOf o, c.StartsSound) :
    (a.operate o).2.timers.sound = (b.operate o).2.timers.sound := by
  have hload : ∀ program, a.timers.sound = b.timers.sound →
      (a.load program).2.timers.sound = (b.load program).2.timers.sound := fun program hsame => by
    rcases h.load_cases program with heq | ⟨f, ha, hb⟩
    · rw [heq]
    · rw [ha, hb]
      exact hsame
  cases o with
  | act x =>
    cases x with
    | step => exact sound_step h (by simpa [cyclesOf] using hsound)
    | tick => exact congrArg countDown (same_of_no_cycles hsound)
    | press key => exact same_of_no_cycles hsound
  | run count => exact sound_runFrom h .ran count hsound
  | load program => exact hload program (same_of_no_cycles hsound)
  | loadWords words => exact hload _ (same_of_no_cycles hsound)
  | edit e => exact absurd driving id

/-! ### Histories -/

/-- **Machines that are alike go the same way**, as long as only a driver works with them. -/
theorem afterAll_alike (h : a.Alike b) {history : List Operation}
    (driving : ∀ o ∈ history, o.IsDriving) :
    a.answers history = b.answers history ∧ (a.afterAll history).Alike (b.afterAll history) := by
  induction history generalizing a b with
  | nil => exact ⟨rfl, h⟩
  | cons o rest ih =>
    rw [List.forall_mem_cons] at driving
    obtain ⟨hanswer, hleft⟩ := operate_alike h driving.1
    obtain ⟨hanswers, hend⟩ := ih hleft driving.2
    exact ⟨by rw [answers, answers, hanswer, hanswers], hend⟩

/-- **Their sound timers agree from the first cycle on that sets them.** -/
theorem sound_afterAll (h : a.Alike b) {history : List Operation}
    (driving : ∀ o ∈ history, o.IsDriving)
    (hsound : a.timers.sound = b.timers.sound ∨ ∃ c ∈ a.allCycles history, c.StartsSound) :
    (a.afterAll history).timers.sound = (b.afterAll history).timers.sound := by
  induction history generalizing a b with
  | nil => exact same_of_no_cycles hsound
  | cons o rest ih =>
    rw [List.forall_mem_cons] at driving
    refine ih (operate_alike h driving.1).2 driving.2 ?_
    rcases hsound with hsame | ⟨c, hc, hstart⟩
    · exact .inl (sound_operate h driving.1 (.inl hsame))
    · rcases List.mem_append.1 hc with hc | hc
      · exact .inl (sound_operate h driving.1 (.inr ⟨c, hc, hstart⟩))
      · exact .inr ⟨c, hc, hstart⟩

/-- **Dead state is never observed.** Take two machines that agree in everything but the slots of
the return stack that are not in use and the sound timer. Whatever a driver does with both, cycles,
runs, ticks, keys and loads, has the same results, and after each operation the machines again agree
in everything but this. Once one of the cycles has set the sound timer, the sound timers agree as
well. -/
theorem dead_state_unobserved (h : a.Alike b) {history : List Operation}
    (driving : ∀ o ∈ history, o.IsDriving) :
    a.answers history = b.answers history ∧
    (∀ k, (a.afterAll (history.take k)).Alike (b.afterAll (history.take k))) ∧
    (∀ k, (∃ c ∈ a.allCycles (history.take k), c.StartsSound) →
      (a.afterAll (history.take k)).timers.sound = (b.afterAll (history.take k)).timers.sound) := by
  have hfirst : ∀ k, ∀ o ∈ history.take k, o.IsDriving :=
    fun k o ho => driving o (List.mem_of_mem_take ho)
  exact ⟨(afterAll_alike h driving).1, fun k => (afterAll_alike h (hfirst k)).2,
    fun k hstart => sound_afterAll h (hfirst k) (.inr hstart)⟩

end Source

/-- A machine whose program calls a subroutine, which returns at once, and then sounds the
buzzer. -/
def tidy : Machine :=
  ((blank (some 7) (.ofSeed 7)).load [0x22, 0x06, 0xF1, 0x18, 0x12, 0x04, 0x00, 0xEE]).2

/-- The same with old return addresses in the slots of the stack, and with a sound. -/
def untidy : Machine :=
  { tidy with stack := tidy.stack.restore none [0x300, 0x302], timers.sound := 9 }

/-- The call and the return, a tick, the start of the sound, and another tick. -/
def errand : List Operation :=
  [.run 2, .act .tick, .act .step, .act .tick, .act (.press none)]

/-- The old addresses and the sound are there, they are not noticed, and the sound is gone when the
program sets its own. -/
theorem dead_state_unobserved_untidy :
    tidy.stack.slots[0] ≠ untidy.stack.slots[0] ∧
    (tidy.afterAll (errand.take 2)).timers.sound ≠
      (untidy.afterAll (errand.take 2)).timers.sound ∧
    tidy.answers errand = untidy.answers errand ∧
    (tidy.afterAll (errand.take 2)).Alike (untidy.afterAll (errand.take 2)) ∧
    (tidy.afterAll (errand.take 4)).timers.sound =
      (untidy.afterAll (errand.take 4)).timers.sound := by
  have halike : tidy.Alike untidy := by
    refine ⟨⟨by decide +kernel, fun n hn => absurd hn ?_⟩, rfl⟩
    have hdepth : tidy.stack.depth = 0 := by decide +kernel
    omega
  have hdriving : ∀ o ∈ errand, o.IsDriving := by decide
  obtain ⟨hanswers, hafter, hsound⟩ := dead_state_unobserved halike hdriving
  exact ⟨by decide +kernel, by decide +kernel, hanswers, hafter 2, hsound 4 (by decide +kernel)⟩

end Machine

end Chip8
