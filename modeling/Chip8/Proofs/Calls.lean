import Chip8.Host.Random
import Chip8.Proofs.Footprint
import Chip8.Proofs.History
import Chip8.Proofs.Refusal

/-!
Calls and returns are well nested.

After a call the return stack is protected up to the return address that was pushed: no
instruction reaches below the latest pending address, so until that address is taken off
again, it and the addresses below it stay as they are. The return that takes it off
continues behind the call.

* `step_stack_cases`: what a cycle does to the return stack;
* `protected_step`, `protected_or_returned`: a pending address stays until it is taken
  off;
* `call_returns`: a call ends with the return that continues behind it.
-/

namespace Chip8

namespace Machine

section Source

variable [RandomSource] {m : Machine} {i : Instruction}

/-! ### The return stack in a cycle -/

lemma step_of_call (hf : m.fetch = .ok i) (op : i.opcode = .call) {stack : ReturnStack}
    (hp : m.stack.push (m.pc + 2) = .ok stack) :
    m.step = (.ok .jumped, { m with stack, pc := i.nnn }) := by
  have he : m.execute i = (.ok (.jump i.nnn), { m with stack }) := by
    rw [execute, op]
    simp only [hp]
  rw [step_of_fetch hf, perform_of_ok he]
  rfl

lemma step_of_leave (hf : m.fetch = .ok i) (op : i.opcode = .leave) {a : UInt16}
    {stack : ReturnStack} (hp : m.stack.pop = .ok (a, stack)) :
    m.step = (.ok .jumped, { m with stack, pc := a }) := by
  have he : m.execute i = (.ok (.jump a), { m with stack }) := by
    rw [execute, op]
    simp only [hp]
  rw [step_of_fetch hf, perform_of_ok he]
  rfl

/-- **What a cycle does to the return stack**: nothing, or a call appends the address
behind it, or a return takes the latest address off and continues there. -/
theorem step_stack_cases (m : Machine) :
    m.step.2.stack = m.stack ∨
    (∃ i stack, m.fetch = .ok i ∧ i.opcode = .call ∧ m.stack.push (m.pc + 2) = .ok stack ∧
      m.step = (.ok .jumped, { m with stack, pc := i.nnn })) ∨
    (∃ i a stack, m.fetch = .ok i ∧ i.opcode = .leave ∧ m.stack.pop = .ok (a, stack) ∧
      m.step = (.ok .jumped, { m with stack, pc := a })) := by
  cases hf : m.fetch with
  | error f => exact .inl (by rw [step_of_fetch_error hf])
  | ok i =>
    by_cases hl : i.opcode = .leave
    · cases hp : m.stack.pop with
      | error f =>
        have he : m.step.1 = .error f :=
          step_error_iff.2 (.inr ⟨i, hf, (Processor.refuses_leave_iff hl).2 hp⟩)
        exact .inl (by rw [step_of_error he])
      | ok r => exact .inr (.inr ⟨i, r.1, r.2, rfl, hl, rfl, step_of_leave hf hl hp⟩)
    by_cases hc : i.opcode = .call
    · cases hp : m.stack.push (m.pc + 2) with
      | error f =>
        have he : m.step.1 = .error f :=
          step_error_iff.2 (.inr ⟨i, hf, (Processor.refuses_call_iff hc _).2 hp⟩)
        exact .inl (by rw [step_of_error he])
      | ok stack => exact .inr (.inl ⟨i, stack, rfl, hc, rfl, step_of_call hf hc hp⟩)
    · left
      obtain ⟨pc, hp⟩ := exists_perform_eq m i
      rw [step_of_fetch hf, hp]
      exact (execute_keeps m i).stack hl hc

/-! ### Protection -/

/-- The addresses `below` are pending, and right above them the address `a`. -/
def Protects (m : Machine) (below : List UInt16) (a : UInt16) : Prop :=
  below ++ [a] <+: m.stack.contents

variable {below : List UInt16} {a : UInt16}

lemma Protects.lt_depth (h : m.Protects below a) : below.length < m.stack.depth := by
  have hle := h.length_le
  rw [ReturnStack.length_contents, List.length_append, List.length_singleton] at hle
  exact hle

lemma Protects.getElem?_slots (h : m.Protects below a) :
    m.stack.slots[below.length]? = some a := by
  rw [ReturnStack.getElem?_slots h.lt_depth]
  obtain ⟨above, habove⟩ := h
  rw [← habove, List.append_assoc, List.getElem?_append_right (Nat.le_refl _), Nat.sub_self]
  rfl

/-- **A cycle keeps a pending address protected**, or it is the return that takes it off
and continues there. -/
theorem protected_step (h : m.Protects below a) :
    m.step.2.Protects below a ∨
    ∃ i, m.fetch = .ok i ∧ i.opcode = .leave ∧ m.step.1 = .ok .jumped ∧
      m.step.2.pc = a ∧ m.step.2.stack.contents = below ∧
      m.step.2.stack.slots = m.stack.slots := by
  rcases step_stack_cases m with hs | ⟨i, stack, hf, op, hp, hs⟩ | ⟨i, b, stack, hf, op, hp, hs⟩
  · left
    rw [Protects, hs]
    exact h
  · left
    rw [Protects, hs]
    show below ++ [a] <+: stack.contents
    rw [ReturnStack.contents_push hp]
    exact h.trans (List.prefix_append _ _)
  · rw [Protects, ReturnStack.contents_pop hp, List.prefix_concat_iff] at h
    rcases h with heq | hpre
    · -- the pop takes the protected address itself
      obtain ⟨hbelow, hab⟩ := List.append_inj' heq rfl
      obtain rfl : a = b := by simpa using hab
      right
      refine ⟨i, hf, op, by rw [hs], by rw [hs], ?_, ?_⟩
      · rw [hs]
        exact hbelow.symm
      · rw [hs]
        exact ReturnStack.slots_pop hp
    · left
      rw [Protects, hs]
      exact hpre

/-- **A pending address stays protected** as long as the depth stays above it. -/
theorem protected_after (h : m.Protects below a) (actions : List Action)
    (inside : ∀ k ≤ actions.length,
      (m.after (actions.take k)).stack.depth ≠ below.length) :
    (m.after actions).Protects below a := by
  induction actions generalizing m with
  | nil => exact h
  | cons action rest ih =>
    have hact : (m.act action).Protects below a := by
      cases action with
      | step =>
        rcases protected_step h with hk | ⟨_, _, _, _, _, hcontents, _⟩
        · exact hk
        · refine absurd ?_ (inside 1 (by simp))
          rw [← hcontents, ReturnStack.length_contents]
          rfl
      | tick => exact h
      | press key => exact h
    refine ih hact fun k hk => ?_
    exact inside (k + 1) (by simpa using hk)

/-- **A pending address stays protected until it is taken off**, by a return that
continues there. -/
theorem protected_or_returned (h : m.Protects below a) (actions : List Action)
    (inside : ∀ k < actions.length,
      (m.after (actions.take k)).stack.depth ≠ below.length) :
    (m.after actions).Protects below a ∨
    ∃ l i, actions = l ++ [.step] ∧ (m.after l).Protects below a ∧
      (m.after l).fetch = .ok i ∧ i.opcode = .leave ∧ (m.after l).step.1 = .ok .jumped ∧
      (m.after actions).pc = a ∧ (m.after actions).stack.contents = below ∧
      (m.after actions).stack.slots = (m.after l).stack.slots := by
  rcases List.eq_nil_or_concat actions with rfl | ⟨l, action, rfl⟩
  · exact .inl h
  rw [List.concat_eq_append] at inside ⊢
  -- only the last action can return, as the depth was never reached before it
  have hl : (m.after l).Protects below a := by
    refine protected_after h l fun k hk => ?_
    have hk' := inside k (by rw [List.length_append, List.length_singleton]; omega)
    rwa [List.take_append_of_le_length hk] at hk'
  rw [after_append, after_cons, after_nil]
  cases action with
  | step =>
    rcases protected_step hl with hk | ⟨i, hf, op, hs, hpc, hcontents, hslots⟩
    · exact .inl hk
    · exact .inr ⟨l, i, rfl, hl, hf, op, hs, hpc, hcontents, hslots⟩
  | tick => exact .inl hl
  | press key => exact .inl hl

/-! ### Calls -/

/-- **Calls and returns are well nested.** Let a cycle execute a call at `p` with `d`
addresses pending, and look at any history from there up to the first moment at which `d`
addresses are pending again. All the while the slot with number `d` holds `p + 2`. The
history ends with the cycle of a return, which has continued at `p + 2`, and the pending
addresses are those from before the call. -/
theorem call_returns (hfetch : m.fetch = .ok i) (hcall : i.opcode = .call)
    (hok : m.step.1.isOk) (actions : List Action)
    (inside : ∀ k < actions.length,
      (m.step.2.after (actions.take k)).stack.depth ≠ m.stack.depth) :
    (m.step.2.after actions).stack.slots[m.stack.depth]?.map UInt16.toNat =
      some (m.pc.toNat + 2) ∧
    ((m.step.2.after actions).stack.depth = m.stack.depth →
      (∃ l j, actions = l ++ [.step] ∧ (m.step.2.after l).fetch = .ok j ∧
        j.opcode = .leave ∧ (m.step.2.after l).step.1 = .ok .jumped) ∧
      (m.step.2.after actions).pc.toNat = m.pc.toNat + 2 ∧
      (m.step.2.after actions).stack.contents = m.stack.contents) := by
  rw [← toNat_pc_add_two hfetch]
  rw [← ReturnStack.length_contents m.stack] at inside ⊢
  -- right after the call its return address lies on top of the old contents
  have hentry : m.step.2.Protects m.stack.contents (m.pc + 2) := by
    cases hp : m.stack.push (m.pc + 2) with
    | error f =>
      have he : m.step.1 = .error f :=
        step_error_iff.2 (.inr ⟨i, hfetch, (Processor.refuses_call_iff hcall _).2 hp⟩)
      simp [he, Except.isOk, Except.toBool] at hok
    | ok stack =>
      rw [Protects, step_of_call hfetch hcall hp]
      exact (ReturnStack.contents_push hp) ▸ List.prefix_rfl
  rcases protected_or_returned hentry actions inside with
    hp | ⟨l, j, rfl, hl, hf, op, hs, hpc, hcontents, hslots⟩
  · refine ⟨by rw [hp.getElem?_slots]; rfl, fun hd => ?_⟩
    exact absurd hd (Nat.ne_of_gt hp.lt_depth)
  · refine ⟨by rw [hslots, hl.getElem?_slots]; rfl, fun _ => ?_⟩
    exact ⟨⟨l, j, rfl, hf, op, hs⟩, by rw [hpc], hcontents⟩

end Source

/-- A machine with a subroutine that calls another one. -/
def nested : Machine :=
  ((blank (some 7) (.ofSeed 7)).load
    [0x22, 0x06, 0x12, 0x02, 0x00, 0x00, 0x22, 0x0A, 0x00, 0xEE, 0x00, 0xEE]).2

/-- A history in which the inner subroutine returns and then the outer one. -/
def visit : List Action :=
  [.step, .tick, .step, .press none, .step]

/-- The first call returns behind itself, although another call and its return lie in
between. -/
theorem call_returns_nested :
    nested.fetch = .ok ⟨.call, 0x2206, by decide⟩ ∧
    (∀ k < visit.length,
      (nested.step.2.after (visit.take k)).stack.depth ≠ nested.stack.depth) ∧
    (nested.step.2.after visit).pc.toNat = nested.pc.toNat + 2 ∧
    (nested.step.2.after visit).stack.contents = nested.stack.contents := by
  obtain ⟨hfetch, hok, hinside, hback⟩ :
      nested.fetch = .ok ⟨.call, 0x2206, by decide⟩ ∧ nested.step.1.isOk ∧
      (∀ k < visit.length,
        (nested.step.2.after (visit.take k)).stack.depth ≠ nested.stack.depth) ∧
      (nested.step.2.after visit).stack.depth = nested.stack.depth := by
    decide +kernel
  exact ⟨hfetch, hinside, ((call_returns hfetch rfl hok visit hinside).2 hback).2⟩

end Machine

end Chip8
