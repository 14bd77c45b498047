import Chip8.Fault

/-!
The stack of return addresses: sixteen slots, of which the first `depth` are in
use. A slot that is given up keeps its address until it is used again; it can be
inspected, but no call or return depends on it.

* `contents`: the pending addresses, the oldest first;
* `contents_push`, `contents_pop`: a call appends to them, a return takes the
  last away.
-/

namespace Chip8

/-- Sixteen slots and the number of them in use. -/
structure ReturnStack where
  slots : Vector UInt16 stackCapacity
  depth : Nat
  depth_le : depth ≤ stackCapacity
  deriving DecidableEq

namespace ReturnStack

/-- No address pending, and every slot zero. -/
def blank : ReturnStack :=
  ⟨Vector.replicate stackCapacity 0, 0, by decide⟩

/-- The pending addresses, the oldest first. -/
def contents (s : ReturnStack) : List UInt16 :=
  s.slots.toList.take s.depth

/-- The slot of the latest address. -/
def pointer? (s : ReturnStack) : Option Nat :=
  if s.depth = 0 then none else some (s.depth - 1)

/-- The latest address. -/
def top? (s : ReturnStack) : Option UInt16 :=
  if h : 0 < s.depth then
    have := s.depth_le
    some s.slots[s.depth - 1]
  else none

/-- No address is pending. -/
def isEmpty (s : ReturnStack) : Bool :=
  s.depth == 0

/-- Every slot is in use. -/
def isFull (s : ReturnStack) : Bool :=
  s.depth == stackCapacity

/-- One more address, in the first free slot. -/
def push (s : ReturnStack) (a : UInt16) : Except Fault ReturnStack :=
  if h : s.depth < stackCapacity then .ok ⟨s.slots.set s.depth a, s.depth + 1, h⟩
  else .error .stackOverflow

/-- The latest address, and the stack without it. -/
def pop (s : ReturnStack) : Except Fault (UInt16 × ReturnStack) :=
  if h : 0 < s.depth then
    have := s.depth_le
    .ok (s.slots[s.depth - 1], ⟨s.slots, s.depth - 1, by omega⟩)
  else .error .stackUnderflow

theorem push_eq_error_iff {s : ReturnStack} {a : UInt16} {f : Fault} :
    s.push a = .error f ↔ s.depth = stackCapacity ∧ f = .stackOverflow := by
  have := s.depth_le
  rw [push]
  split
  · next h => simp [Nat.ne_of_lt h]
  · next h =>
    have : s.depth = stackCapacity := by omega
    simp [this, eq_comm]

theorem pop_eq_error_iff {s : ReturnStack} {f : Fault} :
    s.pop = .error f ↔ s.depth = 0 ∧ f = .stackUnderflow := by
  rw [pop]
  split
  · next h => simp [Nat.ne_of_gt h]
  · next h =>
    have : s.depth = 0 := by omega
    simp [this, eq_comm]

theorem push_eq_ok_iff {s s' : ReturnStack} {a : UInt16} :
    s.push a = .ok s' ↔
      ∃ h : s.depth < stackCapacity, s' = ⟨s.slots.set s.depth a, s.depth + 1, h⟩ := by
  rw [push]
  split
  · next h => simp [h, eq_comm]
  · next h => simp [h]

/-- A return that succeeds gives up the slot of the latest address, and leaves it there. -/
theorem pop_eq_ok_iff {s s' : ReturnStack} {a : UInt16} :
    s.pop = .ok (a, s') ↔
      s.depth = s'.depth + 1 ∧ s'.slots = s.slots ∧ s.slots[s'.depth]? = some a := by
  obtain ⟨slots, depth, hdepth⟩ := s
  obtain ⟨slots', depth', hdepth'⟩ := s'
  rw [pop]
  split
  · next h =>
    simp only [Except.ok.injEq, Prod.mk.injEq, mk.injEq] at h ⊢
    constructor
    · rintro ⟨rfl, rfl, rfl⟩
      exact ⟨by omega, rfl, Vector.getElem?_eq_getElem (by omega)⟩
    · rintro ⟨rfl, rfl, ha⟩
      rw [Vector.getElem?_eq_getElem (by omega)] at ha
      exact ⟨by simpa using ha, rfl, rfl⟩
  · next h =>
    simp only [reduceCtorEq, false_iff, not_and] at h ⊢
    omega

theorem top?_of_pop {s s' : ReturnStack} {a : UInt16} (h : s.pop = .ok (a, s')) :
    s.top? = some a := by
  rw [pop] at h
  rw [top?]
  split at h
  · next hdepth =>
    simp only [Except.ok.injEq, Prod.mk.injEq] at h
    rw [dif_pos hdepth]
    exact congrArg some h.1
  · cases h

/-- The given words in the first slots, as many as there is room for. -/
def fill (slots : Vector UInt16 stackCapacity) (words : List UInt16) :
    Vector UInt16 stackCapacity :=
  Vector.ofFn fun i => words.getD i.val slots[i]

/-- Sets slots and pointer from outside: the words go into the first slots, and
the slots up to the pointer, or all if it is too large, are in use. -/
def restore (s : ReturnStack) (pointer : Option Nat) (words : List UInt16) : ReturnStack :=
  ⟨fill s.slots words, pointer.elim 0 fun p => min (p + 1) stackCapacity, by
    cases pointer
    · exact Nat.zero_le _
    · exact Nat.min_le_right ..⟩

/-! ### The stack as a list -/

@[simp] theorem contents_blank : blank.contents = [] := rfl

@[simp] theorem length_contents (s : ReturnStack) : s.contents.length = s.depth := by
  have := s.depth_le
  simp only [contents, List.length_take, Vector.length_toList]
  omega

/-- A call appends its return address, and changes no slot in use. -/
theorem contents_push {s s' : ReturnStack} {a : UInt16} (h : s.push a = .ok s') :
    s'.contents = s.contents ++ [a] := by
  rw [push] at h
  split at h
  · next hd =>
    cases h
    have hlen := length_contents s
    apply List.ext_getElem
    · simp
    · intro i hi _
      have hi : i < s.depth + 1 := by simpa using hi
      rw [List.getElem_append]
      by_cases hi' : i < s.depth
      · rw [dif_pos (by omega)]
        simp [contents, Vector.getElem_set_ne _ _ (show s.depth ≠ i by omega)]
      · obtain rfl : i = s.depth := by omega
        rw [dif_neg (by omega)]
        simp [contents]
  · cases h

/-- A return takes the last pending address away. -/
theorem contents_pop {s s' : ReturnStack} {a : UInt16} (h : s.pop = .ok (a, s')) :
    s.contents = s'.contents ++ [a] := by
  rw [pop] at h
  split at h
  · next hd =>
    cases h
    have hlen : (ReturnStack.mk s.slots (s.depth - 1)
        (by have := s.depth_le; omega)).contents.length = s.depth - 1 := length_contents _
    apply List.ext_getElem
    · simp; omega
    · intro i hi _
      have hi : i < s.depth := by simpa using hi
      rw [List.getElem_append]
      by_cases hi' : i < s.depth - 1
      · rw [dif_pos (by omega)]
        simp [contents]
      · obtain rfl : i = s.depth - 1 := by omega
        rw [dif_neg (by simp [hlen])]
        simp [contents]
  · cases h

theorem slots_pop {s s' : ReturnStack} {a : UInt16} (h : s.pop = .ok (a, s')) :
    s'.slots = s.slots :=
  (pop_eq_ok_iff.1 h).2.1

theorem getElem?_slots {s : ReturnStack} {n : Nat} (h : n < s.depth) :
    s.slots[n]? = s.contents[n]? := by
  rw [contents, List.getElem?_take_of_lt h, Vector.getElem?_toList]

end ReturnStack

end Chip8
