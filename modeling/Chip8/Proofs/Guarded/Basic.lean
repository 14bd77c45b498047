import Mathlib.Tactic.Common
import Chip8.Architecture

/-!
Computations that can break down.

The machine is made of total functions: none of them can reach outside of an array or leave the
width of a number. A host that carries out its work has to check this at every access and every
sum. Here are the accesses and sums of such a host: each gives its result, or nothing if the check
fails, and then the whole computation gives nothing.

* `put`, `range`, `copy`: places of an array;
* `sum`, `product`: numbers below a limit.
-/

namespace Chip8.Guarded

/-! ### Numbers -/

/-- The numbers that fit into a word. -/
abbrev wordLimit : Nat := 65536

/-- The numbers that fit into two words. -/
abbrev doubleLimit : Nat := 4294967296

/-- The numbers that the host can count to. -/
abbrev hostLimit : Nat := 18446744073709551616

/-- The sum of two numbers, if it is below the limit. -/
def sum (limit a b : Nat) : Option Nat :=
  if a + b < limit then some (a + b) else none

/-- The product of two numbers, if it is below the limit. -/
def product (limit a b : Nat) : Option Nat :=
  if a * b < limit then some (a * b) else none

variable {limit a b : Nat}

lemma sum_eq_some (h : a + b < limit) : sum limit a b = some (a + b) :=
  if_pos h

lemma product_eq_some (h : a * b < limit) : product limit a b = some (a * b) :=
  if_pos h

/-- The numbers that a machine comes to are below twice the number of words, and the host can
count further. -/
lemma lt_hostLimit (h : a < 131072) : a < hostLimit :=
  Nat.lt_trans h (by decide)

/-! ### Arrays -/

variable {α : Type} {n : Nat}

/-- The array with another value at a place, if it has that place. -/
def put (v : Vector α n) (i : Nat) (x : α) : Option (Vector α n) :=
  if h : i < n then some (v.set i x) else none

/-- The values from place `a` up to place `b`, if these are places in their order. -/
def range (v : Vector α n) (a b : Nat) : Option (List α) :=
  if a ≤ b ∧ b ≤ n then some ((v.toList.take b).drop a) else none

/-- The array with the data from place `a` up to place `b`, if these are places in their order
and there are as many of them as data. -/
def copy (v : Vector α n) (a b : Nat) (data : List α) : Option (Vector α n) :=
  if a ≤ b ∧ b ≤ n ∧ data.length = b - a then
    some (.ofFn fun i => if a ≤ i ∧ i < b then data.getD (i - a) v[i] else v[i])
  else none

lemma put_eq_some {v : Vector α n} {i : Nat} (h : i < n) (x : α) :
    put v i x = some (v.set i x) :=
  dif_pos h

lemma range_eq_some {v : Vector α n} {length : Nat} (h : a + length ≤ n) :
    range v a (a + length) = some (List.ofFn fun i : Fin length => v[a + i]) := by
  rw [range, if_pos ⟨Nat.le_add_right a length, h⟩]
  congr 1
  apply List.ext_getElem
  · simp
    omega
  · intro i _ _
    simp

lemma copy_eq_some {v : Vector α n} {data : List α} (hab : a ≤ b) (hb : b ≤ n)
    (hdata : data.length = b - a) :
    copy v a b data =
      some (.ofFn fun i => if a ≤ i ∧ i < b then data.getD (i - a) v[i] else v[i]) :=
  if_pos ⟨hab, hb, hdata⟩

lemma copy_front {v : Vector α n} {data : List α} {count : Nat} (hdata : data.length = count)
    (h : count ≤ n) : copy v 0 count data = some (.ofFn fun i => data.getD i v[i]) := by
  rw [copy_eq_some (Nat.zero_le _) h hdata]
  refine congrArg some (Vector.ext fun i hi => ?_)
  by_cases hlt : i < count <;> simp [hlt, hdata]

/-! ### Lists -/

/-- Work on a list that does not break down at any of its members does not break down. -/
lemma mapM_eq_some {β : Type} {f : α → Option β} {g : α → β} {l : List α}
    (h : ∀ x ∈ l, f x = some (g x)) : l.mapM f = some (l.map g) := by
  induction l with
  | nil => rfl
  | cons x rest ih =>
    rw [List.forall_mem_cons] at h
    rw [List.mapM_cons, h.1, ih h.2]
    rfl

end Chip8.Guarded
