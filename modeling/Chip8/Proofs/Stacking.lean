import Mathlib.Data.List.Basic
import Mathlib.Tactic.Common
import Chip8.ReturnStack

/-!
The return stack one change after the other.

What is pending is a list of at most sixteen addresses. A call appends to it and a return takes the
last address off, so addresses come back in the opposite order. The slots behind those in use keep
what was in them, which nothing shows but a pointer that is set from outside. So a stack is a pile
of two lists, of which one grows at its end by what the other loses at its front.

* `change_push_of_full`, `exists_change_push`, `change_pop_of_empty`, `exists_change_pop`,
  `contents_restore`: what a change does;
* `ReturnStack.Pile`, `pile_changeAll`: a stack in a history of changes is a pile in the same one;
* `answers_roundTrip`, `accepted_perm_returned`: what is pushed comes back in the opposite order,
  and all of it;
* `last_in_first_out`: all of this together.
-/

namespace Chip8.ReturnStack

/-! ### Changes -/

/-- What can be done with a return stack. -/
inductive Change where
  /-- One more address. -/
  | push (a : UInt16)
  /-- The latest address is taken off. -/
  | pop
  /-- Slots and pointer are set from outside. -/
  | restore (pointer : Option Nat) (words : List UInt16)
  deriving DecidableEq

/-- Addresses are pushed, and then as many are taken off. -/
def Change.roundTrip (addresses : List UInt16) : List Change :=
  addresses.map push ++ List.replicate addresses.length pop

/-- Makes a change. A return answers with its address; a change that fails leaves the stack as it
was. -/
def change (s : ReturnStack) : Change → Except Fault (Option UInt16) × ReturnStack
  | .push a =>
    match s.push a with
    | .ok s' => (.ok none, s')
    | .error f => (.error f, s)
  | .pop =>
    match s.pop with
    | .ok (a, s') => (.ok (some a), s')
    | .error f => (.error f, s)
  | .restore pointer words => (.ok none, s.restore pointer words)

/-- The stack after a list of changes. -/
def changeAll (s : ReturnStack) (changes : List Change) : ReturnStack :=
  changes.foldl (fun s c => (s.change c).2) s

/-- The answers to a list of changes. -/
def answers : ReturnStack → List Change → List (Except Fault (Option UInt16))
  | _, [] => []
  | s, c :: rest => (s.change c).1 :: answers (s.change c).2 rest

/-- The address that a change pushes, unless it is refused. -/
def Change.pushed? : Change → Except Fault (Option UInt16) → Option UInt16
  | .push a, .ok _ => some a
  | _, _ => none

/-- The addresses that are pushed among a list of changes, without those that are refused. -/
def accepted : ReturnStack → List Change → List UInt16
  | _, [] => []
  | s, c :: rest => (c.pushed? (s.change c).1).toList ++ accepted (s.change c).2 rest

/-- The addresses that are taken off among a list of changes. -/
def returned : ReturnStack → List Change → List UInt16
  | _, [] => []
  | s, c :: rest => (s.change c).1.toOption.join.toList ++ returned (s.change c).2 rest

variable {s : ReturnStack} {a : UInt16}

@[simp] lemma changeAll_nil (s : ReturnStack) : s.changeAll [] = s := rfl

@[simp] lemma changeAll_cons (s : ReturnStack) (c : Change) (rest : List Change) :
    s.changeAll (c :: rest) = (s.change c).2.changeAll rest := rfl

@[simp] lemma answers_nil (s : ReturnStack) : s.answers [] = [] := rfl

@[simp] lemma answers_cons (s : ReturnStack) (c : Change) (rest : List Change) :
    s.answers (c :: rest) = (s.change c).1 :: (s.change c).2.answers rest := rfl

lemma changeAll_append (s : ReturnStack) (first rest : List Change) :
    s.changeAll (first ++ rest) = (s.changeAll first).changeAll rest :=
  List.foldl_append

lemma answers_append (s : ReturnStack) (first rest : List Change) :
    s.answers (first ++ rest) = s.answers first ++ (s.changeAll first).answers rest := by
  induction first generalizing s with
  | nil => rfl
  | cons c first ih => rw [List.cons_append, answers_cons, ih, answers_cons, changeAll_cons]; rfl

/-! ### One change -/

lemma change_push_of_full (h : s.contents.length = stackCapacity) (a : UInt16) :
    s.change (.push a) = (.error .stackOverflow, s) := by
  rw [length_contents] at h
  simp only [change, push_eq_error_iff.2 ⟨h, rfl⟩]

/-- **A call with a free slot** appends its address, which goes into the first free slot. -/
lemma exists_change_push (h : s.contents.length < stackCapacity) (a : UInt16) :
    ∃ s', s.change (.push a) = (.ok none, s') ∧ s'.contents = s.contents ++ [a] ∧
      s'.depth = s.depth + 1 ∧ s'.slots.toList = s.slots.toList.set s.depth a := by
  have hdepth : s.depth < stackCapacity := length_contents s ▸ h
  have hpush : s.push a = .ok ⟨s.slots.set s.depth a, s.depth + 1, hdepth⟩ :=
    push_eq_ok_iff.2 ⟨hdepth, rfl⟩
  exact ⟨_, by simp only [change, hpush], contents_push hpush, rfl,
    Vector.toList_set hdepth⟩

lemma change_pop_of_empty (h : s.contents = []) : s.change .pop = (.error .stackUnderflow, s) := by
  have hdepth : s.depth = 0 := by rw [← length_contents, h, List.length_nil]
  simp only [change, pop_eq_error_iff.2 ⟨hdepth, rfl⟩]

/-- **A return with a pending address** takes the last one off, and leaves every slot as it is. -/
lemma exists_change_pop {rest : List UInt16} (h : s.contents = rest ++ [a]) :
    ∃ s', s.change .pop = (.ok (some a), s') ∧ s'.contents = rest ∧ s.depth = s'.depth + 1 ∧
      s'.slots = s.slots := by
  rcases hpop : s.pop with f | ⟨b, s'⟩
  · have hdepth := (pop_eq_error_iff.1 hpop).1
    rw [← length_contents, h, List.length_append] at hdepth
    cases hdepth
  · have hlast := contents_pop hpop
    rw [h, List.append_singleton_inj] at hlast
    obtain ⟨rfl, rfl⟩ := hlast
    obtain ⟨hdepth, hslots, -⟩ := pop_eq_ok_iff.1 hpop
    exact ⟨s', by simp only [change, hpop], rfl, hdepth, hslots⟩

/-- The words that are set go into the first slots, as many as there are, and the other slots keep
what is in them. -/
lemma toList_fill (slots : Vector UInt16 stackCapacity) (words : List UInt16) :
    (fill slots words).toList = words.take stackCapacity ++ slots.toList.drop words.length := by
  apply List.ext_getElem
  · simp only [Vector.length_toList, List.length_append, List.length_take, List.length_drop]
    omega
  · intro n hn _
    have hn : n < stackCapacity := by simpa using hn
    by_cases hword : n < words.length
    · have hlength : n < (words.take stackCapacity).length := by
        rw [List.length_take]
        omega
      rw [List.getElem_append_left hlength]
      simp [fill, hword]
    · have hlength : (words.take stackCapacity).length = words.length := by
        rw [List.length_take]
        omega
      have hplace : words.length + (n - words.length) = n := by omega
      rw [List.getElem_append_right (by omega)]
      simp [fill, hlength, hplace, List.getElem?_eq_none (Nat.not_lt.1 hword)]

/-- **What is pending after the stack is set from outside** are the words that were given, and
behind them what was in the slots before, up to the pointer. -/
lemma contents_restore (s : ReturnStack) (pointer : Option Nat) (words : List UInt16) :
    (s.restore pointer words).contents =
      (words.take stackCapacity ++ s.slots.toList.drop words.length).take
        (pointer.elim 0 fun p => min (p + 1) stackCapacity) := by
  rw [contents, restore, toList_fill]

lemma inspect_contents (s : ReturnStack) :
    s.pointer? = (if s.contents = [] then none else some (s.contents.length - 1)) ∧
      s.top? = s.contents.getLast? ∧ s.isEmpty = s.contents.isEmpty ∧
      s.isFull = (s.contents.length == stackCapacity) := by
  have hlength := length_contents s
  have hempty : s.contents = [] ↔ s.depth = 0 := by rw [← hlength, List.length_eq_zero_iff]
  refine ⟨?_, ?_, ?_, by rw [hlength, isFull]⟩
  · simp only [pointer?, hempty, hlength]
  · rw [top?, List.getLast?_eq_getElem?, hlength]
    split
    · next hpos => rw [← getElem?_slots (by omega), Vector.getElem?_eq_getElem]
    · next hnone => rw [hempty.2 (by omega), List.getElem?_nil]
  · rw [Bool.eq_iff_iff, isEmpty, List.isEmpty_iff, hempty, beq_iff_eq]

/-! ### Stacks as piles -/

/-- Pending addresses, and behind them what is left in the slots that are not in use. -/
structure Pile where
  pending : List UInt16
  spare : List UInt16
  deriving DecidableEq

namespace Pile

/-- Nothing pending, and zeros behind. -/
def blank : Pile :=
  ⟨[], List.replicate 16 0⟩

/-- Makes a change. An address that is pushed takes the place of the next spare one, and one that
is taken off becomes the next spare one. -/
def change (p : Pile) : Change → Except Fault (Option UInt16) × Pile
  | .push a =>
    match p.spare with
    | [] => (.error .stackOverflow, p)
    | _ :: spare => (.ok none, ⟨p.pending ++ [a], spare⟩)
  | .pop =>
    match p.pending.getLast? with
    | none => (.error .stackUnderflow, p)
    | some a => (.ok (some a), ⟨p.pending.dropLast, a :: p.spare⟩)
  | .restore pointer words =>
    let entries := words.take 16 ++ (p.pending ++ p.spare).drop words.length
    let depth := pointer.elim 0 fun n => min (n + 1) 16
    (.ok none, ⟨entries.take depth, entries.drop depth⟩)

/-- The pile after a list of changes. -/
def changeAll (p : Pile) (changes : List Change) : Pile :=
  changes.foldl (fun p c => (p.change c).2) p

/-- The answers to a list of changes. -/
def answers : Pile → List Change → List (Except Fault (Option UInt16))
  | _, [] => []
  | p, c :: rest => (p.change c).1 :: answers (p.change c).2 rest

end Pile

/-- The pile that a stack is. -/
def pile (s : ReturnStack) : Pile :=
  ⟨s.contents, s.slots.toList.drop s.depth⟩

/-- A pile has an address for every slot. -/
lemma pending_append_spare (s : ReturnStack) :
    s.pile.pending ++ s.pile.spare = s.slots.toList :=
  List.take_append_drop ..

/-- **A change of a stack is that of its pile.** -/
theorem pile_change (s : ReturnStack) (c : Change) :
    s.pile.change c = ((s.change c).1, (s.change c).2.pile) := by
  have hlength := length_contents s
  have hle := s.depth_le
  cases c with
  | push a =>
    rcases Nat.lt_or_ge s.contents.length stackCapacity with hroom | hfull
    · obtain ⟨s', hs', hcontents, hdepth, hslots⟩ := exists_change_push hroom a
      -- a push overwrites the first of the spare slots, and the others stay behind
      have hspare : s.pile.spare = s.slots[s.depth] :: s'.pile.spare := by
        simp only [pile, hdepth, hslots]
        rw [List.drop_eq_getElem_cons (by simp; omega), Vector.getElem_toList,
          List.drop_set_of_lt (Nat.lt_succ_self _)]
      rw [Pile.change, hspare, hs', pile, pile, hcontents]
    · have hfull : s.contents.length = stackCapacity := by omega
      have hspare : s.pile.spare = [] :=
        List.drop_eq_nil_of_le (by rw [Vector.length_toList]; omega)
      rw [Pile.change, hspare, change_push_of_full hfull]
  | pop =>
    rcases List.eq_nil_or_concat' s.contents with hempty | ⟨rest, a, hlast⟩
    · have hpending : s.pile.pending.getLast? = none := by rw [pile, hempty, List.getLast?_nil]
      rw [Pile.change, hpending, change_pop_of_empty hempty]
    · obtain ⟨s', hs', hcontents, hdepth, hslots⟩ := exists_change_pop hlast
      have hpending : s.pile.pending = s'.pile.pending ++ [a] := by
        rw [pile, pile, hlast, hcontents]
      -- the slots are the same before and after, and one fewer of them is in use
      have hspare : a :: s.pile.spare = s'.pile.spare := by
        have hall := s.pending_append_spare
        rw [← hslots, ← s'.pending_append_spare, hpending, List.append_assoc] at hall
        exact List.append_cancel_left hall
      rw [Pile.change, hpending, List.getLast?_concat, hs', List.dropLast_concat]
      simp only [hspare]
  | restore pointer words =>
    rw [Pile.change, pending_append_spare, change, pile, contents, restore, toList_fill]

/-- **A stack in a history of changes** is a pile in the same history. -/
theorem pile_changeAll (s : ReturnStack) (changes : List Change) :
    s.answers changes = s.pile.answers changes ∧
      (s.changeAll changes).pile = s.pile.changeAll changes := by
  induction changes generalizing s with
  | nil => exact ⟨rfl, rfl⟩
  | cons c rest ih =>
    obtain ⟨hanswers, hpile⟩ := ih (s.change c).2
    rw [Pile.answers, Pile.changeAll, List.foldl_cons, pile_change, answers_cons, changeAll_cons]
    exact ⟨congrArg _ hanswers, hpile⟩

/-! ### What comes back -/

/-- The first address is pushed first and comes back last, after all of the others. -/
lemma Change.roundTrip_cons (a : UInt16) (addresses : List UInt16) :
    roundTrip (a :: addresses) = push a :: (roundTrip addresses ++ [pop]) := by
  rw [roundTrip, roundTrip, List.length_cons, List.replicate_succ', List.map_cons,
    List.cons_append, List.append_assoc]

/-- **Addresses that are pushed come back in the opposite order**, and the pending ones below them
stay. -/
theorem answers_roundTrip (s : ReturnStack) {addresses : List UInt16}
    (room : s.contents.length + addresses.length ≤ stackCapacity) :
    s.answers (Change.roundTrip addresses) =
        addresses.map (fun _ => .ok none) ++ addresses.reverse.map (.ok ∘ some) ∧
      (s.changeAll (Change.roundTrip addresses)).contents = s.contents := by
  induction addresses generalizing s with
  | nil => exact ⟨rfl, rfl⟩
  | cons a addresses ih =>
    rw [List.length_cons] at room
    obtain ⟨s', hpush, hpushed, -⟩ := exists_change_push (s := s) (by omega) a
    have hroom : s'.contents.length + addresses.length ≤ stackCapacity := by
      rw [hpushed, List.length_append, List.length_singleton]
      omega
    obtain ⟨hanswers, hcontents⟩ := ih s' hroom
    obtain ⟨s'', hpop, hpopped, -⟩ := exists_change_pop (hcontents.trans hpushed)
    rw [Change.roundTrip_cons, answers_cons, changeAll_cons, hpush, answers_append,
      changeAll_append, hanswers, answers_cons, changeAll_cons, hpop]
    exact ⟨by simp, hpopped⟩

/-- What was pending and what a change pushes is what it takes off and what is pending then. -/
lemma pushed_perm_taken (s : ReturnStack) {c : Change}
    (inside : ∀ pointer words, c ≠ .restore pointer words) :
    (s.contents ++ (c.pushed? (s.change c).1).toList).Perm
      ((s.change c).1.toOption.join.toList ++ (s.change c).2.contents) := by
  cases c with
  | push a =>
    rcases Nat.lt_or_ge s.contents.length stackCapacity with hroom | hfull
    · obtain ⟨s', hs', hcontents, -⟩ := exists_change_push hroom a
      rw [hs', hcontents]
      exact .refl _
    · have hfull : s.contents.length = stackCapacity :=
        Nat.le_antisymm (length_contents s ▸ s.depth_le) hfull
      rw [change_push_of_full hfull]
      exact .of_eq (List.append_nil _)
  | pop =>
    rcases List.eq_nil_or_concat' s.contents with hempty | ⟨below, a, hlast⟩
    · rw [change_pop_of_empty hempty]
      exact .of_eq (List.append_nil _)
    · obtain ⟨s', hs', hcontents, -⟩ := exists_change_pop hlast
      rw [hs', hcontents, hlast]
      exact (List.Perm.of_eq (List.append_nil _)).trans (List.perm_append_singleton a below)
  | restore pointer words => exact absurd rfl (inside pointer words)

/-- **Nothing is lost and nothing comes twice**: what was pending and what is pushed is what is
taken off and what is pending in the end. -/
theorem accepted_perm_returned (s : ReturnStack) {changes : List Change}
    (inside : ∀ pointer words, .restore pointer words ∉ changes) :
    (s.contents ++ s.accepted changes).Perm
      (s.returned changes ++ (s.changeAll changes).contents) := by
  induction changes generalizing s with
  | nil => exact .of_eq (List.append_nil _)
  | cons c rest ih =>
    have hhere := s.pushed_perm_taken fun pointer words h =>
      inside pointer words (h ▸ List.mem_cons_self)
    have hrest := ih (s.change c).2 fun pointer words h =>
      inside pointer words (List.mem_cons_of_mem _ h)
    rw [accepted, returned, changeAll_cons, List.append_assoc, ← List.append_assoc]
    refine (hhere.append_right _).trans ?_
    rw [List.append_assoc]
    exact hrest.append_left _

/-! ### The last in is the first out -/

/-- **The return stack is a bounded list of which the last address comes out first.** After any
changes to a blank stack:

* all answers so far, and the stack itself, are those of a pile in the same history;
* what is pending are the first slots, at most sixteen, and pointer, latest address and bounds are
  those of this list;
* a call is refused exactly if sixteen addresses are pending; otherwise it appends its address,
  and changes only the slot behind those in use;
* a return is refused exactly if nothing is pending; otherwise it answers with the last address
  and takes it off, and changes no slot;
* setting the stack from outside makes pending the words that were given, and behind them what was
  in the slots before, up to the pointer;
* addresses that are pushed come back in the opposite order, and none is lost or comes twice,
  however calls and returns follow on each other.

A change that is refused leaves the stack as it was. -/
theorem last_in_first_out (changes : List Change) :
    let s := blank.changeAll changes
    (blank.answers changes = Pile.blank.answers changes ∧
      s.pile = Pile.blank.changeAll changes) ∧
    (s.contents = s.slots.toList.take s.depth ∧ s.contents.length = s.depth ∧ s.depth ≤ 16 ∧
      s.pointer? = (if s.contents = [] then none else some (s.contents.length - 1)) ∧
      s.top? = s.contents.getLast? ∧ s.isEmpty = s.contents.isEmpty ∧
      s.isFull = (s.contents.length == 16)) ∧
    (∀ a,
      (s.contents.length = 16 → s.change (.push a) = (.error .stackOverflow, s)) ∧
      (s.contents.length ≠ 16 → ∃ s', s.change (.push a) = (.ok none, s') ∧
        s'.contents = s.contents ++ [a] ∧
        ∀ n, n ≠ s.depth → s'.slots[n]? = s.slots[n]?)) ∧
    (s.contents = [] → s.change .pop = (.error .stackUnderflow, s)) ∧
    (∀ rest a, s.contents = rest ++ [a] → ∃ s', s.change .pop = (.ok (some a), s') ∧
      s'.contents = rest ∧ s'.slots = s.slots) ∧
    (∀ pointer words, ∃ s', s.change (.restore pointer words) = (.ok none, s') ∧
      s'.contents = (words.take 16 ++ s.slots.toList.drop words.length).take
        (pointer.elim 0 fun p => min (p + 1) 16)) ∧
    (∀ addresses : List UInt16, s.contents.length + addresses.length ≤ 16 →
      s.answers (Change.roundTrip addresses) =
          addresses.map (fun _ => .ok none) ++ addresses.reverse.map (.ok ∘ some) ∧
        (s.changeAll (Change.roundTrip addresses)).contents = s.contents) ∧
    (∀ further : List Change, (∀ pointer words, .restore pointer words ∉ further) →
      (s.contents ++ s.accepted further).Perm
        (s.returned further ++ (s.changeAll further).contents)) := by
  intro s
  have hlength := length_contents s
  have hle : s.depth ≤ 16 := s.depth_le
  refine ⟨pile_changeAll blank changes, ⟨rfl, hlength, hle, s.inspect_contents⟩,
    fun a => ⟨fun hfull => change_push_of_full hfull a, fun hroom => ?_⟩, change_pop_of_empty,
    fun rest a hlast => ?_, fun pointer words => ⟨_, rfl, s.contents_restore pointer words⟩,
    fun _ => s.answers_roundTrip, fun further => s.accepted_perm_returned⟩
  · -- there is room, as the depth never exceeds the capacity
    have hfree : s.contents.length < stackCapacity := Nat.lt_of_le_of_ne (hlength ▸ hle) hroom
    obtain ⟨s', hs', hcontents, -, hslots⟩ := exists_change_push hfree a
    refine ⟨s', hs', hcontents, fun n hn => ?_⟩
    rw [← Vector.getElem?_toList, hslots, List.getElem?_set_ne hn.symm, Vector.getElem?_toList]
  · obtain ⟨s', hs', hcontents, -, hslots⟩ := exists_change_pop hlast
    exact ⟨s', hs', hcontents, hslots⟩

/-- Three calls, two returns, and then a word and a pointer from outside, which makes pending again
what the returns have left in the slots. -/
def leftovers : List Change :=
  [.push 0x202, .push 0x304, .push 0x406, .pop, .pop, .restore (some 2) [0x11]]

/-- What the returns have left is taken off once more. Then the stack is filled up, and the call
that comes too late is refused. -/
theorem last_in_first_out_leftovers :
    let s := blank.changeAll leftovers
    s.contents = [0x11, 0x304, 0x406] ∧
    (s.change .pop).1 = .ok (some 0x406) ∧
    (∃ s', s.change (.push 0x50A) = (.ok none, s') ∧ s'.contents = [0x11, 0x304, 0x406, 0x50A]) ∧
    s.answers [.push 1, .push 2, .pop, .pop] =
      [.ok none, .ok none, .ok (some 2), .ok (some 1)] ∧
    (s.contents ++ s.accepted [.pop, .push 7, .pop, .pop]).Perm [0x406, 7, 0x304, 0x11] ∧
    (blank.changeAll [.restore (some 99) []]).change (.push 1) =
      (.error .stackOverflow, blank.changeAll [.restore (some 99) []]) := by
  intro s
  have hcontents : s.contents = [0x11, 0x304, 0x406] := by decide +kernel
  obtain ⟨-, -, hpush, -, hpop, -, horder, hperm⟩ := last_in_first_out leftovers
  obtain ⟨-, -, hfull, -⟩ := last_in_first_out [.restore (some 99) []]
  obtain ⟨s', hs', -⟩ := hpop [0x11, 0x304] 0x406 hcontents
  obtain ⟨s'', hs'', hpushed, -⟩ := (hpush 0x50A).2 (by decide +kernel)
  refine ⟨hcontents, by rw [hs'], ⟨s'', hs'', ?_⟩, (horder [1, 2] (by decide +kernel)).1, ?_,
    (hfull 1).1 (by decide +kernel)⟩
  · rw [hpushed]
    exact congrArg (· ++ [0x50A]) hcontents
  · refine (hperm [.pop, .push 7, .pop, .pop] (by simp)).trans ?_
    decide +kernel

end Chip8.ReturnStack
