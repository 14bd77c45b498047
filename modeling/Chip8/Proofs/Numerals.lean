import Mathlib.Data.List.Forall2
import Mathlib.Data.Nat.Digits.Defs
import Mathlib.Tactic.Common
import Chip8.Text.Numeral

/-!
The numerals of a command line and the numbers that they denote.

A numeral is an optional plus sign and one or more digits of a base, each in either case, and it
denotes the number that has these digits. Reading a numeral below a limit gives the number that it
denotes, and every text that denotes such a number is read.

* `Spells`, `digit?_eq_some_iff`: digits and their values;
* `Denotes`, `parse?_eq_some_iff`: numerals and their numbers;
* `denotes_toString`: every number is denoted by its decimal digits.
-/

namespace Chip8.Numeral

variable {base : Nat}

/-! ### Digits -/

/-- The character is the digit of a base with the given value, in lower or upper case. -/
def Spells (base : Nat) (c : Char) (d : Nat) : Prop :=
  d < base ∧ (c = d.digitChar ∨ c = d.digitChar.toUpper)

lemma digit?_digitChar (hbase : base ≤ 16) {d : Nat} (hd : d < base) :
    digit? base d.digitChar = some d ∧ digit? base d.digitChar.toUpper = some d := by
  have hall : ∀ base ≤ 16, ∀ d < base,
      digit? base d.digitChar = some d ∧ digit? base d.digitChar.toUpper = some d := by decide
  exact hall base hbase d hd

/-- A character of a range is known by its place in the range. -/
lemma exists_place {first last c : Char} (h : first ≤ c ∧ c ≤ last) :
    ∃ k ≤ last.toNat - first.toNat,
      c.toNat = first.toNat + k ∧ c = Char.ofNat (first.toNat + k) := by
  have hfirst : first.toNat ≤ c.toNat := h.1
  have hlast : c.toNat ≤ last.toNat := h.2
  refine ⟨c.toNat - first.toNat, by omega, by omega, ?_⟩
  rw [Nat.add_sub_cancel' hfirst, Char.ofNat_toNat]

/-- **A character is read as a digit exactly if it spells one.** -/
theorem digit?_eq_some_iff (hbase : base ≤ 16) {c : Char} {d : Nat} :
    digit? base c = some d ↔ Spells base c d := by
  constructor
  · intro h
    -- the code points of digits and letters, counted from the first of each run
    have hchars : (∀ k ≤ 9, Char.ofNat (48 + k) = k.digitChar) ∧
        (∀ k < 6, Char.ofNat (97 + k) = (10 + k).digitChar) ∧
        ∀ k < 6, Char.ofNat (65 + k) = (10 + k).digitChar.toUpper := by decide
    by_cases hdecimal : '0' ≤ c ∧ c ≤ '9'
    · obtain ⟨k, hk, hnat, hc⟩ := exists_place hdecimal
      have hvalue : c.toNat - 48 = k := by rw [hnat]; exact Nat.add_sub_cancel_left 48 k
      simp only [digit?, if_pos hdecimal, hvalue, Option.ite_none_right_eq_some,
        Option.some.injEq] at h
      obtain ⟨hlt, rfl⟩ := h
      exact ⟨hlt, .inl (hc.trans (hchars.1 k hk))⟩
    by_cases hlower : 'a' ≤ c ∧ c ≤ 'z'
    · obtain ⟨k, -, hnat, hc⟩ := exists_place hlower
      have hvalue : c.toNat - 87 = 10 + k := by rw [hnat]; show 97 + k - 87 = 10 + k; omega
      simp only [digit?, if_neg hdecimal, if_pos hlower, hvalue, Option.ite_none_right_eq_some,
        Option.some.injEq] at h
      obtain ⟨hlt, rfl⟩ := h
      exact ⟨hlt, .inl (hc.trans (hchars.2.1 k (by omega)))⟩
    by_cases hupper : 'A' ≤ c ∧ c ≤ 'Z'
    · obtain ⟨k, -, hnat, hc⟩ := exists_place hupper
      have hvalue : c.toNat - 55 = 10 + k := by rw [hnat]; show 65 + k - 55 = 10 + k; omega
      simp only [digit?, if_neg hdecimal, if_neg hlower, if_pos hupper, hvalue,
        Option.ite_none_right_eq_some, Option.some.injEq] at h
      obtain ⟨hlt, rfl⟩ := h
      exact ⟨hlt, .inr (hc.trans (hchars.2.2 k (by omega)))⟩
    · simp [digit?, hdecimal, hlower, hupper] at h
  · rintro ⟨hd, rfl | rfl⟩
    · exact (digit?_digitChar hbase hd).1
    · exact (digit?_digitChar hbase hd).2

/-! ### Numerals -/

/-- The characters are digits of a base, and this is the number that has them. -/
def HasDigits (base : Nat) (cs : List Char) (n : Nat) : Prop :=
  ∃ values, List.Forall₂ (Spells base) cs values ∧ n = Nat.ofDigits base values.reverse

/-- The text is a numeral: an optional plus sign and then one or more digits of a base. It denotes
the number that has these digits. -/
def Denotes (base : Nat) (text : String) (n : Nat) : Prop :=
  ∃ sign digits, (sign = [] ∨ sign = ['+']) ∧ digits ≠ [] ∧ text.toList = sign ++ digits ∧
    HasDigits base digits n

lemma valueFrom?_eq_some_iff (hbase : base ≤ 16) {seen n : Nat} {cs : List Char} :
    valueFrom? base seen cs = some n ↔
      ∃ values, List.Forall₂ (Spells base) cs values ∧
        n = values.foldl (fun seen d => seen * base + d) seen := by
  induction cs generalizing seen with
  | nil => simp [valueFrom?, eq_comm]
  | cons c rest ih =>
    simp only [valueFrom?, Option.bind_eq_bind, Option.bind_eq_some_iff, digit?_eq_some_iff hbase,
      ih]
    constructor
    · rintro ⟨d, hd, values, hvalues, rfl⟩
      exact ⟨d :: values, .cons hd hvalues, rfl⟩
    · rintro ⟨values, hvalues, rfl⟩
      obtain ⟨d, rest', hd, hrest, rfl⟩ := List.forall₂_cons_left_iff.1 hvalues
      exact ⟨d, hd, rest', hrest, rfl⟩

/-- **One or more digits are read as the number that has them.** -/
theorem value?_eq_some_iff (hbase : base ≤ 16) {n : Nat} {cs : List Char} :
    value? base cs = some n ↔ cs ≠ [] ∧ HasDigits base cs n := by
  have hfold (values : List Nat) :
      values.foldl (fun seen d => seen * base + d) 0 = Nat.ofDigits base values.reverse := by
    rw [Nat.ofDigits_eq_foldr, List.foldr_reverse]
    congr 1
    funext seen d
    rw [Nat.add_comm, Nat.mul_comm]
    rfl
  rw [value?]
  split
  · next hnil => simp [hnil]
  · next hne =>
    rw [valueFrom?_eq_some_iff hbase]
    simp [HasDigits, hne, hfold]

lemma not_spells_plus (hbase : base ≤ 16) (d : Nat) : ¬ Spells base '+' d := by
  rintro ⟨hd, hchar⟩
  have hall : ∀ d < 16, '+' ≠ d.digitChar ∧ '+' ≠ d.digitChar.toUpper := by decide
  obtain ⟨hlower, hupper⟩ := hall d (Nat.lt_of_lt_of_le hd hbase)
  exact hchar.elim hlower hupper

/-- Digits are left as they are when a sign is taken away. -/
lemma digits_of_hasDigits (hbase : base ≤ 16) {cs : List Char} {n : Nat}
    (h : HasDigits base cs n) : digits cs = cs := by
  obtain ⟨values, hvalues, -⟩ := h
  unfold digits
  split
  · next rest =>
    obtain ⟨d, -, hplus, -⟩ := List.forall₂_cons_left_iff.1 hvalues
    exact absurd hplus (not_spells_plus hbase d)
  · rfl

/-- The digits of a numeral are what is left without its sign. -/
lemma hasDigits_digits_iff (hbase : base ≤ 16) {text : String} {n : Nat} :
    digits text.toList ≠ [] ∧ HasDigits base (digits text.toList) n ↔ Denotes base text n := by
  constructor
  · rintro ⟨hne, hdigits⟩
    have hsign : ∃ sign, (sign = [] ∨ sign = ['+']) ∧
        text.toList = sign ++ digits text.toList := by
      unfold digits
      split
      · next rest hplus => exact ⟨['+'], .inr rfl, hplus⟩
      · exact ⟨[], .inl rfl, rfl⟩
    obtain ⟨sign, hsign, htext⟩ := hsign
    exact ⟨sign, _, hsign, hne, htext, hdigits⟩
  · rintro ⟨sign, ds, rfl | rfl, hne, htext, hdigits⟩
    · rw [htext, List.nil_append, digits_of_hasDigits hbase hdigits]
      exact ⟨hne, hdigits⟩
    · rw [htext]
      exact ⟨hne, hdigits⟩

/-- **A text is read as a number exactly if it denotes that number**, and the number is below the
limit. -/
theorem parse?_eq_some_iff (hbase : base ≤ 16) {limit n : Nat} {text : String} :
    parse? base limit text = some n ↔ Denotes base text n ∧ n < limit := by
  rw [← hasDigits_digits_iff hbase, ← value?_eq_some_iff hbase, parse?]
  cases value? base (digits text.toList) with
  | none => simp
  | some v =>
    simp only [Option.bind_eq_bind, Option.bind_some, Option.ite_none_right_eq_some,
      Option.some.injEq]
    constructor
    · rintro ⟨hlt, rfl⟩
      exact ⟨rfl, hlt⟩
    · rintro ⟨rfl, hlt⟩
      exact ⟨hlt, rfl⟩

/-! ### Writing numerals -/

lemma HasDigits.snoc {cs : List Char} {n : Nat} (h : HasDigits base cs n) {c : Char} {d : Nat}
    (hc : Spells base c d) : HasDigits base (cs ++ [c]) (n * base + d) := by
  obtain ⟨values, hvalues, rfl⟩ := h
  refine ⟨values ++ [d], List.rel_append hvalues (.cons hc .nil), ?_⟩
  rw [List.reverse_append, List.reverse_singleton, List.singleton_append, Nat.ofDigits_cons,
    Nat.mul_comm, Nat.add_comm]

/-- **Every number has its digits.** -/
theorem hasDigits_toDigits (hbase : 1 < base) (n : Nat) :
    HasDigits base (Nat.toDigits base n) n := by
  induction n using Nat.strong_induction_on with
  | _ n ih =>
    rw [Nat.toDigits_eq_if hbase]
    split
    · next hn =>
      refine ⟨[n], .cons ⟨hn, .inl rfl⟩ .nil, ?_⟩
      rw [List.reverse_singleton, Nat.ofDigits_singleton]
    · next hn =>
      have hlast : n % base < base := Nat.mod_lt n (by omega)
      have hrest : n / base < n := Nat.div_lt_self (by omega) hbase
      have hsnoc := (ih (n / base) hrest).snoc (c := (n % base).digitChar) ⟨hlast, .inl rfl⟩
      rwa [Nat.div_add_mod'] at hsnoc

lemma denotes_toDigits (hbase : 1 < base) (n : Nat) :
    Denotes base (String.ofList (Nat.toDigits base n)) n :=
  ⟨[], _, .inl rfl, Nat.toDigits_ne_nil, String.toList_ofList, hasDigits_toDigits hbase n⟩

/-- **Every number is denoted by its decimal digits.** -/
theorem denotes_toString (n : Nat) : Denotes 10 (toString n) n := by
  rw [Nat.toString_eq_repr, Nat.repr_eq_ofList_toDigits]
  exact denotes_toDigits (by decide) n

end Chip8.Numeral
