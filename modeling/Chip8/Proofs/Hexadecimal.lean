import Mathlib.Algebra.Group.Nat.Defs
import Mathlib.Tactic.Common
import Chip8.Memory
import Chip8.Text.Numeral

/-!
Hexadecimal text and the numbers that it stands for.

The text of a number in a fixed width is the text of its higher digits followed by that of its
lower digits, so a word is written as its two bytes are. Reading the text as a numeral gives the
number back, or what is left of it if the width is too small.

* `fixed_add`, `word_wordOf`: texts side by side;
* `valueFrom?_fixed`, `value?_address`: reading a text back;
* `fixed_eq_leftpad`: padding puts zeros in front of the digits of the number.
-/

namespace Chip8

namespace Hex

/-! ### Digits -/

lemma digit?_digit {k : Nat} (hk : k < 16) : Numeral.digit? 16 (digit k) = some k := by
  have hall : ∀ k < 16, Numeral.digit? 16 (digit k) = some k := by decide
  exact hall k hk

lemma toUpper_digitChar {k : Nat} (hk : k < 16) : k.digitChar.toUpper = digit k := by
  have hall : ∀ k < 16, k.digitChar.toUpper = digit k := by decide
  exact hall k hk

/-- What holds of the sixteen digits holds of every character of a text. -/
lemma forall_mem_fixed {P : Char → Prop} (h : ∀ k < 16, P (digit k)) (w n : Nat) :
    ∀ c ∈ fixed w n, P c := by
  induction w generalizing n with
  | zero => simp [fixed]
  | succ w ih =>
    rw [fixed, List.forall_mem_append, List.forall_mem_singleton]
    exact ⟨ih _, h _ (Nat.mod_lt _ (by decide))⟩

lemma not_mem_fixed {c : Char} (h : ∀ k < 16, digit k ≠ c) (w n : Nat) : c ∉ fixed w n :=
  fun hc => forall_mem_fixed (P := (· ≠ c)) h w n c hc rfl

/-! ### Texts side by side -/

lemma fixed_add (v w n : Nat) : fixed (v + w) n = fixed v (n / 16 ^ w) ++ fixed w n := by
  induction w generalizing n with
  | zero => simp [fixed]
  | succ w ih =>
    rw [Nat.add_succ, fixed, ih, fixed, Nat.div_div_eq_div_mul, List.append_assoc, Nat.pow_succ']

/-- The digits beyond the width make no difference. -/
lemma fixed_mul_add (w a n : Nat) : fixed w (a * 16 ^ w + n) = fixed w n := by
  induction w generalizing n with
  | zero => rfl
  | succ w ih =>
    have hshift : a * 16 ^ (w + 1) = a * 16 ^ w * 16 := by
      rw [Nat.pow_succ, Nat.mul_assoc]
    have hdiv : (a * 16 ^ (w + 1) + n) / 16 = a * 16 ^ w + n / 16 := by
      rw [hshift]
      omega
    have hmod : (a * 16 ^ (w + 1) + n) % 16 = n % 16 := by
      rw [hshift]
      omega
    rw [fixed, fixed, hdiv, hmod, ih]

lemma word_wordOf (high low : UInt8) :
    word (Memory.wordOf high low) = byte high ++ byte low := by
  have hlow : low.toNat < 256 := low.toNat_lt
  have hdiv : (high.toNat * 256 + low.toNat) / 16 ^ 2 = high.toNat := by omega
  have hrest : fixed 2 (high.toNat * 256 + low.toNat) = fixed 2 low.toNat :=
    fixed_mul_add 2 high.toNat low.toNat
  rw [word, Memory.toNat_wordOf, fixed_add 2 2, hdiv, hrest, String.ofList_append]
  rfl

/-! ### Reading back -/

end Hex

namespace Numeral

lemma valueFrom?_append (base seen : Nat) (first rest : List Char) :
    valueFrom? base seen (first ++ rest) =
      (valueFrom? base seen first).bind (valueFrom? base · rest) := by
  induction first generalizing seen with
  | nil => rfl
  | cons c first ih =>
    rw [List.cons_append, valueFrom?, valueFrom?]
    cases digit? base c with
    | none => rfl
    | some d => exact ih _

end Numeral

namespace Hex

/-- The text of a width is read as what the number leaves in that many digits. -/
lemma valueFrom?_fixed (seen w n : Nat) :
    Numeral.valueFrom? 16 seen (fixed w n) = some (seen * 16 ^ w + n % 16 ^ w) := by
  induction w generalizing n with
  | zero => simp [fixed, Numeral.valueFrom?, Nat.mod_one]
  | succ w ih =>
    have hlast : n % 16 < 16 := Nat.mod_lt n (by decide)
    have hsplit : n % 16 ^ (w + 1) = n / 16 % 16 ^ w * 16 + n % 16 := by
      rw [Nat.pow_succ', Nat.mod_mul]
      omega
    rw [fixed, Numeral.valueFrom?_append, ih]
    simp only [Option.bind_some, Numeral.valueFrom?, digit?_digit hlast, Option.bind_eq_bind]
    rw [hsplit, Nat.pow_succ, Nat.add_mul]
    congr 1
    rw [Nat.mul_assoc]
    omega

lemma value?_fixed {w : Nat} (hw : 0 < w) (n : Nat) :
    Numeral.value? 16 (fixed w n) = some (n % 16 ^ w) := by
  have hne : fixed w n ≠ [] := by
    rw [← List.length_pos_iff, length_fixed]
    exact hw
  rw [Numeral.value?, if_neg hne, valueFrom?_fixed]
  simp

lemma value?_word (w : UInt16) : Numeral.value? 16 (word w).toList = some w.toNat := by
  have hw : w.toNat < 16 ^ 4 := w.toNat_lt
  rw [word, String.toList_ofList, value?_fixed (by decide), Nat.mod_eq_of_lt hw]

/-! ### All digits of a number -/

/-- A number fits into as many digits as it has, and into more. -/
lemma width_le_iff {w n : Nat} (hw : 0 < w) : width n ≤ w ↔ n < 16 ^ w := by
  rcases Nat.eq_zero_or_pos n with rfl | hn
  · have hwidth : width 0 = 1 := rfl
    rw [hwidth]
    exact ⟨fun _ => Nat.pow_pos (by decide), fun _ => hw⟩
  · have hlog := Nat.log2_lt (k := 4 * w) (Nat.ne_of_gt hn)
    rw [Nat.pow_mul] at hlog
    rw [show (16 : Nat) ^ w = (2 ^ 4) ^ w from rfl, ← hlog, width]
    omega

lemma lt_pow_width (n : Nat) : n < 16 ^ width n :=
  (width_le_iff (Nat.succ_pos _)).1 (Nat.le_refl _)

lemma value?_address (a : Nat) : Numeral.value? 16 (address a).toList = some a := by
  have hpow : 16 ^ width a ≤ 16 ^ max 4 (width a) :=
    Nat.pow_le_pow_right (by decide) (Nat.le_max_right ..)
  rw [address, String.toList_ofList, padded, value?_fixed (by omega),
    Nat.mod_eq_of_lt (Nat.lt_of_lt_of_le (lt_pow_width a) hpow)]

/-- An address below the end of the words is written like a word. -/
lemma address_toNat (w : UInt16) : address w.toNat = word w := by
  have hw : w.toNat < 16 ^ 4 := w.toNat_lt
  rw [address, word, padded, Nat.max_eq_left ((width_le_iff (by decide)).2 hw)]

/-- The text of a number that fits is that of its digits with zeros in front. -/
lemma fixed_eq_leftpad {w n : Nat} (hw : 0 < w) (h : n < 16 ^ w) :
    fixed w n = ((Nat.toDigits 16 n).map Char.toUpper).leftpad w '0' := by
  induction w generalizing n with
  | zero => exact absurd hw (Nat.lt_irrefl 0)
  | succ w ih =>
    have hlast : n % 16 < 16 := Nat.mod_lt n (by decide)
    -- the last digit is the same on both sides; what is left of the number decides about the rest
    rw [fixed, Nat.toDigits_eq_if (by decide)]
    split
    · next hn =>
      have hzeros : ∀ v, fixed v 0 = List.replicate v '0' := fun v => by
        induction v with
        | zero => rfl
        | succ v ihv => rw [fixed, List.replicate_succ', ihv]; rfl
      rw [Nat.div_eq_of_lt hn, Nat.mod_eq_of_lt hn, hzeros]
      simp [List.leftpad, toUpper_digitChar hn]
    · next hn =>
      have hrest : n / 16 < 16 ^ w := by
        rw [Nat.pow_succ] at h
        exact Nat.div_lt_of_lt_mul (by omega)
      have hpos : 0 < w := by
        rcases Nat.eq_zero_or_pos w with rfl | hw
        · simp at h
          omega
        · exact hw
      rw [ih hpos hrest, List.map_append, List.map_singleton, toUpper_digitChar hlast]
      simp [List.leftpad, List.append_assoc]

/-- **An address has at least four digits**: those of the number, with zeros in front if they
are fewer. -/
theorem toList_address (a : Nat) :
    (address a).toList = ((Nat.toDigits 16 a).map Char.toUpper).leftpad 4 '0' := by
  have hlength : (Nat.toDigits 16 a).length = width a := by
    refine Nat.le_antisymm ?_ ?_
    · exact (Nat.length_toDigits_le_iff (by decide) (Nat.succ_pos _)).2 (lt_pow_width a)
    · refine (width_le_iff Nat.length_toDigits_pos).2 ?_
      exact (Nat.length_toDigits_le_iff (by decide) Nat.length_toDigits_pos).1 (Nat.le_refl _)
  have hpow : 16 ^ width a ≤ 16 ^ max 4 (width a) :=
    Nat.pow_le_pow_right (by decide) (Nat.le_max_right ..)
  rw [address, String.toList_ofList, padded,
    fixed_eq_leftpad (by omega) (Nat.lt_of_lt_of_le (lt_pow_width a) hpow), List.leftpad,
    List.leftpad, List.length_map, hlength]
  congr 2
  omega

end Hex

end Chip8
