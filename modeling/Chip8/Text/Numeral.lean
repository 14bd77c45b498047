/-!
Unsigned numerals as they are given on a command line: an optional plus sign
and then one or more digits of a base, whose value stays below a limit. Nothing
else is accepted: no blanks, no minus sign, no marker for the base, no digit
separators. Leading zeros are fine, in any number.

* `value?`: the value of a run of digits, without a limit;
* `parse?`: the value of a numeral.
-/

namespace Chip8.Numeral

/-- The value of a digit, of either case; only ASCII digits count. -/
def digit? (base : Nat) (c : Char) : Option Nat :=
  let value :=
    if '0' ≤ c ∧ c ≤ '9' then c.toNat - 48
    else if 'a' ≤ c ∧ c ≤ 'z' then c.toNat - 87
    else if 'A' ≤ c ∧ c ≤ 'Z' then c.toNat - 55
    else base
  if value < base then some value else none

/-- The value of a run of digits that follow on digits of value `seen`. -/
def valueFrom? (base seen : Nat) : List Char → Option Nat
  | [] => some seen
  | c :: rest => do
    let d ← digit? base c
    valueFrom? base (seen * base + d) rest

/-- The value of one or more digits. -/
def value? (base : Nat) (digits : List Char) : Option Nat :=
  if digits = [] then none else valueFrom? base 0 digits

/-- The digits of a numeral: what follows a plus sign, if there is one. -/
def digits : List Char → List Char
  | '+' :: rest => rest
  | cs => cs

/-- The value of a numeral below `limit`. -/
def parse? (base limit : Nat) (text : String) : Option Nat := do
  let value ← value? base (digits text.toList)
  if value < limit then some value else none

end Chip8.Numeral
