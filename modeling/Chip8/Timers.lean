/-!
The two timers. Both count down once per tick and stop at zero; the buzzer
sounds while the sound timer runs.
-/

namespace Chip8

/-- One less, but never less than zero. -/
def countDown (v : UInt8) : UInt8 :=
  if v = 0 then 0 else v - 1

theorem toNat_countDown (v : UInt8) : (countDown v).toNat = v.toNat - 1 := by
  rw [countDown]
  split
  · next h => subst h; rfl
  · next h =>
    have h0 : v.toNat ≠ 0 := fun h' => h (UInt8.toNat_inj.1 h')
    have h1 : (1 : UInt8) ≤ v := by rw [UInt8.le_iff_toNat_le]; simp; omega
    rw [UInt8.toNat_sub_of_le _ _ h1]
    rfl

/-- The delay timer, which a program can read, and the sound timer. -/
structure Timers where
  delay : UInt8
  sound : UInt8
  deriving DecidableEq, Repr

namespace Timers

/-- Both timers stopped. -/
def stopped : Timers :=
  ⟨0, 0⟩

/-- What a sixtieth of a second does. -/
def tick (t : Timers) : Timers :=
  ⟨countDown t.delay, countDown t.sound⟩

/-- A number of ticks. -/
def ticks : Nat → Timers → Timers
  | 0, t => t
  | n + 1, t => ticks n t.tick

/-- Whether the buzzer sounds. -/
def buzzing (t : Timers) : Bool :=
  t.sound != 0

end Timers

end Chip8
