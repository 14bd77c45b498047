/-!
The sizes and places of the CHIP-8 machine.

Addresses, lengths and coordinates are natural numbers; only what a program
holds in the machine itself (bytes, words, addresses on the return stack) has a
fixed width.
-/

namespace Chip8

/-! ### Memory -/

/-- The number of bytes that can be addressed. -/
abbrev memorySize : Nat := 4096

/-- The largest address. -/
abbrev lastAddress : Nat := 4095

/-- The address at which a program is stored and at which it starts. -/
abbrev programStart : Nat := 512

/-- The most bytes that a program may have. -/
abbrev programCapacity : Nat := 3584

theorem programCapacity_add : programStart + programCapacity = memorySize := rfl

/-! ### Registers and return stack -/

/-- The number of registers, `V0` to `VF`. -/
abbrev registerCount : Nat := 16

/-- There is a register, so numerals name registers. -/
instance : @NeZero Nat Zero.ofOfNat0 registerCount :=
  Nat.instNeZeroSucc

/-- The register that receives carries, borrows and collisions. -/
abbrev flagRegister : Fin registerCount := 15

/-- The number of return addresses that can be pending. -/
abbrev stackCapacity : Nat := 16

/-! ### Screen -/

/-- Pixels in a row of the screen. -/
abbrev screenWidth : Nat := 64

/-- Rows of the screen. -/
abbrev screenHeight : Nat := 32

/-- Pixels of the screen. -/
abbrev pixelCount : Nat := 2048

/-- Pixels in a row of a sprite: one for each bit of a byte. -/
abbrev spriteWidth : Nat := 8

/-! ### Time -/

/-- How often the timers count down, per second. -/
abbrev tickRate : Nat := 60

/-- Nanoseconds in a second. -/
abbrev nanosPerSecond : Nat := 1000000000

/-- Nanoseconds between two ticks, rounded down. -/
abbrev nanosPerTick : Nat := nanosPerSecond / tickRate

end Chip8
