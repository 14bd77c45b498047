/-!
The built-in font: a glyph of five rows for each hexadecimal digit, most
significant bit leftmost. The glyphs lie one after the other from the start of
memory, so digit `d` is found at `5 * d`.
-/

namespace Chip8.Font

/-- Where the font is stored. -/
abbrev start : Nat := 0

/-- Rows of a glyph. -/
abbrev glyphHeight : Nat := 5

/-- The rows of the sixteen glyphs, `0` to `F`. -/
def bytes : List UInt8 :=
  [0xF0, 0x90, 0x90, 0x90, 0xF0,
   0x20, 0x60, 0x20, 0x20, 0x70,
   0xF0, 0x10, 0xF0, 0x80, 0xF0,
   0xF0, 0x10, 0xF0, 0x10, 0xF0,
   0x90, 0x90, 0xF0, 0x10, 0x10,
   0xF0, 0x80, 0xF0, 0x10, 0xF0,
   0xF0, 0x80, 0xF0, 0x90, 0xF0,
   0xF0, 0x10, 0x20, 0x40, 0x40,
   0xF0, 0x90, 0xF0, 0x90, 0xF0,
   0xF0, 0x90, 0xF0, 0x10, 0xF0,
   0xF0, 0x90, 0xF0, 0x90, 0x90,
   0xE0, 0x90, 0xE0, 0x90, 0xE0,
   0xF0, 0x80, 0x80, 0x80, 0xF0,
   0xE0, 0x90, 0x90, 0x90, 0xE0,
   0xF0, 0x80, 0xF0, 0x80, 0xF0,
   0xF0, 0x80, 0xF0, 0x80, 0x80]

/-- The address of the glyph of a digit, also for values that are no digit. -/
def address (digit : UInt8) : UInt16 :=
  UInt16.ofNat start + digit.toUInt16 * UInt16.ofNat glyphHeight

end Chip8.Font
