import Chip8.Memory

/-!
# The font

Sixteen glyphs, one for each hexadecimal digit, five rows of eight pixels each. They stand in
memory from `0x50` on, digit after digit.
-/

set_option autoImplicit false

namespace Chip8.Font

/-- The address of the glyph of the digit zero. -/
abbrev start : Nat := 0x50

/-- The number of rows, and so of bytes, of a glyph. -/
abbrev glyphSize : Nat := 5

/-- The rows of the sixteen glyphs. -/
def glyphs : List (List UInt8) :=
  [[0xF0, 0x90, 0x90, 0x90, 0xF0],
   [0x20, 0x60, 0x20, 0x20, 0x70],
   [0xF0, 0x10, 0xF0, 0x80, 0xF0],
   [0xF0, 0x10, 0xF0, 0x10, 0xF0],
   [0x90, 0x90, 0xF0, 0x10, 0x10],
   [0xF0, 0x80, 0xF0, 0x10, 0xF0],
   [0xF0, 0x80, 0xF0, 0x90, 0xF0],
   [0xF0, 0x10, 0x20, 0x40, 0x40],
   [0xF0, 0x90, 0xF0, 0x90, 0xF0],
   [0xF0, 0x90, 0xF0, 0x10, 0xF0],
   [0xF0, 0x90, 0xF0, 0x90, 0x90],
   [0xE0, 0x90, 0xE0, 0x90, 0xE0],
   [0xF0, 0x80, 0x80, 0x80, 0xF0],
   [0xE0, 0x90, 0x90, 0x90, 0xE0],
   [0xF0, 0x80, 0xF0, 0x80, 0xF0],
   [0xF0, 0x80, 0xF0, 0x80, 0x80]]

/-- The bytes of the font, as they stand in memory. -/
def bytes : List UInt8 := glyphs.flatten

/-- The address of the glyph of a digit. Values above fifteen give addresses past the font. -/
def address (digit : UInt8) : UInt16 := UInt16.ofNat (start + digit.toNat * glyphSize)

end Chip8.Font
