/-!
# Words and their fields

An instruction is a sixteen-bit word, written as four hexadecimal digits. This file names the
parts that instructions are read by: single digits (a family, register numbers), the low byte
and the low twelve bits (an address). `Fields.ofInt` reads the same parts of any integer
through the low sixteen bits of its two's complement form.
-/

set_option autoImplicit false

namespace Chip8

/-- One hexadecimal digit of a word; also a register number or the number of a key. -/
abbrev Nibble := Fin 16

/-- An instruction word. -/
abbrev Word := UInt16

namespace Word

/-- The low sixteen bits of an integer, in two's complement. -/
def ofInt (n : Int) : Word := UInt16.ofInt n

/-- Digit `i` of a word, counted from the right. -/
def nibble (w : Word) (i : Nat) : Nibble :=
  ⟨(w.toNat >>> (4 * i)) % 16, Nat.mod_lt _ (by decide)⟩

/-- The low byte of a word. -/
def low (w : Word) : UInt8 := w.toUInt8

/-- The low twelve bits of a word. -/
def address (w : Word) : UInt16 := w &&& 0xFFF

/-- The word whose bytes are `high` and `low`. -/
def ofBytes (high low : UInt8) : Word := high.toUInt16 <<< 8 ||| low.toUInt16

end Word

/-- The parts of a word that instructions are read by. -/
structure Fields where
  /-- The first digit, which names the family. -/
  opcode : Nibble
  /-- The second digit, as a rule a register. -/
  x : Nibble
  /-- The third digit, as a rule a register. -/
  y : Nibble
  /-- The last digit. -/
  n : Nibble
  /-- The last two digits. -/
  nn : UInt8
  /-- The last three digits. -/
  nnn : UInt16
deriving DecidableEq, Repr

namespace Fields

/-- The fields of a word. -/
def ofWord (w : Word) : Fields where
  opcode := w.nibble 3
  x := w.nibble 2
  y := w.nibble 1
  n := w.nibble 0
  nn := w.low
  nnn := w.address

/-- The fields of any integer: only its low sixteen bits count. -/
def ofInt (n : Int) : Fields := ofWord (Word.ofInt n)

end Fields

end Chip8
