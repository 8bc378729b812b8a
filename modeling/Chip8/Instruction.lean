import Chip8.Word
import Chip8.Alu

/-!
# Instructions

`decode` reads a word as one of thirty-five instructions. The first digit names a family; four
families (`0NNN`, `8XYN`, `EXNN`, `FXNN`) are told apart by further digits, and `5XY0` and
`9XY0` ask for a last digit of zero. A word outside the table names no instruction.
-/

set_option autoImplicit false

namespace Chip8

/-- What a skip instruction asks before it steps over the next instruction. -/
inductive Condition where
  /-- `VX` equals a byte. -/
  | is (x : Nibble) (b : UInt8)
  /-- `VX` differs from a byte. -/
  | isNot (x : Nibble) (b : UInt8)
  /-- `VX` equals `VY`. -/
  | same (x y : Nibble)
  /-- `VX` differs from `VY`. -/
  | differ (x y : Nibble)
  /-- The key that `VX` numbers is down. -/
  | keyDown (x : Nibble)
  /-- The key that `VX` numbers is up. -/
  | keyUp (x : Nibble)
deriving DecidableEq, Repr

/-- The instructions of the machine. -/
inductive Instruction where
  /-- `00E0`: turns every pixel off. -/
  | clear
  /-- `00EE`: returns from a subroutine. -/
  | ret
  /-- `1NNN`: jumps. -/
  | jump (target : UInt16)
  /-- `2NNN`: calls a subroutine. -/
  | call (target : UInt16)
  /-- `3XNN`, `4XNN`, `5XY0`, `9XY0`, `EX9E`, `EXA1`: steps over the next instruction if a
  condition holds. -/
  | skip (condition : Condition)
  /-- `6XNN`: sets `VX`. -/
  | set (x : Nibble) (b : UInt8)
  /-- `7XNN`: adds to `VX`, without a flag. -/
  | add (x : Nibble) (b : UInt8)
  /-- `8XYN`: combines `VX` and `VY`. -/
  | alu (op : AluOp) (x y : Nibble)
  /-- `ANNN`: sets the index. -/
  | setIndex (target : UInt16)
  /-- `BNNN`: jumps relative to a register. -/
  | jumpOffset (x : Nibble) (target : UInt16)
  /-- `CXNN`: sets `VX` to a random byte under a mask. -/
  | random (x : Nibble) (mask : UInt8)
  /-- `DXYN`: draws a sprite of `n` rows at column `VX` and row `VY`. -/
  | draw (x y n : Nibble)
  /-- `FX07`: reads the delay timer. -/
  | getDelay (x : Nibble)
  /-- `FX0A`: waits for a key to go down. -/
  | waitKey (x : Nibble)
  /-- `FX15`: sets the delay timer. -/
  | setDelay (x : Nibble)
  /-- `FX18`: sets the sound timer. -/
  | setSound (x : Nibble)
  /-- `FX1E`: adds `VX` to the index. -/
  | addIndex (x : Nibble)
  /-- `FX29`: points the index at the glyph of a digit. -/
  | glyph (x : Nibble)
  /-- `FX33`: stores the three decimal digits of `VX`. -/
  | decimal (x : Nibble)
  /-- `FX55`: stores the registers up to `VX`. -/
  | store (x : Nibble)
  /-- `FX65`: loads the registers up to `VX`. -/
  | load (x : Nibble)
deriving DecidableEq, Repr

namespace Instruction

/-- The family `0NNN`: only `00E0` and `00EE` exist. -/
def system? (f : Fields) : Option Instruction :=
  if f.x.val = 0 then
    match f.nn.toNat with
    | 0xE0 => some clear
    | 0xEE => some ret
    | _ => none
  else none

/-- The family `EXNN`. -/
def keys? (f : Fields) : Option Instruction :=
  match f.nn.toNat with
  | 0x9E => some (skip (.keyDown f.x))
  | 0xA1 => some (skip (.keyUp f.x))
  | _ => none

/-- The family `FXNN`. -/
def misc? (f : Fields) : Option Instruction :=
  match f.nn.toNat with
  | 0x07 => some (getDelay f.x)
  | 0x0A => some (waitKey f.x)
  | 0x15 => some (setDelay f.x)
  | 0x18 => some (setSound f.x)
  | 0x1E => some (addIndex f.x)
  | 0x29 => some (glyph f.x)
  | 0x33 => some (decimal f.x)
  | 0x55 => some (store f.x)
  | 0x65 => some (load f.x)
  | _ => none

/-- The instruction that the fields of a word name, if any. -/
def ofFields? (f : Fields) : Option Instruction :=
  match f.opcode.val with
  | 0x0 => system? f
  | 0x1 => some (jump f.nnn)
  | 0x2 => some (call f.nnn)
  | 0x3 => some (skip (.is f.x f.nn))
  | 0x4 => some (skip (.isNot f.x f.nn))
  | 0x5 => if f.n.val = 0 then some (skip (.same f.x f.y)) else none
  | 0x6 => some (set f.x f.nn)
  | 0x7 => some (add f.x f.nn)
  | 0x8 => (AluOp.ofNibble? f.n).map fun op => alu op f.x f.y
  | 0x9 => if f.n.val = 0 then some (skip (.differ f.x f.y)) else none
  | 0xA => some (setIndex f.nnn)
  | 0xB => some (jumpOffset f.x f.nnn)
  | 0xC => some (random f.x f.nn)
  | 0xD => some (draw f.x f.y f.n)
  | 0xE => keys? f
  | _ => misc? f

/-- The instruction that a word names, if any. -/
def decode (w : Word) : Option Instruction := ofFields? (Fields.ofWord w)

end Instruction

end Chip8
