import Chip8.Word
import Chip8.Dialect

/-!
# Arithmetic and logic

The nine operations of the `8XYN` family. An operation reads both operands before anything is
written and answers with a value and, for some, a flag. `AluOp.outcome` adds the two dialect
switches of the family: which register a shift reads, and whether the logic operations clear
the flag.
-/

set_option autoImplicit false

namespace Chip8

/-- The operations of the `8XYN` family. -/
inductive AluOp where
  | set
  | or
  | and
  | xor
  | add
  /-- `VX - VY`. -/
  | sub
  | shiftRight
  /-- `VY - VX`. -/
  | subFrom
  | shiftLeft
deriving DecidableEq, Repr

/-- What an operation computes: a value for `VX` and, if the operation sets one, a flag. -/
structure AluOutcome where
  value : UInt8
  flag : Option Bool
deriving DecidableEq, Repr

namespace AluOp

/-- The operation that the last digit of an `8XYN` word names. -/
def ofNibble? (n : Nibble) : Option AluOp :=
  match n.val with
  | 0x0 => some set
  | 0x1 => some or
  | 0x2 => some and
  | 0x3 => some xor
  | 0x4 => some add
  | 0x5 => some sub
  | 0x6 => some shiftRight
  | 0x7 => some subFrom
  | 0xE => some shiftLeft
  | _ => none

/-- Whether the operation is a bitwise or, and or exclusive or. -/
def isLogic : AluOp → Bool
  | or | and | xor => true
  | _ => false

/-- Whether the operation is one of the two shifts. -/
def isShift : AluOp → Bool
  | shiftRight | shiftLeft => true
  | _ => false

/-- The operation on two bytes. An addition flags a carry, a subtraction the absence of a
borrow, a shift the bit that it shifts out of its first operand. -/
def apply (op : AluOp) (a b : UInt8) : AluOutcome :=
  match op with
  | set => ⟨b, none⟩
  | or => ⟨a ||| b, none⟩
  | and => ⟨a &&& b, none⟩
  | xor => ⟨a ^^^ b, none⟩
  | add => ⟨a + b, some (decide (255 < a.toNat + b.toNat))⟩
  | sub => ⟨a - b, some (decide (b ≤ a))⟩
  | shiftRight => ⟨a >>> 1, some (a &&& 1 == 1)⟩
  | subFrom => ⟨b - a, some (decide (a ≤ b))⟩
  | shiftLeft => ⟨a <<< 1, some (a &&& 0x80 == 0x80)⟩

/-- The operation on the registers' values `a` (of `VX`) and `b` (of `VY`) under a dialect. -/
def outcome (d : Dialect) (op : AluOp) (a b : UInt8) : AluOutcome :=
  let r := op.apply (if d.shiftReadsVY && op.isShift then b else a) b
  if d.logicClearsFlag && op.isLogic then { r with flag := some false } else r

end AluOp

end Chip8
