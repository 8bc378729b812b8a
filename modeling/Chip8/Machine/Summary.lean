import Chip8.Machine

/-!
# Summaries

What a session reports about a machine at its end.
-/

set_option autoImplicit false

namespace Chip8

/-- The reported part of a machine's state, with addresses and registers in hexadecimal. -/
structure Summary where
  pc : String
  index : String
  registers : String
  stackDepth : Nat
  delayTimer : Nat
  soundTimer : Nat
  litPixels : Nat
deriving DecidableEq, Repr

/-- The summary of a machine. -/
def Machine.summary (m : Machine) : Summary where
  pc := "0x" ++ Text.hex 3 m.pc.toNat
  index := "0x" ++ Text.hex 3 m.index.toNat
  registers := " ".intercalate (m.v.toList.map fun b => Text.hex 2 b.toNat)
  stackDepth := m.stack.pointer.toNat
  delayTimer := m.delayTimer.toNat
  soundTimer := m.soundTimer.toNat
  litPixels := m.screen.litCount

end Chip8
