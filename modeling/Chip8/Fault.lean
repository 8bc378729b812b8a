import Chip8.Word
import Chip8.Text.Hex

/-!
# Faults

An instruction that cannot be carried out raises one of four faults. The machine latches the
fault as a code next to the word that raised it; `Fault.Report` is what a host reads from the
latch. The latch is a byte and may be set from outside to a code that no fault has.
-/

set_option autoImplicit false

namespace Chip8

/-- Why an instruction cannot be carried out. -/
inductive Fault where
  /-- The word names no instruction. -/
  | decode
  /-- A call with a full stack. -/
  | stackOverflow
  /-- A return with an empty stack. -/
  | stackUnderflow
  /-- A fetch, or an access through the index, past the end of memory. -/
  | memory
deriving DecidableEq, Repr

namespace Fault

/-- The code that the latch holds for a fault; zero stands for none. -/
def code : Fault → UInt8
  | decode => 1
  | stackOverflow => 2
  | stackUnderflow => 3
  | memory => 4

/-- The fault of a code. -/
def ofCode? (c : UInt8) : Option Fault :=
  match c.toNat with
  | 1 => some decode
  | 2 => some stackOverflow
  | 3 => some stackUnderflow
  | 4 => some memory
  | _ => none

/-- The name of a fault in reports. -/
def name : Fault → String
  | decode => "DecodeFault"
  | stackOverflow => "StackOverflowFault"
  | stackUnderflow => "StackUnderflowFault"
  | memory => "MemoryFault"

/-- A fault in words. -/
def describe : Fault → String
  | decode => "unknown opcode"
  | stackOverflow => "call with full stack"
  | stackUnderflow => "return with empty stack"
  | memory => "memory access out of bounds"

/-- A latched fault: its code, where the machine stopped and the word that raised it. -/
structure Report where
  code : UInt8
  pc : UInt16
  word : Word
deriving DecidableEq, Repr

namespace Report

/-- The fault reported, unless the code is one that no fault has. -/
def fault? (r : Report) : Option Fault := ofCode? r.code

/-- The name under which a report appears in a log. -/
def name (r : Report) : String :=
  match r.fault? with
  | some f => f.name
  | none => "EmulatorFault"

/-- The text of a report. -/
def message (r : Report) : String :=
  let cause := match r.fault? with
    | some f => f.describe
    | none => "fault code " ++ toString r.code.toNat
  cause ++ " (opcode 0x" ++ Text.hex 4 r.word.toNat ++ " at pc 0x" ++ Text.hex 3 r.pc.toNat ++ ")"

end Report

end Fault

end Chip8
