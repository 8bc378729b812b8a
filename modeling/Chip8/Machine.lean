import Chip8.Dialect
import Chip8.Memory
import Chip8.Font
import Chip8.CallStack
import Chip8.Screen
import Chip8.Keypad
import Chip8.Random
import Chip8.Fault

/-!
# The machine

The whole state of a machine, its power-on state and the small reads and writes that
instructions are made of. `Machine.trip` is the one way to latch a fault: it leaves every other
field alone.
-/

set_option autoImplicit false

namespace Chip8

/-- The sixteen registers `V0` to `VF`. -/
abbrev Registers := Vector UInt8 16

/-- The register that flags are written to. -/
abbrev flagRegister : Nibble := ⟨15, by decide⟩

/-- The register that jumps with an offset read, in dialects where the word names none. -/
abbrev offsetRegister : Nibble := ⟨0, by decide⟩

/-- Where program images begin. -/
abbrev programStart : Nat := 0x200

/-- The state of a machine. -/
structure Machine where
  /-- The random source. -/
  rng : Random.Key
  memory : Memory
  /-- The address of the next instruction. -/
  pc : UInt16
  screen : Screen
  stack : CallStack
  delayTimer : UInt8
  soundTimer : UInt8
  /-- The keys as the host last set them. -/
  keypad : Keypad
  /-- The keys as they were when the last step was completed. -/
  lastKeypad : Keypad
  /-- The registers. -/
  v : Registers
  /-- The index register. -/
  index : UInt16
  /-- The code of the latched fault; zero while the machine runs. -/
  fault : UInt8
  /-- The word that raised the latched fault. -/
  faultWord : Word
  dialect : Dialect
deriving DecidableEq, Repr

namespace Machine

/-- A machine at power-on: the font is in memory and execution starts where images begin. -/
def powerOn (key : Random.Key) (dialect : Dialect) : Machine where
  rng := key
  memory := Memory.zero.write Font.start Font.bytes
  pc := UInt16.ofNat programStart
  screen := .blank
  stack := .empty
  delayTimer := 0
  soundTimer := 0
  keypad := .released
  lastKeypad := .released
  v := Vector.replicate 16 0
  index := 0
  fault := 0
  faultWord := 0
  dialect := dialect

/-- The power-on state with a new random source. The image has to be loaded again. -/
def reset (m : Machine) (key : Random.Key) : Machine := powerOn key m.dialect

/-- Whether a fault is latched. -/
def faulted (m : Machine) : Bool := m.fault != 0

/-- Latches a fault and the word that raised it. -/
def trip (m : Machine) (f : Fault) (w : Word) : Machine :=
  { m with fault := f.code, faultWord := w }

/-- Clears the latch, so that the machine can be stepped again. -/
def clearFault (m : Machine) : Machine := { m with fault := 0, faultWord := 0 }

/-- What the latch holds, as a report. -/
def faultReport? (m : Machine) : Option Fault.Report :=
  if m.faulted then some ⟨m.fault, m.pc, m.faultWord⟩ else none

/-- The value of a register. -/
def reg (m : Machine) (x : Nibble) : UInt8 := m.v.get x

/-- Sets a register. -/
def setReg (m : Machine) (x : Nibble) (b : UInt8) : Machine :=
  { m with v := m.v.set x.val b x.isLt }

/-- Sets the flag register. -/
def setFlag (m : Machine) (on : Bool) : Machine := m.setReg flagRegister (if on then 1 else 0)

/-- The address that the index stands for: its low twelve bits. -/
def base (m : Machine) : Nat := m.index.toNat % memorySize

/-- Whether the buzzer sounds. -/
def soundActive (m : Machine) : Bool := m.soundTimer > 0

end Machine

end Chip8
