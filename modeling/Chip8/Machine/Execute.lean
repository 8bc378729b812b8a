import Chip8.Instruction
import Chip8.Machine
import Chip8.Sprite

/-!
# Execution

`Instruction.apply` says what each instruction does to a machine whose program counter already
stands past it, or which fault it raises: an instruction has its whole effect or none.
`Machine.execute` adds the two rules that hold for all of them: a machine with a latched fault
does not move, and a fault is latched with the word that raised it.
-/

set_option autoImplicit false

namespace Chip8

/-- The key that a byte numbers: its low digit counts. -/
def keyNumber (b : UInt8) : Nibble := ⟨b.toNat % 16, Nat.mod_lt _ (by decide)⟩

namespace Machine

/-- Whether a skip is taken. -/
def holds (m : Machine) : Condition → Bool
  | .is x b => m.reg x == b
  | .isNot x b => m.reg x != b
  | .same x y => m.reg x == m.reg y
  | .differ x y => m.reg x != m.reg y
  | .keyDown x => m.keypad.get (keyNumber (m.reg x))
  | .keyUp x => !m.keypad.get (keyNumber (m.reg x))

/-- Writes the value of an operation to `VX` and after it the flag, which wins if `VX` is the
flag register. -/
def writeOutcome (m : Machine) (x : Nibble) (r : AluOutcome) : Machine :=
  match r.flag with
  | some f => (m.setReg x r.value).setFlag f
  | none => m.setReg x r.value

/-- Draws a sprite of `n` rows from the index and flags whether it turned a pixel off. -/
def draw (m : Machine) (x y n : Nibble) : Machine :=
  let sprite := Sprite.mask m.dialect.clipSprites ((m.reg x).toNat % screenWidth)
    ((m.reg y).toNat % screenHeight) (m.memory.slice m.base n)
  { m with screen := m.screen.xor sprite }.setFlag (m.screen.meets sprite)

/-- Waits for a key: stores the number of a key that has gone down since the last completed
step, and without one goes back to the same instruction. -/
def waitKey (m : Machine) (x : Nibble) : Machine :=
  match Keypad.firstPress? m.lastKeypad m.keypad with
  | some k => m.setReg x (UInt8.ofNat k)
  | none => { m with pc := m.pc - 2 }

/-- Stores bytes from the index on. -/
def writeMemory (m : Machine) (bytes : List UInt8) : Machine :=
  { m with memory := m.memory.write m.base bytes }

/-- Moves the index past a transfer of `count` bytes, in dialects that do so. -/
def moveIndex (m : Machine) (count : Nat) : Machine :=
  if m.dialect.transferMovesIndex then { m with index := m.index + UInt16.ofNat count } else m

/-- The registers with the first ones replaced by `bytes`. -/
def loadRegisters (v : Registers) (bytes : List UInt8) : Registers :=
  Vector.ofFn fun k => bytes.getD k v[k]

/-- The machine `result`, provided that `count` bytes from the index of `m` lie inside memory. -/
def within (m result : Machine) (count : Nat) : Except Fault Machine :=
  if Memory.fits m.base count then .ok result else .error .memory

end Machine

/-- The decimal digits of a byte, hundreds first. -/
def decimalDigits (b : UInt8) : List UInt8 := [b / 100, b / 10 % 10, b % 10]

namespace Instruction

/-- The effect of an instruction on a machine whose program counter stands past it. -/
def apply (m : Machine) : Instruction → Except Fault Machine
  | clear => .ok { m with screen := .blank }
  | ret =>
    let p := m.stack.pop
    if p.underflow then .error .stackUnderflow else .ok { m with stack := p.rest, pc := p.address }
  | jump target => .ok { m with pc := target }
  | call target =>
    match m.stack.push? m.pc with
    | some stack => .ok { m with stack := stack, pc := target }
    | none => .error .stackOverflow
  | skip c => .ok (if m.holds c then { m with pc := m.pc + 2 } else m)
  | set x b => .ok (m.setReg x b)
  | add x b => .ok (m.setReg x (m.reg x + b))
  | alu op x y => .ok (m.writeOutcome x (op.outcome m.dialect (m.reg x) (m.reg y)))
  | setIndex target => .ok { m with index := target }
  | jumpOffset x target =>
    let offset := m.reg (if m.dialect.jumpReadsVX then x else offsetRegister)
    .ok { m with pc := target + offset.toUInt16 }
  | random x mask => .ok { m.setReg x (m.rng.byte &&& mask) with rng := m.rng.next }
  | draw x y n => m.within (m.draw x y n) n
  | getDelay x => .ok (m.setReg x m.delayTimer)
  | waitKey x => .ok (m.waitKey x)
  | setDelay x => .ok { m with delayTimer := m.reg x }
  | setSound x => .ok { m with soundTimer := m.reg x }
  | addIndex x => .ok { m with index := m.index + (m.reg x).toUInt16 }
  | glyph x => .ok { m with index := Font.address (m.reg x) }
  | decimal x => m.within (m.writeMemory (decimalDigits (m.reg x))) 3
  | store x => m.within ((m.writeMemory (m.v.toList.take (x + 1))).moveIndex (x + 1)) (x + 1)
  | load x =>
    m.within ({ m with v := Machine.loadRegisters m.v (m.memory.slice m.base (x + 1)) }.moveIndex
      (x + 1)) (x + 1)

end Instruction

namespace Machine

/-- The effect of a word, or the fault that it raises. -/
def attempt (m : Machine) (w : Word) : Except Fault Machine :=
  match Instruction.decode w with
  | some i => i.apply m
  | none => .error .decode

/-- Executes a word on a machine whose program counter stands past it. A machine with a latched
fault stays as it is, and a word that faults changes nothing but the latch. -/
def execute (m : Machine) (w : Word) : Machine :=
  if m.faulted then m
  else
    match m.attempt w with
    | .ok result => result
    | .error f => m.trip f w

/-- Executes the word in the low sixteen bits of an integer. -/
def executeInt (m : Machine) (n : Int) : Machine := m.execute (Word.ofInt n)

end Machine

end Chip8
