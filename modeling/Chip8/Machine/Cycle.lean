import Chip8.Machine.Execute

/-!
# Cycles and frames

A step fetches a word, moves the program counter past it and executes it. If that faults, the
step latches the fault and leaves all else as it was, so the program counter still stands at
the offending word; if not, the step remembers the keypad. A frame is a number of steps and
one tick of the timers. Runs are iterated steps, and a halted machine is never advanced by one.
-/

set_option autoImplicit false

namespace Chip8.Machine

/-- The last address at which a whole word lies inside memory. -/
abbrev lastWord : Nat := memorySize - 2

/-- The word at the program counter, and the machine with the program counter moved past it. -/
def fetch (m : Machine) : Word × Machine :=
  (m.memory.word m.pc, { m with pc := m.pc + 2 })

/-- Fetches and executes one word. -/
def step (m : Machine) : Machine :=
  if m.faulted then m
  else if m.pc.toNat ≤ lastWord then
    match m.fetch.2.attempt m.fetch.1 with
    | .ok result => { result with lastKeypad := result.keypad }
    | .error f => m.trip f m.fetch.1
  else m.trip .memory 0

/-- Makes `n` steps. -/
def run (m : Machine) : Nat → Machine
  | 0 => m
  | n + 1 => m.step.run n

/-- Counts both timers down by one; a timer stops at zero. -/
def tick (m : Machine) : Machine :=
  { m with
    delayTimer := if m.delayTimer = 0 then 0 else m.delayTimer - 1
    soundTimer := if m.soundTimer = 0 then 0 else m.soundTimer - 1 }

/-- Runs one frame of `k` steps. -/
def runFrame (m : Machine) (k : Nat) : Machine := (m.run k).tick

/-- Runs `n` frames of `k` steps each. -/
def runFrames (m : Machine) (n k : Nat) : Machine :=
  match n with
  | 0 => m
  | n + 1 => (m.runFrame k).runFrames n k

end Chip8.Machine
