import Chip8.FileTree
import Chip8.Machine.Watched

/-!
# What a host does with a machine

Loading images, setting keys, and `Command`: the operations of a host as data. A refused
command has no effect, which `Machine.after` makes part of its definition.
-/

set_option autoImplicit false

namespace Chip8

/-- The number of bytes between the start of images and the end of memory. -/
abbrev maxImageSize : Nat := memorySize - programStart

/-- An image that does not fit in memory. -/
structure Oversize where
  /-- The number of bytes of the image. -/
  size : Nat
deriving DecidableEq, Repr

namespace Oversize

/-- The name under which a refused image appears in a log. -/
def name : String := "LoadFault"

/-- The text of the refusal. -/
def message (e : Oversize) : String :=
  "Program image is " ++ toString e.size ++ " bytes; at most " ++ toString maxImageSize ++
    " bytes fit between 0x" ++ Text.hex 3 programStart ++ " and the end of memory"

end Oversize

/-- Why no image is loaded from a file. -/
inductive LoadError where
  | file (e : FileError)
  | size (e : Oversize)
deriving DecidableEq, Repr

/-- The text of a failure to load an image from a file. -/
def LoadError.message : LoadError → String
  | file e => e.message
  | size e => e.message

namespace Machine

/-- Copies an image into memory, from where images begin. -/
def load (m : Machine) (image : List UInt8) : Except Oversize Machine :=
  if image.length ≤ maxImageSize then
    .ok { m with memory := m.memory.write programStart image }
  else .error ⟨image.length⟩

/-- Copies the image in a file into memory. -/
def loadFile (m : Machine) (tree : FileTree) (name : String) : Except LoadError Machine :=
  match tree.read name with
  | .error e => .error (.file e)
  | .ok image => (m.load image).mapError .size

/-- Sets one key. -/
def setKey (m : Machine) (key : Int) (down : Bool) : Except KeypadError Machine :=
  if 0 ≤ key ∧ key < 16 then
    .ok { m with keypad := m.keypad.setIfInBounds key.toNat down }
  else .error (.noSuchKey key)

/-- Sets every key. -/
def setKeypad (m : Machine) (keys : Switches) : Except KeypadError Machine :=
  keys.toKeypad.map fun keypad => { m with keypad := keypad }

end Machine

/-- The operations of a host on a machine. -/
inductive Command where
  | execute (word : Int)
  | step
  | run (n : Int)
  | runFrame (k : Int)
  | runFrames (n k : Int)
  | tick
  | setKey (key : Int) (down : Bool)
  | setKeypad (keys : Switches)
  | load (image : List UInt8)
  | clearFault
  | reset (key : Random.Key)

/-- Why a command is refused. -/
inductive Refusal where
  | count (e : Count.Overflow)
  | keypad (e : KeypadError)
  | load (e : Oversize)
deriving DecidableEq, Repr

namespace Refusal

/-- The text of a refusal. -/
def message : Refusal → String
  | count e => e.message
  | keypad e => e.message
  | load e => e.message

end Refusal

namespace Machine

/-- Carries out a command. -/
def perform (m : Machine) : Command → Except Refusal Machine
  | .execute word => ((Count.check .instruction word).map m.executeInt).mapError .count
  | .step => .ok m.step
  | .run n => ((Count.iterations n).map m.run).mapError .count
  | .runFrame k => ((Count.iterations k).map m.runFrame).mapError .count
  | .runFrames n k =>
    ((frameCounts false n k).map fun c => m.runFrames c.1 c.2).mapError .count
  | .tick => .ok m.tick
  | .setKey key down => (m.setKey key down).mapError .keypad
  | .setKeypad keys => (m.setKeypad keys).mapError .keypad
  | .load image => (m.load image).mapError .load
  | .clearFault => .ok m.clearFault
  | .reset key => .ok (m.reset key)

/-- The machine after a command; a refused command leaves it as it is. -/
def after (m : Machine) (c : Command) : Machine :=
  match m.perform c with
  | .ok next => next
  | .error _ => m

end Machine

end Chip8
