/-!
# The call stack

Sixteen slots for return addresses and a pointer to the next free one. A push on a full stack
is refused. A pop always answers: it reads the slot below the pointer, clears it and says
whether the stack was empty. The pointer is a byte and may be set past sixteen from outside; a
slot past the last then reads as the last one, and clearing it changes nothing.
-/

set_option autoImplicit false

namespace Chip8

/-- The number of slots of the call stack. -/
abbrev stackSize : Nat := 16

/-- Return addresses and the pointer to the next free slot. -/
structure CallStack where
  slots : Vector UInt16 stackSize
  pointer : UInt8
deriving DecidableEq, Repr

/-- What a pop answers. -/
structure Popped where
  /-- The address taken from the stack. -/
  address : UInt16
  /-- Whether there was none to take. -/
  underflow : Bool
  /-- The stack afterwards. -/
  rest : CallStack
deriving DecidableEq, Repr

namespace CallStack

/-- No address. -/
def empty : CallStack := ⟨Vector.replicate stackSize 0, 0⟩

/-- Whether no slot is free. -/
def isFull (s : CallStack) : Bool := stackSize ≤ s.pointer.toNat

/-- Puts an address on top; a full stack has no room for one. -/
def push? (s : CallStack) (address : UInt16) : Option CallStack :=
  if s.isFull then none
  else some ⟨s.slots.setIfInBounds s.pointer.toNat address, s.pointer + 1⟩

/-- The address in a slot; past the last slot, the one in the last. -/
def slot (s : CallStack) (k : Nat) : UInt16 :=
  s.slots.get ⟨min k (stackSize - 1), Nat.lt_of_le_of_lt (Nat.min_le_right _ _) (by decide)⟩

/-- Takes the address from the top and clears its slot. An empty stack keeps its pointer and
answers from the first slot, with `underflow` set. -/
def pop (s : CallStack) : Popped :=
  let top := if s.pointer = 0 then 0 else s.pointer - 1
  { address := s.slot top.toNat
    underflow := s.pointer = 0
    rest := ⟨s.slots.setIfInBounds top.toNat 0, top⟩ }

end CallStack

end Chip8
