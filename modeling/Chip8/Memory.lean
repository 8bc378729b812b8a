import Chip8.Word

/-!
# Memory

Memory is 4096 bytes. A read past the end gives the last byte and a write past the end is
dropped, so that both are total; instructions never rely on either, because they check with
`fits` first.
-/

set_option autoImplicit false

namespace Chip8

/-- The number of bytes of memory. -/
abbrev memorySize : Nat := 4096

/-- The 4096 bytes of memory. -/
abbrev Memory := Vector UInt8 memorySize

namespace Memory

/-- Every byte zero. -/
def zero : Memory := Vector.replicate memorySize 0

/-- Whether `count` bytes from `base` lie inside memory. -/
def fits (base count : Nat) : Bool := base + count ≤ memorySize

/-- The byte at an address; past the end, the last byte. -/
def read (m : Memory) (a : Nat) : UInt8 :=
  m.get ⟨min a (memorySize - 1), Nat.lt_of_le_of_lt (Nat.min_le_right _ _) (by decide)⟩

/-- The big-endian word at an address. The address of its second byte wraps after `0xFFFF`. -/
def word (m : Memory) (a : UInt16) : Word :=
  Word.ofBytes (m.read a.toNat) (m.read (a + 1).toNat)

/-- The `count` bytes from `base`. -/
def slice (m : Memory) (base count : Nat) : List UInt8 :=
  (List.range count).map fun k => m.read (base + k)

/-- Stores bytes from `base` on; what falls past the end is dropped. -/
def write (m : Memory) (base : Nat) : List UInt8 → Memory
  | [] => m
  | b :: bs => write (m.setIfInBounds base b) (base + 1) bs

end Memory

end Chip8
