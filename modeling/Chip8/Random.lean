/-!
# The random source

Random bytes come from the block cipher Threefry-2x32 with twenty rounds. A key is split into
the key of the next draw and a key for the present one; the byte drawn is the exclusive or of
the two words that the present key encrypts the zero block to, cut to eight bits. Bytes
therefore depend on the first key and on the number of draws before.
-/

set_option autoImplicit false

namespace Chip8.Random

/-- A block of the cipher. -/
structure Block where
  fst : UInt32
  snd : UInt32
deriving DecidableEq, Repr

/-- A key of the cipher, and so the state of a random source. -/
structure Key where
  fst : UInt32
  snd : UInt32
deriving DecidableEq, Repr

/-- Rotation to the left by `r` bits, for `0 < r < 32`. -/
def rotateLeft (x r : UInt32) : UInt32 := x <<< r ||| x >>> (32 - r)

/-- One round of mixing, with rotation `r`. -/
def Block.mix (b : Block) (r : UInt32) : Block :=
  let sum := b.fst + b.snd
  ⟨sum, rotateLeft b.snd r ^^^ sum⟩

/-- Adds two words to a block. -/
def Block.add (b : Block) (x y : UInt32) : Block := ⟨b.fst + x, b.snd + y⟩

namespace Key

/-- The third word of the key schedule. -/
def parity (k : Key) : UInt32 := k.fst ^^^ k.snd ^^^ 0x1BD11BDA

/-- The first and third groups of four rounds, and the fifth. -/
def oddGroup (b : Block) : Block := [13, 15, 26, 6].foldl Block.mix b

/-- The second and fourth groups of four rounds. -/
def evenGroup (b : Block) : Block := [17, 29, 16, 24].foldl Block.mix b

/-- Encrypts a block: five groups of four rounds, with two words of the key schedule added
before the first group and after each. -/
def encrypt (k : Key) (b : Block) : Block :=
  let p := k.parity
  let b0 := b.add k.fst k.snd
  let b1 := (oddGroup b0).add k.snd (p + 1)
  let b2 := (evenGroup b1).add p (k.fst + 2)
  let b3 := (oddGroup b2).add k.fst (k.snd + 3)
  let b4 := (evenGroup b3).add k.snd (p + 4)
  (oddGroup b4).add p (k.fst + 5)

/-- The key that a block encrypts to. -/
def derive (k : Key) (b : Block) : Key :=
  let c := k.encrypt b
  ⟨c.fst, c.snd⟩

/-- The key left after a draw. -/
def next (k : Key) : Key := k.derive ⟨0, 0⟩

/-- The key that the present draw uses. -/
def present (k : Key) : Key := k.derive ⟨0, 1⟩

/-- The byte that a key yields once it is set aside for a draw. -/
def bits (k : Key) : UInt8 :=
  let c := k.encrypt ⟨0, 0⟩
  (c.fst ^^^ c.snd).toUInt8

/-- The byte that the next draw from a source gives. -/
def byte (k : Key) : UInt8 := k.present.bits

/-- A seed is out of the range of signed 64-bit integers. -/
inductive SeedError where
  | tooLarge
deriving DecidableEq, Repr

/-- The text of the refusal of a seed. -/
def SeedError.message : SeedError → String
  | .tooLarge => "Python int too large to convert to C long"

/-- The key of a seed: its low 32 bits, for a signed 64-bit seed. -/
def ofSeed (seed : Int) : Except SeedError Key :=
  if -0x8000000000000000 ≤ seed ∧ seed < 0x8000000000000000 then .ok ⟨0, UInt32.ofInt seed⟩
  else .error .tooLarge

/-- The key made from a reading of the clock in nanoseconds, of which the low 31 bits count. -/
def ofNanoseconds (t : Int) : Key := ⟨0, UInt32.ofInt (t % 0x80000000)⟩

end Key

end Chip8.Random
