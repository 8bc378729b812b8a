import Chip8.Decimal.Fixed

/-!
# Binary sizes

A number of bytes in the largest binary unit that does not exceed it, with three significant
digits. A point follows the digits even where no places are left. The digits are those of the
nearest number with 53 significant bits.
-/

set_option autoImplicit false

namespace Chip8.Text

/-- The names of the units, each 1024 times the one before it. -/
def sizeUnits : List String := ["bytes", "KiB", "MiB", "GiB", "TiB", "PiB", "EiB"]

/-- The power of 1024 that the unit of a number of bytes is. -/
def sizeUnit (bytes : Nat) : Nat :=
  let k := Nat.log2 bytes / 10
  if Decimal.roundDiv bytes (Nat.pow 1024 k) = 1024 then k + 1 else k

/-- A quotient between 1 and 1024 with three significant digits. -/
def threeDigits (num den : Nat) : List Char :=
  let units := fun (places : Nat) => Decimal.roundDiv (num * Nat.pow 10 places) den
  if units 2 < 1000 then Decimal.pointed 2 (units 2)
  else if units 1 < 1000 then Decimal.pointed 1 (units 1)
  else Decimal.pointed 0 (units 0) ++ ['.']

/-- The nearest number with at most `bits` significant bits, and of two the one whose last bit
is zero. -/
def roundToBits (bits n : Nat) : Nat :=
  let unit := Nat.pow 2 (Nat.log2 n + 1 - bits)
  Decimal.roundDiv n unit * unit

/-- A number of bytes in its unit. -/
def binarySize (bytes : Nat) : String :=
  let size := roundToBits 53 bytes
  let k := sizeUnit size
  let digits :=
    if k = 0 then Nat.toDigits 10 size else threeDigits size (Nat.pow 1024 k)
  String.ofList digits ++ " " ++ sizeUnits.getD k ""

end Chip8.Text
