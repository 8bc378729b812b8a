/-!
# Fixed decimals

A floating-point number in decimal with a fixed number of places. The number is taken apart into
its exact value, a natural number times a power of two, and rounded once; a half goes to the
even neighbour. The sign of a negative number stays even where all its places round to zero.
-/

set_option autoImplicit false

namespace Chip8.Decimal

/-- The value of a floating-point number. -/
inductive Reading where
  /-- `mantissa * 2 ^ exponent`, negated if `negative`. -/
  | finite (negative : Bool) (mantissa : Nat) (exponent : Int)
  | infinite (negative : Bool)
  | nan
deriving DecidableEq, Repr

/-- The value of a 64-bit pattern: one sign bit, eleven bits of exponent and 52 of fraction. -/
def Reading.ofBits (bits : UInt64) : Reading :=
  let negative := bits >>> 63 == 1
  let field := (bits >>> 52 &&& 0x7FF).toNat
  let fraction := (bits &&& 0xFFFFFFFFFFFFF).toNat
  if field = 2047 then (if fraction = 0 then .infinite negative else .nan)
  else if field = 0 then .finite negative fraction (-1074)
  else .finite negative (0x10000000000000 + fraction) ((field : Int) - 1075)

/-- The natural number nearest to a quotient; a half goes to the even neighbour. -/
def roundDiv (num den : Nat) : Nat :=
  let q := num / den
  let r := 2 * (num % den)
  if den < r ∨ (r = den ∧ q % 2 = 1) then q + 1 else q

/-- `mantissa * 2 ^ exponent` counted in units of the last of `places` decimal places. -/
def unitsOf (places mantissa : Nat) (exponent : Int) : Nat :=
  if 0 ≤ exponent then mantissa * Nat.pow 2 exponent.toNat * Nat.pow 10 places
  else roundDiv (mantissa * Nat.pow 10 places) (Nat.pow 2 (-exponent).toNat)

/-- A number of units of the last place, with the point set before the places. -/
def pointed (places units : Nat) : List Char :=
  let whole := Nat.toDigits 10 (units / Nat.pow 10 places)
  let part := (Nat.toDigits 10 (units % Nat.pow 10 places)).leftpad places '0'
  if places = 0 then whole else whole ++ '.' :: part

/-- A reading with a fixed number of places. -/
def Reading.fixed (places : Nat) : Reading → List Char
  | finite negative mantissa exponent =>
    let digits := pointed places (unitsOf places mantissa exponent)
    if negative then '-' :: digits else digits
  | infinite negative => if negative then ['-', 'i', 'n', 'f'] else ['i', 'n', 'f']
  | nan => ['n', 'a', 'n']

/-- A floating-point number with a fixed number of places. -/
def fixed (places : Nat) (x : Float) : String :=
  String.ofList ((Reading.ofBits x.toBits).fixed places)

/-- The same, filled with blanks on the left up to a least width. -/
def fixedWide (width places : Nat) (x : Float) : String :=
  String.ofList (((Reading.ofBits x.toBits).fixed places).leftpad width ' ')

end Chip8.Decimal
