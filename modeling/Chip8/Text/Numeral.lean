import Chip8.Text.Digit

/-!
# Numerals

Reading an integer from text: blanks around it, one sign, and decimal digits of any script with
single underscores between them. A numeral may have at most 4300 digits, so a longer integer can
be neither read nor written.
-/

set_option autoImplicit false

namespace Chip8.Text

/-- The largest number of digits that a numeral may have. -/
abbrev maxDigits : Nat := 4300

/-- Whether an integer has no more digits than a numeral may have. -/
def isWritable (n : Int) : Bool := n.natAbs < Nat.pow 10 maxDigits

/-- What is said in the place of a text in which an integer should stand that is too long. -/
def unwritable : String :=
  "Exceeds the limit (" ++ toString maxDigits ++ " digits) for integer string conversion; " ++
    "use sys.set_int_max_str_digits() to increase the limit"

/-- A text without the blanks at both ends. -/
def trimBlanks (s : List Char) : List Char :=
  ((s.dropWhile isBlank).reverse.dropWhile isBlank).reverse

/-- The digits of a numeral without its sign. -/
def digits? : List Char → Option (List Nat)
  | [] => none
  | [c] => (digitValue? c).map ([·])
  | c :: '_' :: rest => do return (← digitValue? c) :: (← digits? rest)
  | c :: rest => do return (← digitValue? c) :: (← digits? rest)

/-- The number that a list of digits spells. -/
def ofDigits (ds : List Nat) : Nat := ds.foldl (fun n d => 10 * n + d) 0

/-- The number of a numeral without a sign. -/
def magnitude? (s : List Char) : Option Nat := do
  let ds ← digits? s
  if ds.length ≤ maxDigits then some (ofDigits ds) else none

/-- The integer that a text spells, if it is a numeral. -/
def readInt? (s : String) : Option Int :=
  match trimBlanks s.toList with
  | '-' :: rest => (magnitude? rest).map fun n => -(n : Int)
  | '+' :: rest => (magnitude? rest).map fun n => (n : Int)
  | rest => (magnitude? rest).map fun n => (n : Int)

end Chip8.Text
