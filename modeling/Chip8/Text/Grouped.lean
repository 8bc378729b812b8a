/-!
# Grouped numerals

Decimal numerals with a comma between groups of three digits, counted from the right.
-/

set_option autoImplicit false

namespace Chip8.Text

/-- Puts a comma after every third digit, as long as digits follow. -/
def groupThrees : List Char → List Char
  | a :: b :: c :: d :: rest => a :: b :: c :: ',' :: groupThrees (d :: rest)
  | ds => ds

/-- An integer in decimal with its digits in groups of three. -/
def grouped (n : Int) : String :=
  let digits := (groupThrees (Nat.toDigits 10 n.natAbs).reverse).reverse
  String.ofList (if n < 0 then '-' :: digits else digits)

end Chip8.Text
