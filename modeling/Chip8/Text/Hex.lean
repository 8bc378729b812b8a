/-!
# Hexadecimal text

Numbers in hexadecimal with zeros in front up to a least width. Longer numbers are not cut.
-/

set_option autoImplicit false

namespace Chip8.Text

/-- A number in small hexadecimal digits, at least `width` of them. -/
def hexDigits (width n : Nat) : List Char := (Nat.toDigits 16 n).leftpad width '0'

/-- A number in capital hexadecimal digits, at least `width` of them. -/
def hex (width n : Nat) : String := String.ofList ((hexDigits width n).map Char.toUpper)

end Chip8.Text
