/-!
# The screen

The screen has 32 rows of 64 pixels. A row is a 64-bit word whose top bit is the leftmost
pixel. Screens combine by exclusive or, which is how sprites are drawn.
-/

set_option autoImplicit false

namespace Chip8

/-- The number of pixels of a row. -/
abbrev screenWidth : Nat := 64

/-- The number of rows. -/
abbrev screenHeight : Nat := 32

/-- The rows of the screen from top to bottom; the top bit of a row is its leftmost pixel. -/
structure Screen where
  rows : Vector (BitVec screenWidth) screenHeight
deriving DecidableEq, Repr

namespace Screen

/-- Every pixel off. -/
def blank : Screen := ⟨Vector.replicate screenHeight 0⟩

/-- Whether the pixel in column `x` of row `y` is on. -/
def pixel (s : Screen) (x : Fin screenWidth) (y : Fin screenHeight) : Bool :=
  s.rows[y].getMsbD x

/-- The pixels that are on in exactly one of two screens. -/
def xor (s t : Screen) : Screen := ⟨s.rows.zipWith (· ^^^ ·) t.rows⟩

/-- Whether some pixel is on in both screens. -/
def meets (s t : Screen) : Bool :=
  (s.rows.zipWith (· &&& ·) t.rows).any (· != 0)

/-- The number of pixels that are on. -/
def litCount (s : Screen) : Nat :=
  (s.rows.toList.flatMap fun row => (List.range screenWidth).map row.getMsbD).count true

end Screen

end Chip8
