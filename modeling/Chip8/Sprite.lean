import Chip8.Screen

/-!
# Sprites

A sprite is eight pixels wide, one byte for each row, with the leftmost pixel in the top bit.
`Sprite.mask` places one on a blank screen. On a wrapping screen what leaves at one edge comes
back at the opposite one, on the same row or column; on a clipping screen it is cut off.
-/

set_option autoImplicit false

namespace Chip8.Sprite

/-- A byte as a row of the screen, with its leftmost pixel in column `x`. -/
def row (clip : Bool) (x : Nat) (b : UInt8) : BitVec screenWidth :=
  let leftmost := b.toBitVec.setWidth screenWidth <<< (screenWidth - 8)
  if clip then leftmost >>> x else leftmost.rotateRight x

/-- The sprite `bytes` with its top left pixel at column `x < 64` and row `y < 32`, alone on
the screen. Row `r` of the screen shows byte `r - y`, counted around the bottom edge unless the
screen clips. -/
def mask (clip : Bool) (x y : Nat) (bytes : List UInt8) : Screen where
  rows := Vector.ofFn fun r =>
    if clip && decide (r.val < y) then 0
    else
      match bytes[(r.val + screenHeight - y) % screenHeight]? with
      | some b => row clip x b
      | none => 0

end Chip8.Sprite
