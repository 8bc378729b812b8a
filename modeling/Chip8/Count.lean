import Chip8.Text.Numeral

/-!
# Counts

Loops are counted in signed 32-bit words. A number that a loop has to work with and that does not
fit in such a word is refused before the loop begins. A number of iterations below zero that fits
is no error: the loop is then empty.
-/

set_option autoImplicit false

namespace Chip8.Count

/-- Where a number stands in the computation that refuses it. -/
inductive Operand where
  /-- On the right of a comparison. -/
  | right
  /-- What is divided by. -/
  | divisor
  /-- The word to be executed. -/
  | instruction
deriving DecidableEq, Repr

/-- The name of an operand in messages. -/
def Operand.name : Operand → String
  | right => "y"
  | divisor => "x2"
  | instruction => "instruction"

/-- A number that does not fit in a signed 32-bit word. -/
structure Overflow where
  operand : Operand
  value : Int
deriving DecidableEq, Repr

/-- Whether the text of the refusal can name the number. -/
def Overflow.isNamed (e : Overflow) : Bool := Text.isWritable e.value

/-- The text of the refusal. -/
def Overflow.message (e : Overflow) : String :=
  if e.isNamed then
    "An overflow was encountered while parsing an argument to a jitted computation, whose " ++
      "argument path is " ++ e.operand.name ++ ". Got <class 'int'> with value " ++
      toString e.value
  else Text.unwritable

/-- Whether a number fits in a signed 32-bit word. -/
def fits (n : Int) : Bool := -0x80000000 ≤ n && n < 0x80000000

/-- Lets a number pass that fits. -/
def check (operand : Operand) (n : Int) : Except Overflow Int :=
  if fits n then .ok n else .error ⟨operand, n⟩

/-- The number of iterations of a loop that is asked to make `n`. -/
def iterations (n : Int) : Except Overflow Nat := (check .right n).map Int.toNat

/-- The numbers of iterations of a loop that is asked to make `n` and of the loop inside it that
is asked to make `k`. A loop that is not entered refuses nothing. -/
def nested (n k : Int) : Except Overflow (Nat × Nat) :=
  if n ≤ 0 then .ok (0, k.toNat)
  else
    match check .right n, check .right k with
    | .error e, _ => .error e
    | .ok _, .error e => .error e
    | .ok n, .ok k => .ok (n.toNat, k.toNat)

end Chip8.Count
