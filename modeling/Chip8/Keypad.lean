import Chip8.Word

/-!
# The keypad

Sixteen keys, each up or down. Waiting for a key looks at two keypads, before and now, and
takes the lowest key that went down in between.
-/

set_option autoImplicit false

namespace Chip8

/-- For each of the sixteen keys, whether it is down. -/
abbrev Keypad := Vector Bool 16

namespace Keypad

/-- No key down. -/
def released : Keypad := Vector.replicate 16 false

/-- The lowest key that is down in `now` and up in `before`. -/
def firstPress? (before now : Keypad) : Option Nibble :=
  (List.finRange 16).find? fun k => now.get k && !before.get k

end Keypad

/-- Key positions as a host hands them over: one switch, or a list of such arrays. -/
inductive Switches where
  | one (down : Bool)
  | many (parts : List Switches)
deriving Inhabited

/-- Why a change of the keypad is refused. -/
inductive KeypadError where
  | noSuchKey (key : Int)
  | wrongShape (shape : List Nat)
  /-- Parts of the array differ in their lengths; `shape` holds the lengths they agree on. -/
  | irregular (shape : List Nat)
  /-- The array is nested too deeply. -/
  | tooDeep
deriving DecidableEq, Repr

/-- The greatest depth to which switches may be nested. -/
abbrev maxDepth : Nat := 64

namespace KeypadError

/-- The lengths of an array as a tuple: a single length is followed by a comma. -/
def tuple : List Nat → String
  | [n] => "(" ++ toString n ++ ",)"
  | ns => "(" ++ ", ".intercalate (ns.map toString) ++ ")"

/-- The text of the refusal. -/
def message : KeypadError → String
  | noSuchKey key => "Key index must be in [0, 16), got " ++ toString key
  | wrongShape shape => "Keypad must have shape (16,), got " ++ tuple shape
  | irregular shape =>
    "setting an array element with a sequence. The requested array has an inhomogeneous " ++
      "shape after " ++ toString shape.length ++ " dimensions. The detected shape was " ++
      tuple shape ++ " + inhomogeneous part."
  | tooDeep =>
    "setting an array element with a sequence. The requested array would exceed the " ++
      "maximum number of dimension of " ++ toString maxDepth ++ "."

end KeypadError

/-- The lengths that all parts of an array have in common, from the outside in, and whether they
are all its lengths. -/
structure Layout where
  shape : List Nat
  isRegular : Bool
deriving DecidableEq, Repr

namespace Layout

/-- The lengths that two lists begin with. -/
def common : List Nat → List Nat → List Nat
  | a :: as, b :: bs => if a = b then a :: common as bs else []
  | _, _ => []

/-- What two layouts have in common. -/
def meet (a b : Layout) : Layout :=
  ⟨common a.shape b.shape, a.isRegular && b.isRegular && a.shape == b.shape⟩

end Layout

namespace Switches

mutual

/-- The layout of switches, down to a depth. -/
def layout (depth : Nat) : Switches → Layout
  | one _ => ⟨[], true⟩
  | many parts =>
    match depth with
    | 0 => ⟨[], false⟩
    | d + 1 =>
      let inner := layouts d parts
      ⟨parts.length :: inner.shape, inner.isRegular⟩

/-- The layout that all parts of an array share. -/
def layouts (depth : Nat) : List Switches → Layout
  | [] => ⟨[], true⟩
  | [s] => layout depth s
  | s :: rest => (layout depth s).meet (layouts depth rest)

end

/-- The position of a single switch; an array counts as up. -/
def isDown : Switches → Bool
  | one down => down
  | many _ => false

/-- The positions of the switches of an array. -/
def positions : Switches → List Bool
  | one down => [down]
  | many parts => parts.map isDown

/-- The keypad of an array of sixteen single switches. -/
def toKeypad (s : Switches) : Except KeypadError Keypad :=
  let l := s.layout maxDepth
  if l.isRegular then
    if l.shape = [16] then .ok (Vector.ofFn fun k => s.positions.getD k.val false)
    else .error (.wrongShape l.shape)
  else if l.shape.length = maxDepth then .error .tooDeep
  else .error (.irregular l.shape)

end Switches

end Chip8
