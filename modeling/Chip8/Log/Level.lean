/-!
# Levels

Records carry one of four levels, from the least to the most pressing. A level is chosen by
name in any mixture of small and capital letters; a record names its level in capitals.
-/

set_option autoImplicit false

namespace Chip8.Log

/-- The levels of records. -/
inductive Level where
  | debug
  | info
  | warning
  | error
deriving DecidableEq, Repr

namespace Level

/-- Every level, from the least to the most pressing. -/
def all : List Level := [debug, info, warning, error]

/-- The name of a level. -/
def name : Level → String
  | debug => "DEBUG"
  | info => "INFO"
  | warning => "WARNING"
  | error => "ERROR"

/-- The position of a level in `all`. -/
def rank : Level → Nat
  | debug => 0
  | info => 1
  | warning => 2
  | error => 3

/-- The level of a name in capitals. -/
def ofName? (name : String) : Option Level := all.find? fun l => l.name == name

/-- The capital of a letter, as far as names of levels are concerned: beyond ASCII, only the
dotless i has a capital that occurs in one. -/
def capital (c : Char) : Char := if c = 'ı' then 'I' else c.toUpper

/-- The level of a name in small or capital letters. -/
def ofText? (text : String) : Option Level :=
  ofName? (String.ofList (text.toList.map capital))

/-- The names of the levels between single marks, with commas in between. -/
def listing : String := ", ".intercalate (all.map fun l => "'" ++ l.name ++ "'")

/-- The sequence that switches a terminal to the colour of a level. There is none for
warnings. -/
def colour? : Level → Option String
  | debug => some "\x1b[36m"
  | info => some "\x1b[32m"
  | warning => none
  | error => some "\x1b[31m"

end Level

end Chip8.Log
