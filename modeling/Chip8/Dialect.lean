/-!
# Dialects

Historical interpreters disagree about a handful of instructions. A `Dialect` says which way
each of them goes; three dialects have names.
-/

set_option autoImplicit false

namespace Chip8

/-- The choices that interpreters differ in. With every switch off, shifts read `VX`, block
transfers leave the index alone, `BNNN` jumps relative to `V0`, logic operations keep the flag
and sprites wrap around both edges of the screen. -/
structure Dialect where
  /-- `8XY6` and `8XYE` shift `VY` into `VX`. -/
  shiftReadsVY : Bool := false
  /-- `FX55` and `FX65` move the index past the bytes that they transfer. -/
  transferMovesIndex : Bool := false
  /-- `BXNN` jumps relative to `VX`. -/
  jumpReadsVX : Bool := false
  /-- `8XY1`, `8XY2` and `8XY3` clear the flag register. -/
  logicClearsFlag : Bool := false
  /-- Sprites are cut off at the right and bottom edges. -/
  clipSprites : Bool := false
deriving DecidableEq, Repr

namespace Dialect

/-- Every switch off. -/
def classic : Dialect := {}

/-- The COSMAC VIP interpreter. -/
def cosmac : Dialect where
  shiftReadsVY := true
  transferMovesIndex := true
  logicClearsFlag := true
  clipSprites := true

/-- The SUPER-CHIP interpreter. -/
def superChip : Dialect where
  jumpReadsVX := true
  clipSprites := true

/-- The named dialects, in the order of their names. -/
def named : List (String × Dialect) :=
  [("cosmac", cosmac), ("default", classic), ("schip", superChip)]

/-- The names of the named dialects. -/
def names : List String := named.map (·.1)

/-- The dialect of a name, if it is one of `names`. -/
def ofName? (name : String) : Option Dialect := named.lookup name

/-- The complaint about a name that no dialect has. -/
def unknownName (name : String) : String :=
  let known := ", ".intercalate (names.map fun n => "'" ++ n ++ "'")
  "Unknown quirk preset '" ++ name ++ "'. Available presets: [" ++ known ++ "]"

/-- The switches with the names that reports give them. -/
def switches (d : Dialect) : List (String × Bool) :=
  [("shift_uses_vy", d.shiftReadsVY),
   ("load_store_increments_index", d.transferMovesIndex),
   ("jump_uses_vx", d.jumpReadsVX),
   ("logic_resets_vf", d.logicClearsFlag),
   ("clip_sprites", d.clipSprites)]

/-- A dialect as reports show it, switch by switch. -/
def describe (d : Dialect) : String :=
  let setting := fun (s : String × Bool) => s.1 ++ "=" ++ (if s.2 then "True" else "False")
  "Quirks(" ++ ", ".intercalate (d.switches.map setting) ++ ")"

end Dialect

end Chip8
