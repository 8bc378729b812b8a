/-!
# Clocks

A clock is the list of its coming readings, in seconds. When they are used up, the last reading
repeats.
-/

set_option autoImplicit false

namespace Chip8.Log

/-- The coming readings of a clock, and the one that repeats after them. -/
structure Clock where
  upcoming : List Float
  last : Float := 0

namespace Clock

/-- A clock with given readings; without any it stands at zero. -/
def ofReadings (readings : List Float) : Clock := ⟨readings, 0⟩

/-- The next reading and the clock after it. -/
def read (c : Clock) : Float × Clock :=
  match c.upcoming with
  | [] => (c.last, c)
  | t :: rest => (t, ⟨rest, t⟩)

end Clock

end Chip8.Log
