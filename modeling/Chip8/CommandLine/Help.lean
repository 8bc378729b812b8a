/-!
# Help

The description of the command line that the program prints on request.
-/

set_option autoImplicit false

namespace Chip8.CommandLine

/-- The lines of the description. -/
def helpLines : List String :=
  ["usage: chipvm [-h] [--frames FRAMES]",
   "              [--instructions-per-frame INSTRUCTIONS_PER_FRAME]",
   "              [--quirks \x7bcosmac,default,schip\x7d] [--seed SEED]",
   "              [--log-level \x7bDEBUG,INFO,WARNING,ERROR\x7d] [--progress]",
   "              rom",
   "",
   "Run a CHIP-8 program image without a display and report the final machine",
   "state.",
   "",
   "positional arguments:",
   "  rom                   Path to the raw program image",
   "",
   "options:",
   "  -h, --help            show this help message and exit",
   "  --frames FRAMES       Number of 60 Hz frames to run",
   "  --instructions-per-frame INSTRUCTIONS_PER_FRAME",
   "                        Instructions executed between timer ticks (700 Hz CPU",
   "                        by default)",
   "  --quirks \x7bcosmac,default,schip\x7d",
   "  --seed SEED           Random seed (time based if omitted)",
   "  --log-level \x7bDEBUG,INFO,WARNING,ERROR\x7d",
   "  --progress            Show a progress bar"]

/-- The description of the command line. -/
def helpText : String := String.join (helpLines.map fun line => line ++ "\n")

end Chip8.CommandLine
