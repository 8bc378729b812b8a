import Chip8.Log.Level
import Chip8.Log.Clock
import Chip8.Decimal.Fixed
import Chip8.Text.Numeral
import Chip8.Text.Quoted

/-!
# The session log

A logger turns calls into records and records into lines. A record below the logger's threshold
leaves no trace and does not read the clock. A line holds the time since the logger was made, if
the logger stamps its lines, the level, and the text. The end of a session reads the clock once
for itself, whether or not its records are written.

A call makes its records one after the other and writes each before it makes the next. A value that
has no text ends the call at the record that is to show it, whether or not that record would be
written.
-/

set_option autoImplicit false

namespace Chip8.Log

/-- A value that a session reports. -/
inductive Value where
  | absent
  | flag (b : Bool)
  | number (n : Int)
  | text (s : String)
deriving DecidableEq, Repr

/-- One message and its level. -/
structure Record where
  level : Level
  text : String
deriving DecidableEq, Repr

/-- What a logger can be asked to write. -/
inductive Call where
  /-- One record. -/
  | record (r : Record)
  /-- One record whose level is given by name. -/
  | named (level text : String)
  /-- A fault that stopped the session. -/
  | fault (name message : String)
  /-- The configuration of a session. -/
  | sessionStart (entries : List (String × Value))
  /-- The summary of a session. -/
  | sessionEnd (entries : List (String × Value))
deriving DecidableEq, Repr

/-- A logger. -/
structure Logger where
  /-- Records below this level are dropped. -/
  threshold : Level
  /-- Whether levels are written in colour. -/
  colours : Bool
  /-- Whether lines begin with the time. -/
  stamps : Bool
  /-- The reading of the clock when the logger was made. -/
  start : Float

/-- Why a record cannot be written. -/
inductive Failure where
  /-- The logger writes in colour and the level has none. -/
  | noColour (level : Level)
  /-- The name is not that of a level. -/
  | noSuchLevel
  /-- A number has more digits than a numeral may have. -/
  | noNumeral
deriving DecidableEq, Repr

/-- The text of a failure. -/
def Failure.message : Failure → String
  | noColour level => Text.quoted level.name
  | noSuchLevel => "tuple.index(x): x not in tuple"
  | noNumeral => Text.unwritable

/-- A value as a line shows it. -/
def Value.display : Value → Except Failure String
  | absent => .ok "None"
  | flag b => .ok (if b then "True" else "False")
  | number n => if Text.isWritable n then .ok (toString n) else .error .noNumeral
  | text s => .ok s

/-- What a call leaves: the text written, the failure that ended it, and the clock after it. -/
structure Written where
  text : String
  failure : Option Failure
  clock : Clock

/-- A text that names no level. -/
structure UnknownLevel where
  text : String
deriving DecidableEq, Repr

/-- The complaint about a text that names no level. -/
def UnknownLevel.message (e : UnknownLevel) : String :=
  "Unknown log level " ++ Text.quoted e.text ++ ", expected one of (" ++ Level.listing ++ ")"

/-- The line above and below the records of a session. -/
def rule : Record := ⟨.info, String.ofList (List.replicate 60 '=')⟩

/-- What becomes of one step of a call: its record, or the failure that ends the call there. -/
abbrev Step := Except Failure Record

/-- One entry of a configuration or summary. -/
def entry (e : String × Value) : Step :=
  e.2.display.map fun shown => ⟨.info, "  " ++ e.1 ++ ": " ++ shown⟩

/-- The records of a heading and some entries, between two rules. -/
def block (heading : String) (entries : List (String × Value)) : List Step :=
  .ok rule :: .ok ⟨.info, heading⟩ :: entries.map entry ++ [.ok rule]

/-- The records for the start of a session. -/
def startRecords (entries : List (String × Value)) : List Step :=
  block "Starting emulation with configuration:" entries

/-- The records for the end of a session that took `elapsed` seconds. -/
def endRecords (elapsed : Float) (entries : List (String × Value)) : List Step :=
  block ("Emulation finished in " ++ Decimal.fixed 1 elapsed ++ "s") entries

/-- The record for a fault. -/
def faultRecord (name message : String) : Record := ⟨.error, name ++ ": " ++ message⟩

/-- The steps of a call that is carried out `elapsed` seconds after the logger was made. -/
def Call.steps (elapsed : Float) : Call → List Step
  | record r => [.ok r]
  | named level text =>
    match Level.ofName? level with
    | some level => [.ok ⟨level, text⟩]
    | none => [.error .noSuchLevel]
  | fault name message => [.ok (faultRecord name message)]
  | sessionStart entries => startRecords entries
  | sessionEnd entries => endRecords elapsed entries

namespace Logger

/-- A logger whose threshold is given by name, and the clock after its first reading. Colours
are used on a terminal only. -/
def create (threshold : String) (colours stamps isTerminal : Bool) (clock : Clock) :
    Except UnknownLevel (Logger × Clock) :=
  match Level.ofText? threshold with
  | none => .error ⟨threshold⟩
  | some level =>
    let now := clock.read
    .ok (⟨level, colours && isTerminal, stamps, now.1⟩, now.2)

/-- Whether records of a level are written. -/
def shows (lg : Logger) (level : Level) : Bool := lg.threshold.rank ≤ level.rank

/-- The level of a line, right-aligned between brackets. -/
def bracket (level : Level) : String :=
  "[" ++ String.ofList (level.name.toList.leftpad 7 ' ') ++ "]"

/-- The level of a line, in colour if the logger uses colours. -/
def tag (lg : Logger) (level : Level) : Except Failure String :=
  if lg.colours then
    match level.colour? with
    | some colour => .ok (colour ++ bracket level ++ "\x1b[0m")
    | none => .error (.noColour level)
  else .ok (bracket level)

/-- The time at the head of a line, and the clock after it was read. -/
def stamp (lg : Logger) (clock : Clock) : String × Clock :=
  if lg.stamps then
    let now := clock.read
    ("[" ++ Decimal.fixedWide 8 2 (now.1 - lg.start) ++ "s]", now.2)
  else ("", clock)

/-- Writes one record. -/
def emit (lg : Logger) (r : Record) (clock : Clock) : Written :=
  if lg.shows r.level then
    match lg.tag r.level with
    | .ok tag =>
      let stamped := lg.stamp clock
      ⟨stamped.1 ++ tag ++ " " ++ r.text ++ "\n", none, stamped.2⟩
    | .error e => ⟨"", some e, clock⟩
  else ⟨"", none, clock⟩

/-- Carries out steps until one fails. -/
def emitAll (lg : Logger) : List Step → Clock → Written
  | [], clock => ⟨"", none, clock⟩
  | .error e :: _, clock => ⟨"", some e, clock⟩
  | .ok r :: steps, clock =>
    let first := lg.emit r clock
    match first.failure with
    | some _ => first
    | none =>
      let rest := lg.emitAll steps first.clock
      { rest with text := first.text ++ rest.text }

/-- The seconds since the logger was made, and the clock after they were read off it. Only the
end of a session reads the clock for itself. -/
def elapsed (lg : Logger) (call : Call) (clock : Clock) : Float × Clock :=
  match call with
  | .sessionEnd _ =>
    let now := clock.read
    (now.1 - lg.start, now.2)
  | _ => (0, clock)

/-- Carries out a call. -/
def perform (lg : Logger) (call : Call) (clock : Clock) : Written :=
  let timed := lg.elapsed call clock
  lg.emitAll (call.steps timed.1) timed.2

/-- Carries out calls one after the other; a call that fails does not stop the next. -/
def performAll (lg : Logger) : List Call → Clock → List Written
  | [], _ => []
  | c :: cs, clock =>
    let first := lg.perform c clock
    first :: lg.performAll cs first.clock

/-- All that the calls write. -/
def transcript (lg : Logger) (calls : List Call) (clock : Clock) : String :=
  String.join ((lg.performAll calls clock).map (·.text))

end Logger

end Chip8.Log
