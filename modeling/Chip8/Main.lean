import Chip8.CommandLine.Help
import Chip8.CommandLine.Session

/-!
# The command line program

Runs an image without a display and reports the final state of the machine. All decisions are
those of `Chip8.CommandLine`; this file reads the clock and the image, writes the log to standard
output and draws the progress bar on standard error.
-/

set_option autoImplicit false

namespace Chip8.CommandLine

/-- The time in seconds. -/
def secondsNow : IO Float := do
  return (← IO.monoNanosNow).toFloat / 1000000000.0

/-- The number of a failure, which some system calls give with a minus sign. -/
def magnitude (code : UInt32) : Nat := (if code < 0x80000000 then code else 0 - code).toNat

/-- Why a file could not be opened or read, if it is a reason that names have. -/
def walkError? : IO.Error → Option WalkError
  | .noFileOrDirectory _ code _ => WalkError.ofCode? (magnitude code)
  | .inappropriateType _ code _ => WalkError.ofCode? (magnitude code)
  | .invalidArgument _ code _ => WalkError.ofCode? (magnitude code)
  | _ => none

/-- The content of a file. -/
def fetch (name : String) : IO (Except FileError (List UInt8)) := do
  if name.toList.contains '\x00' then return .error .nullInName
  try
    let bytes ← IO.FS.readBinFile name
    return .ok bytes.toList
  catch e =>
    match walkError? e with
    | some reason => return .error (.walk reason name)
    | none => throw e

/-- Writes calls to standard output, each at the time it is written. -/
def write (lg : Log.Logger) (calls : List Log.Call) : IO Unit := do
  for call in calls do
    let written := lg.perform call ⟨[], ← secondsNow⟩
    IO.print written.text

/-- Draws one event of a progress bar and answers with the number of steps done so far. -/
def draw (label : String) (total done : Int) : Progress.Event Empty → IO Int
  | .opened _ => do
    IO.eprint s!"{label}: 0/{total}"
    return 0
  | .advanced steps => do
    IO.eprint s!"\r{label}: {done + steps}/{total}"
    return done + steps
  | .closed => do
    IO.eprintln ""
    return done

/-- Runs `n` frames of `k` steps, under a progress bar if the session asks for one. -/
def runFrames (s : Session) (n k : Int) (m : Machine) : IO Machine := do
  if s.progress then
    let bar := Machine.frameBar n
    let mut machine := m
    let mut done : Int := 0
    for i in Progress.interval 0 n.toNat do
      machine := machine.runFrame k.toNat
      for event in bar.events (i > 0) i do
        done ← draw (bar.label.render Empty.elim) bar.total done event
    return machine
  else return (s.run n k m).1

/-- Reports an obstacle; the exit status is one. -/
def report (o : Obstacle) : IO UInt32 := do
  IO.eprintln o.message
  return 1

/-- Conducts a session and answers with its exit status. -/
def conduct (s : Session) : IO UInt32 := do
  let isTerminal ← (← IO.getStdout).isTty
  let lg := (s.logger isTerminal ⟨[], ← secondsNow⟩).1
  match ← fetch s.image with
  | .error e => report (.file e)
  | .ok image =>
    match s.start image with
    | .error e =>
      write lg (Session.refusal e)
      return UInt32.ofNat Session.refusalStatus
    | .ok m =>
      write lg s.opening
      match s.counts with
      | .error o => report o
      | .ok (n, k) =>
        let last ← runFrames s n k m
        write lg (Session.closing last)
        return UInt32.ofNat (Session.status last)

end Chip8.CommandLine

/-- The program. -/
def main (arguments : List String) : IO UInt32 := do
  match Chip8.CommandLine.parse arguments with
  | .error .help =>
    IO.print Chip8.CommandLine.helpText
    return 0
  | .error (.complaint c) =>
    IO.eprintln c.line
    return 2
  | .ok (image, settings) =>
    match settings.session image (← IO.monoNanosNow) with
    | .error o => Chip8.CommandLine.report o
    | .ok s => Chip8.CommandLine.conduct s
