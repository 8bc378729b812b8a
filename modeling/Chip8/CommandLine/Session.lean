import Chip8.CommandLine.Arguments
import Chip8.FileTree
import Chip8.Log
import Chip8.Machine.Command
import Chip8.Machine.Summary
import Chip8.Machine.Watched

/-!
# Sessions

A session loads an image, runs it for a number of frames and reports the machine it ends with.
What it writes is a list of calls to the log: `opening` before the run, `closing` after it. The
exit status is two for an image that does not fit, one for a machine that halted on a fault, and
zero otherwise. Neither the level of the log nor the progress bar has a part in it. A setting
left blank stops the session at the point where it is needed, and so do numbers of frames and of
steps that cannot be counted: these not before the run.
-/

set_option autoImplicit false

namespace Chip8.CommandLine

/-- A setting that is needed and was left blank. -/
inductive Blank where
  | level
  | seed
  | dialect
  /-- The number of frames, or that of steps in a frame. -/
  | count
deriving DecidableEq, Repr

/-- What is said about an empty list in the place of a setting. -/
def Blank.message : Blank → String
  | level => "'list' object has no attribute 'upper'"
  | seed =>
    "PRNGKey accepts a scalar seed, but was given an array of shape (0,) != (). " ++
      "Use jax.vmap for batching"
  | dialect => "unhashable type: 'list'"
  | count =>
    "Non-hashable static arguments are not supported. An error occurred while trying to hash " ++
      "an object of type <class 'list'>, []. The error was:\n" ++
      "TypeError: unhashable type: 'list'\n"

/-- Why a session stops before its end. -/
inductive Obstacle where
  | blank (b : Blank)
  | count (e : Count.Overflow)
  | seed (e : Random.Key.SeedError)
  | file (e : FileError)
deriving DecidableEq, Repr

/-- The text of an obstacle. -/
def Obstacle.message : Obstacle → String
  | blank b => b.message
  | count e => e.message
  | seed e => e.message
  | file e => e.message

/-- What a command line asks for, once its level, seed and dialect are known. -/
structure Session where
  image : String
  level : Log.Level
  /-- The random source of the machine. -/
  key : Random.Key
  /-- The name of the dialect and the dialect. -/
  dialect : String × Dialect
  frames : Setting Int
  stepsPerFrame : Setting Int
  progress : Bool

/-- What a session leaves behind. -/
structure Outcome where
  /-- The exit status, or what stopped the session. -/
  status : Except Obstacle Nat
  /-- What it asks the log to write. -/
  calls : List Log.Call
  /-- What its progress bar shows. -/
  events : List (Progress.Event Empty)

/-- The entries of a summary. -/
def summaryEntries (s : Summary) : List (String × Log.Value) :=
  [("pc", .text s.pc),
   ("I", .text s.index),
   ("V", .text s.registers),
   ("stack_depth", .number s.stackDepth),
   ("delay_timer", .number s.delayTimer),
   ("sound_timer", .number s.soundTimer),
   ("lit_pixels", .number s.litPixels)]

/-- A number as the report of a configuration shows it. -/
def Setting.shown : Setting Int → Log.Value
  | blank => .text "[]"
  | value n => .number n

namespace Settings

/-- The key of the random source: that of the seed, or else one from the clock. -/
def key (settings : Settings) (nanoseconds : Int) : Except Obstacle Random.Key :=
  match settings.seed with
  | some (.value seed) => (Random.Key.ofSeed seed).mapError .seed
  | some .blank => .error (.blank .seed)
  | none => .ok (.ofNanoseconds nanoseconds)

/-- The session that settings describe. Of several obstacles the level is met first, then the
seed, then the dialect. -/
def session (settings : Settings) (image : String) (nanoseconds : Int) :
    Except Obstacle Session :=
  match settings.level with
  | .blank => .error (.blank .level)
  | .value level =>
    match settings.key nanoseconds with
    | .error e => .error e
    | .ok key =>
      match settings.dialect with
      | .blank => .error (.blank .dialect)
      | .value dialect =>
        .ok
          { image, level, key, dialect
            frames := settings.frames
            stepsPerFrame := settings.stepsPerFrame
            progress := settings.progress }

end Settings

namespace Session

/-- The configuration that is reported at the start. -/
def configuration (s : Session) : List (String × Log.Value) :=
  [("rom", .text s.image),
   ("frames", s.frames.shown),
   ("instructions_per_frame", s.stepsPerFrame.shown),
   ("quirks", .text s.dialect.1)]

/-- The machine that a session starts from. -/
def start (s : Session) (image : List UInt8) : Except Oversize Machine :=
  (Machine.powerOn s.key s.dialect.2).load image

/-- What the log gets before the run. -/
def opening (s : Session) : List Log.Call :=
  [.record ⟨.debug, "Quirks: " ++ s.dialect.2.describe⟩, .sessionStart s.configuration]

/-- The numbers of frames and of steps in a frame, if neither is blank and both can be
counted. -/
def counts (s : Session) : Except Obstacle (Int × Int) :=
  match s.frames, s.stepsPerFrame with
  | .value n, .value k =>
    match Machine.frameCounts s.progress n k with
    | .ok _ => .ok (n, k)
    | .error e => .error (.count e)
  | _, _ => .error (.blank .count)

/-- The machine after `n` frames of `k` steps, and what the progress bar showed during them. A
negative number counts as zero. -/
def run (s : Session) (n k : Int) (m : Machine) : Machine × List (Progress.Event Empty) :=
  if s.progress then
    let watched := m.watchFrames n k
    (watched.final, watched.events)
  else (m.runFrames n.toNat k.toNat, [])

/-- What the log gets after a run that ends with the machine `m`. -/
def closing (m : Machine) : List Log.Call :=
  .sessionEnd (summaryEntries m.summary) ::
    match m.faultReport? with
    | some r => [.fault r.name r.message]
    | none => []

/-- The exit status of a run that ends with the machine `m`. -/
def status (m : Machine) : Nat := if m.faulted then 1 else 0

/-- The exit status of an image that does not fit. -/
abbrev refusalStatus : Nat := 2

/-- What the log gets of an image that does not fit. -/
def refusal (e : Oversize) : List Log.Call := [.fault Oversize.name e.message]

/-- The whole session. -/
def conduct (s : Session) (image : List UInt8) : Outcome :=
  match s.start image with
  | .error e => ⟨.ok refusalStatus, refusal e, []⟩
  | .ok m =>
    match s.counts with
    | .error e => ⟨.error e, s.opening, []⟩
    | .ok (n, k) =>
      let ran := s.run n k m
      ⟨.ok (status ran.1), s.opening ++ closing ran.1, ran.2⟩

/-- The logger of a session: its threshold is the level asked for and it stamps its lines. -/
def logger (s : Session) (isTerminal : Bool) (clock : Log.Clock) : Log.Logger × Log.Clock :=
  let now := clock.read
  (⟨s.level, isTerminal, true, now.1⟩, now.2)

/-- All that a session writes to something other than a terminal, given its outcome and a
clock. -/
def transcript (s : Session) (o : Outcome) (clock : Log.Clock) : String :=
  let made := s.logger false clock
  made.1.transcript o.calls made.2

end Session

/-- How a command line ends. -/
inductive Ending where
  /-- The arguments lead to no session. -/
  | dismissed (d : Dismissal)
  /-- There is no session, or no image for it. -/
  | stopped (o : Obstacle)
  | conducted (s : Session) (o : Outcome)

/-- The outcome of a command line, given the files and the time. -/
def execute (arguments : List String) (tree : FileTree) (nanoseconds : Int) : Ending :=
  match parse arguments with
  | .error d => .dismissed d
  | .ok (image, settings) =>
    match settings.session image nanoseconds with
    | .error o => .stopped o
    | .ok s =>
      match tree.read image with
      | .error e => .stopped (.file e)
      | .ok bytes => .conducted s (s.conduct bytes)

end Chip8.CommandLine
