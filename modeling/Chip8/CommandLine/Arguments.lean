import Chip8.Dialect
import Chip8.Log.Level
import Chip8.Text.Numeral
import Chip8.Text.Quoted

/-!
# Arguments

The command line takes the name of an image and some options. An argument is a separator, an
option, or plain text; negative numbers and texts with a blank are plain although they begin
with a dash. After the separator everything is plain. An option may be written by the beginning
of its name; a beginning that several share is noticed before anything else. Then arguments are
read from left to right, and the first one at fault decides the complaint; a missing image and
arguments left over are noticed at the end.
-/

set_option autoImplicit false

namespace Chip8.CommandLine

/-- The options of the command line. -/
inductive Flag where
  | help
  | frames
  | stepsPerFrame
  | dialect
  | seed
  | level
  | progress
deriving DecidableEq, Repr

namespace Flag

/-- Every option. -/
def all : List Flag := [help, frames, stepsPerFrame, dialect, seed, level, progress]

/-- An option as it is written. -/
def name : Flag → String
  | help => "--help"
  | frames => "--frames"
  | stepsPerFrame => "--instructions-per-frame"
  | dialect => "--quirks"
  | seed => "--seed"
  | level => "--log-level"
  | progress => "--progress"

/-- An option with its short form, if it has one. -/
def title : Flag → String
  | help => "-h/--help"
  | flag => flag.name

/-- The options whose names begin so. -/
def meantBy (s : List Char) : List Flag := all.filter fun f => s.isPrefixOf f.name.toList

end Flag

/-- What is wrong with a command line. -/
inductive Complaint where
  | ambiguous (argument : String) (flags : List Flag)
  | missingImage
  | unrecognized (arguments : List String)
  | valueExpected (flag : Flag)
  | valueIgnored (flag : Flag) (value : String)
  | notAnInteger (flag : Flag) (value : String)
  | notAChoice (flag : Flag) (value : String) (choices : List String)
deriving DecidableEq, Repr

/-- The text of a complaint. -/
def Complaint.message : Complaint → String
  | ambiguous argument flags =>
    "ambiguous option: " ++ argument ++ " could match " ++
      ", ".intercalate (flags.map (·.name))
  | missingImage => "the following arguments are required: rom"
  | unrecognized arguments => "unrecognized arguments: " ++ " ".intercalate arguments
  | valueExpected flag => "argument " ++ flag.title ++ ": expected one argument"
  | valueIgnored flag value =>
    "argument " ++ flag.title ++ ": ignored explicit argument " ++ Text.quoted value
  | notAnInteger flag value =>
    "argument " ++ flag.title ++ ": invalid int value: " ++ Text.quoted value
  | notAChoice flag value choices =>
    "argument " ++ flag.title ++ ": invalid choice: " ++ Text.quoted value ++ " (choose from " ++
      ", ".intercalate (choices.map Text.quoted) ++ ")"

/-- A complaint as the program prints it. -/
def Complaint.line (c : Complaint) : String := "chipvm: error: " ++ c.message

/-- The value of a setting. Two dashes after an equals sign leave it blank, which goes unnoticed
until the setting is needed. -/
inductive Setting (α : Type) where
  | blank
  | value (a : α)
deriving DecidableEq, Repr

/-- The settings of a session. -/
structure Settings where
  /-- The name of the image. -/
  image : Option String := none
  frames : Setting Int := .value 60
  stepsPerFrame : Setting Int := .value 11
  /-- The name of the dialect and the dialect. -/
  dialect : Setting (String × Dialect) := .value ("default", .classic)
  /-- The seed of the random source; without one, the clock provides it. -/
  seed : Option (Setting Int) := none
  level : Setting Log.Level := .value .info
  progress : Bool := false

namespace Settings

/-- Reads an integer for an option. -/
def integer (flag : Flag) (text : String) : Except Complaint Int :=
  match Text.readInt? text with
  | some n => .ok n
  | none => .error (.notAnInteger flag text)

/-- Reads the name of a dialect. -/
def dialectNamed (text : String) : Except Complaint (String × Dialect) :=
  match Dialect.ofName? text with
  | some d => .ok (text, d)
  | none => .error (.notAChoice .dialect text Dialect.names)

/-- Reads the name of a level. -/
def levelNamed (text : String) : Except Complaint Log.Level :=
  match Log.Level.ofName? text with
  | some l => .ok l
  | none => .error (.notAChoice .level text (Log.Level.all.map (·.name)))

/-- What a text stands for as the value of a setting. -/
def fill {α : Type} (read : String → Except Complaint α) (text : String) :
    Except Complaint (Setting α) :=
  if text = "--" then .ok .blank else (read text).map .value

/-- Settings with an option set to a text. -/
def set (s : Settings) (flag : Flag) (text : String) : Except Complaint Settings :=
  match flag with
  | .frames => (fill (integer flag) text).map fun n => { s with frames := n }
  | .stepsPerFrame => (fill (integer flag) text).map fun n => { s with stepsPerFrame := n }
  | .seed => (fill (integer flag) text).map fun n => { s with seed := some n }
  | .dialect => (fill dialectNamed text).map fun d => { s with dialect := d }
  | .level => (fill levelNamed text).map fun l => { s with level := l }
  | .progress | .help => .error (.valueIgnored flag text)

end Settings

/-- What an argument is. -/
inductive Token where
  | separator
  | option (flag : Flag) (value : Option String)
  /-- An option that does not exist. -/
  | unknown (text : String)
  | plain (text : String)
deriving DecidableEq, Repr

namespace Token

/-- Whether a text is a dash and a decimal number, perhaps with a line break after it. -/
def isNegative (s : List Char) : Bool :=
  let isDigit := fun c => (Text.digitValue? c).isSome
  match (if s.getLast? = some '\n' then s.dropLast else s) with
  | '-' :: rest =>
    let after := rest.dropWhile isDigit
    match after with
    | [] => !rest.isEmpty
    | '.' :: places => !places.isEmpty && places.all isDigit
    | _ => false
  | _ => false

/-- What follows the short form of a request for help: further such requests in short form, or a
value that none of them takes. -/
def shortHelp : List Char → Token
  | [] => option .help none
  | 'h' :: rest => shortHelp rest
  | rest => option .help (some (String.ofList rest))

/-- The part of a text before the first equals sign, and what follows the sign. -/
def splitAtEquals (s : List Char) : List Char × Option (List Char) :=
  (s.takeWhile (· != '='),
   match s.dropWhile (· != '=') with
   | [] => none
   | _ :: value => some value)

/-- An argument that begins with two dashes and is more than that, if it names an option. -/
def longOption? (text : String) : Except Complaint (Option Token) :=
  let parts := splitAtEquals text.toList
  match Flag.meantBy parts.1 with
  | [] => .ok none
  | [flag] => .ok (some (option flag (parts.2.map String.ofList)))
  | flags => .error (.ambiguous text flags)

/-- An argument that begins with a dash and is not an option. -/
def dashed (text : String) : Token :=
  if isNegative text.toList || text.toList.contains ' ' then plain text else unknown text

/-- An argument before any separator. -/
def classify (text : String) : Except Complaint Token :=
  match text.toList with
  | ['-', '-'] => .ok separator
  | '-' :: '-' :: _ => (longOption? text).map fun token => token.getD (dashed text)
  | ['-', 'h', '='] => .ok (option .help (some ""))
  | '-' :: 'h' :: '=' :: rest => .ok (shortHelp rest)
  | '-' :: 'h' :: rest => .ok (shortHelp rest)
  | '-' :: _ :: _ => .ok (dashed text)
  | _ => .ok (plain text)

/-- The arguments of a command line. -/
def ofArguments : List String → Except Complaint (List Token)
  | [] => .ok []
  | a :: rest =>
    match classify a with
    | .error e => .error e
    | .ok separator => .ok (separator :: rest.map plain)
    | .ok token => (ofArguments rest).map (token :: ·)

/-- The text of an argument that is not an option. -/
def text : Token → String
  | separator => "--"
  | option flag _ => flag.name
  | unknown text => text
  | plain text => text

end Token

/-- Why a command line leads to no session. -/
inductive Dismissal where
  /-- It asks for help. -/
  | help
  | complaint (c : Complaint)
deriving DecidableEq, Repr

/-- Reads arguments from left to right; `extras` holds those left over so far, last one first.
The separator next to the name of the image belongs to it, any other is left over. -/
def readTokens (s : Settings) (extras : List String) :
    List Token → Except Dismissal (Settings × List String)
  | [] => .ok (s, extras.reverse)
  | .option flag (some value) :: rest =>
    match s.set flag value with
    | .ok s => readTokens s extras rest
    | .error e => .error (.complaint e)
  | .option .help none :: _ => .error .help
  | .option .progress none :: rest => readTokens { s with progress := true } extras rest
  | .option flag none :: .plain value :: rest =>
    match s.set flag value with
    | .ok s => readTokens s extras rest
    | .error e => .error (.complaint e)
  | .option flag none :: _ => .error (.complaint (.valueExpected flag))
  | .separator :: .plain text :: rest =>
    if s.image.isNone then readTokens { s with image := some text } extras rest
    else readTokens s (text :: "--" :: extras) rest
  | .plain text :: .separator :: rest =>
    if s.image.isNone then readTokens { s with image := some text } extras rest
    else readTokens s (text :: extras) (.separator :: rest)
  | .plain text :: rest =>
    if s.image.isNone then readTokens { s with image := some text } extras rest
    else readTokens s (text :: extras) rest
  | token :: rest => readTokens s (token.text :: extras) rest

/-- The image and the settings that a command line asks for. -/
def parse (arguments : List String) : Except Dismissal (String × Settings) :=
  match Token.ofArguments arguments with
  | .error e => .error (.complaint e)
  | .ok tokens =>
    match readTokens {} [] tokens with
    | .error e => .error e
    | .ok (s, extras) =>
      match s.image with
      | none => .error (.complaint .missingImage)
      | some image =>
        if extras.isEmpty then .ok (image, s)
        else .error (.complaint (.unrecognized extras))

end Chip8.CommandLine
