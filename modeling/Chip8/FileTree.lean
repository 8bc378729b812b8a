import Chip8.Text.Quoted

/-!
# File trees

A file tree holds files in directories, and one of the directories is the current one. A file is
named by a walk: the parts of the name between slashes are its steps, taken from left to right.
The first step that cannot be taken decides the complaint.
-/

set_option autoImplicit false

namespace Chip8

/-- Why a walk does not end at a file. -/
inductive WalkError where
  /-- Nothing has the name. -/
  | missing
  /-- A step leads on from a file. -/
  | notDirectory
  /-- The walk ends at a directory. -/
  | isDirectory
  /-- The name, or a part of it, has too many bytes. -/
  | tooLong
deriving DecidableEq, Repr

namespace WalkError

/-- Every reason. -/
def all : List WalkError := [missing, notDirectory, isDirectory, tooLong]

/-- The number of a reason. -/
def code : WalkError → Nat
  | missing => 2
  | notDirectory => 20
  | isDirectory => 21
  | tooLong => 36

/-- The reason with a number. -/
def ofCode? (code : Nat) : Option WalkError := all.find? fun e => e.code == code

/-- A reason in words. -/
def reason : WalkError → String
  | missing => "No such file or directory"
  | notDirectory => "Not a directory"
  | isDirectory => "Is a directory"
  | tooLong => "File name too long"

end WalkError

/-- Why a file cannot be read. -/
inductive FileError where
  | walk (e : WalkError) (name : String)
  /-- The name holds the null character, which no name may. -/
  | nullInName
deriving DecidableEq, Repr

/-- The complaint about a file that cannot be read. -/
def FileError.message : FileError → String
  | walk e name =>
    "[Errno " ++ toString e.code ++ "] " ++ e.reason ++ ": " ++ Text.quoted name
  | nullInName => "embedded null byte"

/-- The names of the directories from the root down to a place, and its own. -/
abbrev Path := List String

/-- A file tree. Its directories are those that a path in it passes through. -/
structure FileTree where
  /-- The files by their paths. -/
  files : List (Path × List UInt8)
  /-- The paths of directories. -/
  directories : List Path := []
  /-- The directory where a name starts that does not begin with a slash. -/
  current : Path

namespace FileTree

/-- One step of a walk. -/
inductive Step where
  | stay
  | up
  | into (name : String)
deriving DecidableEq, Repr

namespace Step

/-- The step that a part of a name stands for. -/
def ofPart (part : List Char) : Step :=
  if part = [] ∨ part = ['.'] then stay
  else if part = ['.', '.'] then up
  else into (String.ofList part)

/-- The path that a step leads to. There is nothing above the root. -/
def follow (path : Path) : Step → Path
  | stay => path
  | up => path.dropLast
  | into name => path ++ [name]

end Step

/-- The part of a name before the first slash, and the parts after it. -/
def parts : List Char → List Char × List (List Char)
  | [] => ([], [])
  | c :: cs =>
    let rest := parts cs
    if c = '/' then ([], rest.1 :: rest.2) else (c :: rest.1, rest.2)

/-- The walk that a name stands for. -/
def steps (name : String) : List Step :=
  let cut := parts name.toList
  (cut.1 :: cut.2).map Step.ofPart

/-- The greatest number of bytes of a part of a name. -/
abbrev maxPartBytes : Nat := 255

/-- The greatest number of bytes of a name. -/
abbrev maxNameBytes : Nat := 4095

/-- Where a walk has got to. -/
inductive Place where
  | directory (path : Path)
  | file (content : List UInt8)
deriving DecidableEq, Repr

/-- Whether a path is that of a directory, which lies on the way to something in the tree. -/
def isDirectory (tree : FileTree) (path : Path) : Bool :=
  path.isPrefixOf tree.current || tree.directories.any (fun d => path.isPrefixOf d) ||
    tree.files.any fun f => path.isPrefixOf f.1

/-- What is at a path. -/
def at? (tree : FileTree) (path : Path) : Option Place :=
  match tree.files.lookup path with
  | some content => some (.file content)
  | none => if tree.isDirectory path then some (.directory path) else none

/-- Takes one step. -/
def advance (tree : FileTree) (s : Step) : Place → Except WalkError Place
  | .file _ => .error .notDirectory
  | .directory path =>
    match s with
    | .into name =>
      if maxPartBytes < name.utf8ByteSize then .error .tooLong
      else
        match tree.at? (s.follow path) with
        | some place => .ok place
        | none => .error .missing
    | _ => .ok (.directory (s.follow path))

/-- Takes the steps of a walk. -/
def walk (tree : FileTree) (place : Place) : List Step → Except WalkError Place
  | [] => .ok place
  | s :: rest =>
    match tree.advance s place with
    | .ok next => tree.walk next rest
    | .error e => .error e

/-- The directory where a name starts. -/
def origin (tree : FileTree) (name : String) : Path :=
  if name.toList.head? = some '/' then [] else tree.current

/-- The content of the file that a name leads to. -/
def find (tree : FileTree) (name : String) : Except WalkError (List UInt8) :=
  if name = "" then .error .missing
  else if maxNameBytes < name.utf8ByteSize then .error .tooLong
  else
    match tree.walk (.directory (tree.origin name)) (steps name) with
    | .ok (.file content) => .ok content
    | .ok (.directory _) => .error .isDirectory
    | .error e => .error e

/-- The content of a file. -/
def read (tree : FileTree) (name : String) : Except FileError (List UInt8) :=
  if name.toList.contains '\x00' then .error .nullInName
  else (tree.find name).mapError fun e => .walk e name

/-- The tree with a file of the given name. -/
def write (tree : FileTree) (name : String) (content : List UInt8) : FileTree :=
  let path := (steps name).foldl Step.follow (tree.origin name)
  { tree with files := (path, content) :: tree.files }

end FileTree

end Chip8
