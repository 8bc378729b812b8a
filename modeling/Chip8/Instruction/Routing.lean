import Chip8.Text.BinarySize

/-!
# Routing tables

A routing table turns a list of codes into an array that holds, for each value of a field, the
position of its code in the list, and the length of the list for values that have none. A
negative code counts from the end of the table, and of two codes for one value the later wins.

Entries are signed 32-bit numbers, so a list whose length does not fit in one has no table. Sizes and
codes are signed 64-bit numbers. Codes that are all too large for that but fit in 64 bits without a
sign are taken for the numbers with the same bits; other lists with a code out of range are no codes
at all.
-/

set_option autoImplicit false

namespace Chip8.Routing

/-- Why a table cannot be built. -/
inductive Error where
  | negativeSize
  /-- The size is no signed 64-bit number. -/
  | sizeOutOfRange
  /-- The number of bytes is no signed 64-bit number. -/
  | bytesOutOfRange
  /-- There is no room for the table. -/
  | noRoom (size : Nat)
  /-- The number of codes does not fit in an entry. -/
  | entryOutOfRange (count : Nat)
  /-- The codes are not all numbers of one kind. -/
  | notCodes
  | outOfRange (code : Int) (size : Int)
deriving DecidableEq, Repr

/-- The number of bytes of an entry. -/
abbrev entryBytes : Nat := 4

/-- The text of an error. -/
def Error.message : Error → String
  | negativeSize => "negative dimensions are not allowed"
  | sizeOutOfRange => "Maximum allowed dimension exceeded"
  | bytesOutOfRange =>
    "array is too big; \x60arr.size * arr.dtype.itemsize\x60 is larger than the maximum " ++
      "possible size."
  | noRoom size =>
    "Unable to allocate " ++ Text.binarySize (entryBytes * size) ++
      " for an array with shape (" ++ toString size ++ ",) and data type int32"
  | entryOutOfRange count =>
    "Python integer " ++ toString count ++ " out of bounds for int32"
  | notCodes =>
    "only integers, slices (\x60:\x60), ellipsis (\x60...\x60), numpy.newaxis " ++
      "(\x60None\x60) and integer or boolean arrays are valid indices"
  | outOfRange code size =>
    "index " ++ toString code ++ " is out of bounds for axis 0 with size " ++ toString size

/-- Whether a number is a signed 64-bit number. -/
def isSigned (n : Int) : Bool := -0x8000000000000000 ≤ n && n < 0x8000000000000000

/-- Whether a number is a 64-bit number only without a sign. -/
def isUnsigned (n : Int) : Bool := 0x8000000000000000 ≤ n && n < 0x10000000000000000

/-- The number of entries of a table, if there is room for so many bytes. -/
def entries (room : Nat) (size : Int) : Except Error Nat :=
  if !isSigned size then .error .sizeOutOfRange
  else if size < 0 then .error .negativeSize
  else if !isSigned (entryBytes * size) then .error .bytesOutOfRange
  else if room < entryBytes * size.toNat then .error (.noRoom size.toNat)
  else .ok size.toNat

/-- The signed numbers that a list of codes stands for. -/
def signed (codes : List Int) : Except Error (List Int) :=
  if codes.all isSigned then .ok codes
  else if codes.all isUnsigned then .ok (codes.map fun c => c - 0x10000000000000000)
  else .error .notCodes

/-- The value that a code stands for in a table of `size` values. -/
def value? (size : Nat) (code : Int) : Option Nat :=
  if -size ≤ code ∧ code < size then some (code % size).toNat else none

/-- Enters the codes into a table, the first one under position `k`. -/
def enter (table : List Int32) (k : Nat) : List Int → Except Error (List Int32)
  | [] => .ok table
  | c :: cs =>
    match value? table.length c with
    | some p => enter (table.set p (.ofNat k)) (k + 1) cs
    | none => .error (.outOfRange c table.length)

/-- A table of `n` entries that are all `count`. -/
def filled (n count : Nat) : Except Error (List Int32) :=
  if count < 0x80000000 then .ok (List.replicate n (.ofNat count))
  else .error (.entryOutOfRange count)

/-- The routing table of a list of codes, where there is room for so many bytes. -/
def table (room : Nat) (size : Int) (codes : List Int) : Except Error (List Int32) :=
  match entries room size with
  | .error e => .error e
  | .ok n =>
    match filled n codes.length with
    | .error e => .error e
    | .ok blank =>
      match signed codes with
      | .error e => .error e
      | .ok indices => enter blank 0 indices

end Chip8.Routing
