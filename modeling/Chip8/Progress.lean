import Chip8.Count
import Chip8.Text.Grouped

/-!
# Progress bars

A bar follows a loop of a known number of iterations. It opens at iteration zero, advances by
its stride after every `stride` iterations and by what is left over after the last one, and then
closes. `scan` runs a loop under a bar: its results are those of the loop alone, and beside them
it answers with the events of the bar. A bar that has not been opened shows nothing.
-/

set_option autoImplicit false

namespace Chip8.Progress

/-- What stands beside a bar: a text, or a value that is shown as it is. -/
inductive Label (α : Type) where
  | text (s : String)
  | value (a : α)

/-- What a bar may be asked for. -/
structure Options (α : Type) where
  /-- The number of iterations between two advances. -/
  rate : Option Int := none
  /-- What stands beside the bar. -/
  label : Option (Label α) := none
  /-- Further settings of the bar, by name. -/
  extra : List (String × α) := []

/-- The settings of a bar. -/
structure Bar (α : Type) where
  total : Int
  stride : Int
  label : Label α
  extra : List (String × α)

/-- What a bar shows. -/
inductive Event (α : Type) where
  | opened (bar : Bar α)
  | advanced (steps : Int)
  | closed

variable {α σ ι β : Type}

/-- The stride for `total` iterations: the rate asked for, kept between one and `total`, and
without one a twentieth of `total`, kept between one and fifty. -/
def stride (total : Int) : Option Int → Int
  | none => max 1 (min (total / 20) 50)
  | some rate => max 1 (min rate total)

/-- The settings that a bar makes for itself. -/
def reserved : List String := ["total", "mininterval", "maxinterval", "miniters"]

/-- The text beside a bar that is not given one. -/
def defaultLabel (total : Int) (unit : String) : String :=
  "Emulating (" ++ Text.grouped total ++ " " ++ unit ++ ")"

/-- A label as a text, given the text of each value. -/
def Label.render (value : α → String) : Label α → String
  | .text s => s
  | .value a => value a

namespace Bar

/-- The bar for `total` iterations under some options. -/
def ofOptions (total : Int) (o : Options α) : Bar α where
  total := total
  stride := Progress.stride total o.rate
  label := o.label.getD (.text (defaultLabel total "steps"))
  extra := o.extra.filter fun s => !reserved.contains s.1

/-- Makes sure that the numbers a bar works with can be worked with: the stride and the number of
the last iteration. -/
def check (b : Bar α) : Except Count.Overflow Unit :=
  match Count.check .divisor b.stride, Count.check .right (b.total - 1) with
  | .error e, _ => .error e
  | .ok _, .error e => .error e
  | .ok _, .ok _ => .ok ()

/-- What is left over when the iterations are counted in strides. -/
def remainder (b : Bar α) : Int := b.total % b.stride

/-- What an open bar shows after an iteration. -/
def updates (b : Bar α) (i : Int) : List (Event α) :=
  (if (i + 1) % b.stride = 0 then [.advanced b.stride] else []) ++
  (if b.remainder ≠ 0 ∧ i = b.total - 1 then [.advanced b.remainder] else []) ++
  (if i = b.total - 1 then [.closed] else [])

/-- What a bar shows in an iteration, given whether it has been opened before. -/
def events (b : Bar α) (isOpen : Bool) (i : Int) : List (Event α) :=
  (if i = 0 then [.opened b] else []) ++ (if isOpen || i == 0 then b.updates i else [])

end Bar

/-- What a loop under a bar answers. -/
structure Outcome (σ β α : Type) where
  /-- The state after the last iteration. -/
  final : σ
  /-- The outputs of the iterations. -/
  outputs : List β
  /-- What the bar showed. -/
  events : List (Event α)

/-- The loop `body` alone. -/
def loop (body : σ → ι → σ × β) (s : σ) : List ι → σ × List β
  | [] => (s, [])
  | x :: xs =>
    let here := body s x
    let rest := loop body here.1 xs
    (rest.1, here.2 :: rest.2)

/-- The loop `body` under a bar, where `number` gives the number of an iteration. -/
def scanFrom (b : Bar α) (number : ι → Int) (body : σ → ι → σ × β) (isOpen : Bool) (s : σ) :
    List ι → Outcome σ β α
  | [] => ⟨s, [], []⟩
  | x :: xs =>
    let here := body s x
    let rest := scanFrom b number body (isOpen || number x == 0) here.1 xs
    ⟨rest.final, here.2 :: rest.outputs, b.events isOpen (number x) ++ rest.events⟩

/-- The loop `body` under a bar that has not been opened. -/
def scan (b : Bar α) (number : ι → Int) (body : σ → ι → σ × β) (s : σ) (xs : List ι) :
    Outcome σ β α :=
  scanFrom b number body false s xs

/-- The integers from `first` on, `count` of them. -/
def interval (first : Int) (count : Nat) : List Int :=
  (List.range count).map fun (k : Nat) => first + (k : Int)

end Chip8.Progress
