import Chip8.Proofs.Steps
import Chip8.Machine.Command

/-!
# What commands do

`Machine.Obeys` is `Machine.after` as a relation with one rule for each command, and one for
commands that are refused and have no effect. What is to be shown of all commands is shown by cases
on the rules.

A host gives commands one after another (`Machine.afterAll`). A plain run is the sequence of its
steps, and frames are sequences of steps with a tick behind each frame, so what is shown of
sequences holds of runs, of frames, and of both with any other commands in between.
-/

set_option autoImplicit false

namespace Chip8

/-- A change of the error makes no result. -/
theorem mapError_eq_ok {α ε δ : Type} {x : Except ε α} {f : ε → δ} {a : α}
    (h : x.mapError f = .ok a) : x = .ok a := by
  cases x with
  | error e => cases h
  | ok b =>
    cases h
    rfl

/-- A result of `map` comes from a result of what is mapped. -/
theorem map_eq_ok {α β ε : Type} {x : Except ε α} {f : α → β} {b : β} (h : x.map f = .ok b) :
    ∃ a, x = .ok a ∧ b = f a := by
  cases x with
  | error e => cases h
  | ok a =>
    cases h
    exact ⟨a, rfl, rfl⟩

/-- A count passes the check exactly if it fits, and is handed on as it is. -/
theorem Count.check_eq_ok_iff {o : Count.Operand} {n a : Int} :
    check o n = .ok a ↔ fits n = true ∧ a = n := by
  rw [check]
  cases fits n with
  | false => simp
  | true => simp [eq_comm]

namespace Machine

/-- A key that is accepted is one of the sixteen, and only its position is set. -/
theorem setKey_eq_ok {m r : Machine} {key : Int} {down : Bool} (h : m.setKey key down = .ok r) :
    (0 ≤ key ∧ key < 16) ∧ r = { m with keypad := m.keypad.setIfInBounds key.toNat down } := by
  unfold setKey at h
  split at h
  · cases h
    exact ⟨‹_›, rfl⟩
  · cases h

/-- An image that is accepted fits between the program start and the end of memory, and only memory
is written. -/
theorem load_eq_ok {m r : Machine} {image : List UInt8} (h : m.load image = .ok r) :
    image.length ≤ maxImageSize ∧ r = { m with memory := m.memory.write programStart image } := by
  unfold load at h
  split at h
  · cases h
    exact ⟨‹_›, rfl⟩
  · cases h

/-- The machine after one command, as a relation. -/
inductive Obeys (m : Machine) : Command → Machine → Prop where
  | refused {c : Command} {e : Refusal} (h : m.perform c = .error e) : Obeys m c m
  | execute {word : Int} (h : Count.check .instruction word = .ok word) :
      Obeys m (.execute word) (m.executeInt word)
  | step : Obeys m .step m.step
  | run {n : Int} {a : Nat} (h : Count.iterations n = .ok a) : Obeys m (.run n) (m.run a)
  | runFrame {k : Int} {a : Nat} (h : Count.iterations k = .ok a) :
      Obeys m (.runFrame k) (m.runFrame a)
  | runFrames {n k : Int} {a b : Nat} (h : frameCounts false n k = .ok (a, b)) :
      Obeys m (.runFrames n k) (m.runFrames a b)
  | tick : Obeys m .tick m.tick
  | setKey {key : Int} {down : Bool} (h : 0 ≤ key ∧ key < 16) :
      Obeys m (.setKey key down) { m with keypad := m.keypad.setIfInBounds key.toNat down }
  | setKeypad {keys : Switches} {keypad : Keypad} (h : keys.toKeypad = .ok keypad) :
      Obeys m (.setKeypad keys) { m with keypad := keypad }
  | load {image : List UInt8} (h : image.length ≤ maxImageSize) :
      Obeys m (.load image) { m with memory := m.memory.write programStart image }
  | clearFault : Obeys m .clearFault m.clearFault
  | reset {key : Random.Key} : Obeys m (.reset key) (m.reset key)

/-- What an accepted command makes of a machine obeys the meaning of the command. -/
theorem obeys_of_perform {m r : Machine} {c : Command} (h : m.perform c = .ok r) :
    m.Obeys c r := by
  cases c
  case step =>
    cases h
    exact .step
  case tick =>
    cases h
    exact .tick
  case clearFault =>
    cases h
    exact .clearFault
  case reset key =>
    cases h
    exact .reset
  case execute word =>
    obtain ⟨a, ha, rfl⟩ := map_eq_ok (mapError_eq_ok h)
    obtain ⟨-, rfl⟩ := Count.check_eq_ok_iff.mp ha
    exact .execute ha
  case run n =>
    obtain ⟨a, ha, rfl⟩ := map_eq_ok (mapError_eq_ok h)
    exact .run ha
  case runFrame k =>
    obtain ⟨a, ha, rfl⟩ := map_eq_ok (mapError_eq_ok h)
    exact .runFrame ha
  case runFrames n k =>
    obtain ⟨⟨a, b⟩, hab, rfl⟩ := map_eq_ok (mapError_eq_ok h)
    exact .runFrames hab
  case setKey key down =>
    obtain ⟨hkey, rfl⟩ := setKey_eq_ok (mapError_eq_ok h)
    exact .setKey hkey
  case setKeypad keys =>
    obtain ⟨keypad, hkeypad, rfl⟩ := map_eq_ok (mapError_eq_ok h)
    exact .setKeypad hkeypad
  case load image =>
    obtain ⟨hsize, rfl⟩ := load_eq_ok (mapError_eq_ok h)
    exact .load hsize

/-- A command obeys its meaning also when it is refused: it leaves the machine alone then. -/
theorem obeys_after (m : Machine) (c : Command) : m.Obeys c (m.after c) := by
  unfold after
  split
  · exact obeys_of_perform ‹_›
  · exact .refused ‹_›

end Machine

/-! ## Sequences -/

namespace Command

/-- The commands that set keys, load an image or clear a fault. -/
def isManual : Command → Bool
  | .setKey _ _ | .setKeypad _ | .load _ | .clearFault => true
  | _ => false

/-- The commands that make any number of steps. -/
def isRun : Command → Bool
  | .run _ | .runFrame _ | .runFrames _ _ => true
  | _ => false

/-- The commands of a plain run of `n` steps. -/
def steps (n : Nat) : List Command := List.replicate n .step

/-- The commands of `n` frames of `k` steps each. -/
def frames (n k : Nat) : List Command := (List.replicate n (steps k ++ [.tick])).flatten

/-- The single commands that a command stands for: those of its steps and ticks, for runs and frames.
A run that is refused makes none. -/
def unrolled : Command → List Command
  | .run n =>
    match Count.iterations n with
    | .ok a => steps a
    | .error _ => []
  | .runFrame k =>
    match Count.iterations k with
    | .ok a => frames 1 a
    | .error _ => []
  | .runFrames n k =>
    match Machine.frameCounts false n k with
    | .ok (a, b) => frames a b
    | .error _ => []
  | c => [c]

variable {P : Command → Prop} {n k : Nat}

/-- What holds of a single step holds of all commands of a run. -/
theorem forall_mem_steps (hstep : P .step) : ∀ c ∈ steps n, P c := by
  intro c hc
  rw [List.eq_of_mem_replicate hc]
  exact hstep

/-- What holds of a single step and of a tick holds of all commands of some frames. -/
theorem forall_mem_frames (hstep : P .step) (htick : P .tick) : ∀ c ∈ frames n k, P c := by
  intro c hc
  obtain ⟨cs, hcs, hc⟩ := List.mem_flatten.mp hc
  rw [List.eq_of_mem_replicate hcs, List.mem_append, List.mem_singleton] at hc
  rcases hc with hc | rfl
  · exact forall_mem_steps hstep c hc
  · exact htick

/-- No command is left that stands for others. -/
theorem isRun_flatMap_unrolled (cs : List Command) :
    ∀ c ∈ cs.flatMap unrolled, c.isRun = false := by
  intro d hd
  obtain ⟨c, -, hd⟩ := List.mem_flatMap.mp hd
  cases c
  case run n =>
    simp only [unrolled] at hd
    split at hd
    · exact forall_mem_steps (P := fun c => c.isRun = false) rfl d hd
    · cases hd
  case runFrame | runFrames =>
    simp only [unrolled] at hd
    split at hd
    · exact forall_mem_frames (P := fun c => c.isRun = false) rfl rfl d hd
    · cases hd
  -- each of the others stands for itself
  all_goals
    obtain rfl := List.mem_singleton.mp hd
    rfl

end Command

namespace Machine

/-- The machine after a sequence of commands. -/
def afterAll (m : Machine) (cs : List Command) : Machine := cs.foldl after m

/-- Commands are carried out in their order, so a sequence can be cut anywhere. -/
theorem afterAll_append (m : Machine) (cs ds : List Command) :
    m.afterAll (cs ++ ds) = (m.afterAll cs).afterAll ds := List.foldl_append

/-- A run is so many single steps. -/
theorem afterAll_steps (m : Machine) (n : Nat) : m.afterAll (Command.steps n) = m.run n := by
  induction n generalizing m with
  | zero => rfl
  | succ n ih => exact ih m.step

/-- Frames are so many runs, each with a tick behind it. -/
theorem afterAll_frames (m : Machine) (n k : Nat) :
    m.afterAll (Command.frames n k) = m.runFrames n k := by
  induction n generalizing m with
  | zero => rfl
  | succ n ih =>
    have hframe : m.afterAll (Command.steps k ++ [.tick]) = m.runFrame k := by
      rw [afterAll_append, afterAll_steps]
      rfl
    rw [Command.frames, List.replicate_succ, List.flatten_cons, afterAll_append, hframe]
    exact ih (m.runFrame k)

/-- A command leads where the single commands lead that it stands for. -/
theorem afterAll_unrolled (m : Machine) (c : Command) : m.afterAll c.unrolled = m.after c := by
  cases c
  case run n =>
    simp only [Command.unrolled, after, perform]
    cases Count.iterations n with
    | error e => rfl
    | ok a => exact m.afterAll_steps a
  case runFrame k =>
    simp only [Command.unrolled, after, perform]
    cases Count.iterations k with
    | error e => rfl
    | ok a => exact m.afterAll_frames 1 a
  case runFrames n k =>
    simp only [Command.unrolled, after, perform]
    cases frameCounts false n k with
    | error e => rfl
    | ok c => exact m.afterAll_frames c.1 c.2
  all_goals rfl

/-- To carry out commands is to carry out the single commands that they stand for. -/
theorem afterAll_flatMap_unrolled (m : Machine) (cs : List Command) :
    m.afterAll (cs.flatMap Command.unrolled) = m.afterAll cs := by
  induction cs generalizing m with
  | nil => rfl
  | cons c cs ih =>
    rw [List.flatMap_cons, afterAll_append, afterAll_unrolled, ih]
    rfl

end Machine

end Chip8
