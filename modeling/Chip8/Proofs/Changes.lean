import Chip8.Proofs.Commands

/-!
# Changes that a cycle does not notice

Two runs are often compared that differ in one part of the machine: in what the timers show, in the
dialect, in memory. The second machine is then `T m` for a change `T`, and the question is whether
an instruction, an execution or a step commutes with `T`. What is common to all such questions is
settled here. An `Aside` change has nothing to do with registers, keys and the program counter, so
instructions that only branch or calculate commute with it. An `Unnoticed` change leaves alone all
that a cycle looks at outside of its instruction; `Unnoticed.step_eq` and `Unnoticed.execute_eq` say
that the instruction is then the only thing to ask about. An `Unheeded` change leaves alone, too, what
a host sets by hand (`Unheeded.after_eq`).

The timers and the random source can be changed each by itself (`Machine.beside`), and four
instructions only have to do with them (`effect_beside`).
-/

set_option autoImplicit false

namespace Chip8

namespace Machine

/-- A change of machines that has nothing to do with the registers, the keypads and the program
counter. -/
structure Aside (T : Machine → Machine) : Prop where
  v : ∀ m, (T m).v = m.v
  keypad : ∀ m, (T m).keypad = m.keypad
  lastKeypad : ∀ m, (T m).lastKeypad = m.lastKeypad
  pc : ∀ m, (T m).pc = m.pc
  setV : ∀ m v, { T m with v := v } = T { m with v := v }
  setPc : ∀ m a, { T m with pc := a } = T { m with pc := a }

/-- A change of machines that leaves alone, too, where words are fetched from, what faults are
decided from and the latch. -/
structure Unnoticed (T : Machine → Machine) : Prop extends Aside T where
  faulted : ∀ m, (T m).faulted = m.faulted
  memory : ∀ m, (T m).memory = m.memory
  stack : ∀ m, (T m).stack = m.stack
  index : ∀ m, (T m).index = m.index
  trip : ∀ m f w, (T m).trip f w = T (m.trip f w)
  remember : ∀ m keys, (T m).remember keys = T (m.remember keys)

namespace Aside

variable {T : Machine → Machine} (hT : Aside T)
include hT

/-- The registers read the same. -/
theorem reg (m : Machine) (x : Nibble) : (T m).reg x = m.reg x := by
  rw [Machine.reg, Machine.reg, hT.v]

/-- A register may be set before the change or after it. -/
theorem setReg (m : Machine) (x : Nibble) (b : UInt8) :
    (T m).setReg x b = T (m.setReg x b) := by
  rw [Machine.setReg, Machine.setReg, hT.setV, hT.v]

/-- The program counter moves past the word before the change or after it. -/
theorem fetch (m : Machine) : (T m).fetch.2 = T m.fetch.2 := by
  simp only [Machine.fetch, hT.pc, hT.setPc]

/-- The condition of a skip is decided alike. -/
theorem holds (m : Machine) (c : Condition) : (T m).holds c = m.holds c := by
  cases c
  all_goals simp only [Machine.holds, hT.reg, hT.keypad]

/-- A skip has to do with nothing but registers, keys and the program counter. -/
theorem skip (m : Machine) (c : Condition) :
    (Instruction.skip c).effect (T m) = T ((Instruction.skip c).effect m) := by
  simp only [Instruction.effect, hT.holds, hT.pc]
  split
  · exact hT.setPc m _
  · rfl

/-- What an operation on registers gives may be written before the change or after it. -/
theorem writeOutcome (m : Machine) (x : Nibble) (o : AluOutcome) :
    (T m).writeOutcome x o = T (m.writeOutcome x o) := by
  unfold Machine.writeOutcome
  cases o.flag with
  | none => exact hT.setReg m x _
  | some f => simp only [setFlag, hT.setReg]

/-- A wait takes the same key, or goes on waiting, on both sides. -/
theorem waitKey (m : Machine) (x : Nibble) : (T m).waitKey x = T (m.waitKey x) := by
  have hpress : Keypad.firstPress? (T m).lastKeypad (T m).keypad =
      Keypad.firstPress? m.lastKeypad m.keypad := by rw [hT.keypad, hT.lastKeypad]
  unfold Machine.waitKey
  rw [hpress]
  split
  · exact hT.setReg m x _
  · rw [hT.pc]
    exact hT.setPc m _

end Aside

namespace Unnoticed

variable {T : Machine → Machine} (hT : Unnoticed T) {m : Machine} {w : Word}
include hT

/-- The faults of an instruction are decided from the index and the stack, which are not changed. -/
theorem instruction_fault? (m : Machine) (i : Instruction) : i.fault? (T m) = i.fault? m := by
  have hbase : (T m).base = m.base := by rw [base, base, hT.index]
  cases i
  all_goals simp only [Instruction.fault?, hT.stack, hbase]

/-- A word faults on both sides with the same fault, or on neither. -/
theorem fault? (m : Machine) (w : Word) : (T m).fault? w = m.fault? w := by
  unfold Machine.fault?
  cases Instruction.decode w with
  | none => rfl
  | some i => exact hT.instruction_fault? m i

/-- Both machines are about to execute the same word, or neither executes one. -/
theorem nextWord? (m : Machine) : (T m).nextWord? = m.nextWord? := by
  simp only [Machine.nextWord?, hT.faulted, hT.pc, hT.memory]

/-- If the instruction that a word names commutes with the change, so does its execution. -/
theorem execute_eq (hi : ∀ i, Instruction.Names w i → i.effect (T m) = T (i.effect m)) :
    (T m).execute w = T (m.execute w) := by
  generalize hr : m.execute w = r
  rw [← executes_iff]
  cases executes_iff.mpr hr
  case halted hh =>
    apply Executes.halted
    rw [hT.faulted, hh]
  case refused f hrun hf =>
    rw [← hT.trip]
    apply Executes.refused
    · rw [hT.faulted, hrun]
    · rw [hT.fault?, hf]
  case done i hrun hdecode hf =>
    rw [← hi i (Instruction.decode_eq_some_iff.mp hdecode)]
    apply Executes.done _ hdecode
    · rw [hT.instruction_fault?, hf]
    · rw [hT.faulted, hrun]

/-- If the next instruction commutes with the change, so does the step. -/
theorem step_eq
    (hi : ∀ w, m.nextWord? = some w → ∀ i, Instruction.Names w i →
      i.effect (T m.fetch.2) = T (i.effect m.fetch.2)) :
    (T m).step = T m.step := by
  generalize hr : m.step = r
  rw [← steps_iff]
  cases steps_iff.mpr hr
  case halted hh =>
    apply Steps.halted
    rw [hT.faulted, hh]
  case pastEnd hrun hpc =>
    rw [← hT.trip]
    apply Steps.pastEnd
    · rw [hT.faulted, hrun]
    · rwa [hT.pc]
  case refused w f hrun hpc hw hf =>
    rw [← hT.trip]
    apply Steps.refused
    · rw [hT.faulted, hrun]
    · rwa [hT.pc]
    · rwa [hT.memory, hT.pc]
    · rw [hT.fault?, hf]
  case done w i hrun hpc hw hdecode hf =>
    have hnext := nextWord?_eq_some_iff.mpr ⟨hrun, hw⟩
    rw [← hT.remember, ← hi w hnext i (Instruction.decode_eq_some_iff.mp hdecode), ← hT.fetch,
      ← hT.keypad]
    apply Steps.done _ _ _ hdecode
    · rw [hT.instruction_fault?, hf]
    · rw [hT.faulted, hrun]
    · rwa [hT.pc]
    · rwa [hT.memory, hT.pc]

end Unnoticed

/-! ## What a host sets -/

/-- An unnoticed change that has nothing to do with what a host sets by hand, either. -/
structure Unheeded (T : Machine → Machine) : Prop extends Unnoticed T where
  setKeypad : ∀ m keys, { T m with keypad := keys } = T { m with keypad := keys }
  setMemory : ∀ m bytes, { T m with memory := bytes } = T { m with memory := bytes }
  clearFault : ∀ m, (T m).clearFault = T m.clearFault

/-- Keys, images and cleared faults are the same before the change as after it, and a command that
is refused before is refused after. -/
theorem Unheeded.after_eq {T : Machine → Machine} (hT : Unheeded T) (m : Machine) {c : Command}
    (hc : c.isManual = true) : (T m).after c = T (m.after c) := by
  cases c
  case setKey key down =>
    by_cases hkey : 0 ≤ key ∧ key < 16
    · simp only [after, perform, setKey, if_pos hkey, hT.keypad]
      exact hT.setKeypad m _
    · simp only [after, perform, setKey, if_neg hkey]
      rfl
  case setKeypad keys =>
    simp only [after, perform, Machine.setKeypad]
    cases keys.toKeypad with
    | error e => rfl
    | ok keypad => exact hT.setKeypad m keypad
  case load image =>
    by_cases hsize : image.length ≤ maxImageSize
    · simp only [after, perform, load, if_pos hsize, hT.memory]
      exact hT.setMemory m _
    · simp only [after, perform, load, if_neg hsize]
      rfl
  case clearFault => exact hT.clearFault m
  all_goals cases hc

/-! ## The timers and the random source -/

/-- The delay timer, the sound timer and the random source changed, each by itself. -/
def beside (m : Machine) (f g : UInt8 → UInt8) (h : Random.Key → Random.Key) : Machine :=
  { m with delayTimer := f m.delayTimer, soundTimer := g m.soundTimer, rng := h m.rng }

/-- Timers and random source can be changed without a cycle or a host taking notice. -/
theorem unheeded_beside (f g : UInt8 → UInt8) (h : Random.Key → Random.Key) :
    Unheeded fun m => m.beside f g h where
  v := fun _ => rfl
  keypad := fun _ => rfl
  lastKeypad := fun _ => rfl
  pc := fun _ => rfl
  setV := fun _ _ => rfl
  setPc := fun _ _ => rfl
  faulted := fun _ => rfl
  memory := fun _ => rfl
  stack := fun _ => rfl
  index := fun _ => rfl
  trip := fun _ _ _ => rfl
  remember := fun _ _ => rfl
  setKeypad := fun _ _ => rfl
  setMemory := fun _ _ => rfl
  clearFault := fun _ => rfl

end Machine

namespace Instruction

/-- The instructions that read or set the delay timer. -/
def usesDelay : Instruction → Bool
  | getDelay _ | setDelay _ => true
  | _ => false

/-- The instruction that sets the sound timer. -/
def setsSound : Instruction → Bool
  | setSound _ => true
  | _ => false

/-- The instruction that draws a random byte. -/
def draws : Instruction → Bool
  | random _ _ => true
  | _ => false

/-- An instruction does the same before a change of the timers and the source as after it, if what it
uses of the three is not changed. -/
theorem effect_beside (m : Machine) {f g : UInt8 → UInt8} {h : Random.Key → Random.Key}
    {i : Instruction} (hf : i.usesDelay = true → f = id) (hg : i.setsSound = true → g = id)
    (hh : i.draws = true → h = id) :
    i.effect (m.beside f g h) = (i.effect m).beside f g h := by
  have haside := (Machine.unheeded_beside f g h).toAside
  cases i
  case getDelay | setDelay =>
    obtain rfl := hf rfl
    rfl
  case setSound =>
    obtain rfl := hg rfl
    rfl
  case random =>
    obtain rfl := hh rfl
    rfl
  case skip c => exact haside.skip m c
  case alu op x y => exact haside.writeOutcome m x _
  case waitKey x => exact haside.waitKey m x
  case store x | load x =>
    rw [effect, effect, Machine.moveIndex_eq, Machine.moveIndex_eq]
    rfl
  all_goals rfl

end Instruction

end Chip8
