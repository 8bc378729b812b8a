import Chip8.Proofs.Effects
import Chip8.Machine.Watched

/-!
# Steps and runs

`Machine.Steps` is the step function as a relation with one rule for each way a cycle can go: the
machine is halted, the program counter stands past the last word, the word is refused, or its
instruction is carried out. `steps_iff` says that the relation is the function; later files argue
by cases on the rules and do not open `step`. `Machine.Executes` is the same for a word that is
handed over.

Runs are iterated steps. A property that one step keeps is kept by a run (`run_keeps`), and one
that a tick of the timers keeps as well is kept by frames (`runFrames_keeps`).
-/

set_option autoImplicit false

namespace Chip8

/-- The fault that an instruction raises depends on the stack and the index only, so it is the
same before and after the program counter moves past the word. -/
theorem Instruction.fault?_fetch (m : Machine) (i : Instruction) :
    i.fault? m.fetch.2 = i.fault? m := by
  cases i
  all_goals rfl

namespace Machine

/-- The fault that a word raises on a machine, if it raises one. -/
def fault? (m : Machine) (w : Word) : Option Fault :=
  match Instruction.decode w with
  | some i => i.fault? m
  | none => some .decode

/-- A word that decodes faults as its instruction does. -/
theorem fault?_of_decode {m : Machine} {w : Word} {i : Instruction}
    (h : Instruction.decode w = some i) : m.fault? w = i.fault? m := by
  simp only [fault?, h]

/-- Faults are decided alike before and after the program counter has moved on. -/
theorem fault?_fetch (m : Machine) (w : Word) : m.fetch.2.fault? w = m.fault? w := by
  unfold fault?
  cases Instruction.decode w with
  | none => rfl
  | some i => exact i.fault?_fetch m

/-- A word is refused exactly for the fault that it raises. -/
theorem attempt_eq_error_iff {m : Machine} {w : Word} {f : Fault} :
    m.attempt w = .error f ↔ m.fault? w = some f := by
  unfold attempt fault?
  cases Instruction.decode w with
  | none => simp
  | some i => exact Instruction.apply_eq_error_iff

/-- A word is carried out exactly if it names an instruction that raises no fault. -/
theorem attempt_eq_ok_iff {m r : Machine} {w : Word} :
    m.attempt w = .ok r ↔
      ∃ i, Instruction.decode w = some i ∧ i.fault? m = none ∧ r = i.effect m := by
  unfold attempt
  cases Instruction.decode w with
  | none => simp
  | some i => simp [Instruction.apply_eq_ok_iff]

/-- Takes note of the keypad, as a completed step does. -/
def remember (m : Machine) (keys : Keypad) : Machine := { m with lastKeypad := keys }

/-- A machine with a program in place of the font and its program, for worked cases. -/
def bare (program : List UInt8) : Machine :=
  { powerOn ⟨0, 0⟩ .classic with memory := Memory.zero.write programStart program }

/-- One step of a machine, as a relation. -/
inductive Steps (m : Machine) : Machine → Prop where
  /-- A machine with a latched fault stays as it is. -/
  | halted (h : m.faulted = true) : Steps m m
  /-- Past the last word there is nothing to fetch. -/
  | pastEnd (h : m.faulted = false) (hpc : 4094 < m.pc.toNat) : Steps m (m.trip .memory 0)
  /-- A word that raises a fault is latched with it. -/
  | refused {w : Word} {f : Fault} (h : m.faulted = false) (hpc : m.pc.toNat ≤ 4094)
      (hw : m.memory.HoldsWord m.pc.toNat w) (hf : m.fault? w = some f) : Steps m (m.trip f w)
  /-- An instruction that raises none has its effect past the word, and the keypad is
  remembered. -/
  | done {w : Word} {i : Instruction} (h : m.faulted = false) (hpc : m.pc.toNat ≤ 4094)
      (hw : m.memory.HoldsWord m.pc.toNat w) (hi : Instruction.decode w = some i)
      (hf : i.fault? m = none) :
      Steps m ((i.effect m.fetch.2).remember m.keypad)

/-- A step follows the rules. -/
theorem steps_step (m : Machine) : m.Steps m.step := by
  unfold step
  split
  · exact .halted ‹_›
  · have hrun : m.faulted = false := Bool.eq_false_iff.mpr ‹_›
    split
    · have hpc : m.pc.toNat ≤ 4094 := ‹_›
      have hw := m.memory.holdsWord_word hpc
      split
      · rename_i r hr
        obtain ⟨i, hi, hf, rfl⟩ := attempt_eq_ok_iff.mp hr
        rw [i.fault?_fetch] at hf
        -- the effect leaves the keypad alone, so the one remembered is that of `m`
        have hkeys : ∀ keys, keys = m.keypad →
            m.Steps ((i.effect m.fetch.2).remember keys) := by
          rintro keys rfl
          exact .done hrun hpc hw hi hf
        exact hkeys _ (i.effect_keepsHost m.fetch.2).keypad
      · rename_i f hf
        rw [attempt_eq_error_iff, fault?_fetch] at hf
        exact .refused hrun hpc hw hf
    · exact .pastEnd hrun (Nat.lt_of_not_le ‹_›)

/-- The rules exclude each other: a machine steps to one machine only. -/
theorem Steps.unique {m r r' : Machine} (h : m.Steps r) (h' : m.Steps r') : r = r' := by
  cases h
  case halted hh =>
    cases h'
    case halted => rfl
    all_goals simp_all
  case pastEnd hrun hpc =>
    cases h'
    case pastEnd => rfl
    case halted => simp_all
    all_goals omega
  case refused w f hrun hpc hw hf =>
    cases h'
    case halted => simp_all
    case pastEnd => omega
    case refused w' f' _ _ hw' hf' =>
      -- one word at most stands at an address
      obtain rfl := hw.unique hw'
      rw [hf] at hf'
      cases hf'
      rfl
    case done w' i _ _ hw' hi hf' =>
      obtain rfl := hw.unique hw'
      rw [fault?_of_decode hi, hf'] at hf
      cases hf
  case done w i hrun hpc hw hi hf =>
    cases h'
    case halted => simp_all
    case pastEnd => omega
    case refused w' f' _ _ hw' hf' =>
      obtain rfl := hw.unique hw'
      rw [fault?_of_decode hi, hf] at hf'
      cases hf'
    case done w' i' _ _ hw' hi' hf' =>
      obtain rfl := hw.unique hw'
      rw [hi] at hi'
      cases hi'
      rfl

/-- The relation is the step function. -/
theorem steps_iff {m r : Machine} : m.Steps r ↔ m.step = r :=
  ⟨fun h => (m.steps_step).unique h, fun h => h ▸ m.steps_step⟩

/-- The step of a running machine to an instruction that raises no fault. -/
theorem step_of_decode {m : Machine} {w : Word} {i : Instruction} (hrun : m.faulted = false)
    (hw : m.memory.HoldsWord m.pc.toNat w) (hi : Instruction.decode w = some i)
    (hf : i.fault? m = none) : m.step = (i.effect m.fetch.2).remember m.keypad :=
  steps_iff.mp (.done hrun hw.le hw hi hf)

/-- The word that the next step executes, if it executes one: a halted machine executes none, nor
does one whose program counter stands past the last word. -/
def nextWord? (m : Machine) : Option Word :=
  if m.faulted = false ∧ m.pc.toNat ≤ 4094 then some (m.memory.word m.pc) else none

/-- The next word is the one in memory under the program counter of a machine that runs. -/
theorem nextWord?_eq_some_iff {m : Machine} {w : Word} :
    m.nextWord? = some w ↔ m.faulted = false ∧ m.memory.HoldsWord m.pc.toNat w := by
  unfold nextWord?
  constructor
  · intro h
    split at h
    · rename_i hrun
      cases h
      exact ⟨hrun.1, m.memory.holdsWord_word hrun.2⟩
    · cases h
  · rintro ⟨hrun, hw⟩
    rw [if_pos ⟨hrun, hw.le⟩, (m.memory.holdsWord_word hw.le).unique hw]

/-! ## Executing one word -/

/-- The execution of a word that is handed over, as a relation. The rules are those of a step
without the fetch. -/
inductive Executes (m : Machine) (w : Word) : Machine → Prop where
  | halted (h : m.faulted = true) : Executes m w m
  | refused {f : Fault} (h : m.faulted = false) (hf : m.fault? w = some f) :
      Executes m w (m.trip f w)
  | done {i : Instruction} (h : m.faulted = false) (hi : Instruction.decode w = some i)
      (hf : i.fault? m = none) : Executes m w (i.effect m)

/-- Every word has an execution. -/
theorem executes_execute (m : Machine) (w : Word) : m.Executes w (m.execute w) := by
  unfold execute
  split
  · exact .halted ‹_›
  · have hrun : m.faulted = false := Bool.eq_false_iff.mpr ‹_›
    split
    · rename_i r hr
      obtain ⟨i, hi, hf, rfl⟩ := attempt_eq_ok_iff.mp hr
      exact .done hrun hi hf
    · rename_i f hf
      exact .refused hrun (attempt_eq_error_iff.mp hf)

/-- A word has one execution only. -/
theorem Executes.unique {m r r' : Machine} {w : Word} (h : m.Executes w r)
    (h' : m.Executes w r') : r = r' := by
  cases h
  case halted hh =>
    cases h'
    case halted => rfl
    all_goals simp_all
  case refused f hrun hf =>
    cases h'
    case halted => simp_all
    case refused f' _ hf' =>
      rw [hf] at hf'
      cases hf'
      rfl
    case done i _ hi hf' =>
      rw [fault?_of_decode hi, hf'] at hf
      cases hf
  case done i hrun hi hf =>
    cases h'
    case halted => simp_all
    case refused f' _ hf' =>
      rw [fault?_of_decode hi, hf] at hf'
      cases hf'
    case done i' _ hi' hf' =>
      rw [hi] at hi'
      cases hi'
      rfl

/-- Execution as a relation is execution as a function. -/
theorem executes_iff {m r : Machine} {w : Word} : m.Executes w r ↔ m.execute w = r :=
  ⟨fun h => (m.executes_execute w).unique h, fun h => h ▸ m.executes_execute w⟩

/-- A running machine carries out a word that names an instruction which raises no fault. -/
theorem execute_of_names {m : Machine} {w : Word} {i : Instruction} (hrun : m.faulted = false)
    (hw : Instruction.Names w i) (hf : i.fault? m = none) : m.execute w = i.effect m :=
  executes_iff.mp (.done hrun (Instruction.decode_eq_some_iff.mpr hw) hf)

/-! ## Runs -/

/-- A run is made of its parts. -/
theorem run_add (m : Machine) (a b : Nat) : m.run (a + b) = (m.run a).run b := by
  induction a generalizing m with
  | zero => rw [Nat.zero_add]; rfl
  | succ a ih =>
    rw [Nat.add_right_comm]
    exact ih m.step

/-- The last step of a run can be taken by itself. -/
theorem run_succ (m : Machine) (n : Nat) : m.run (n + 1) = (m.run n).step := run_add m n 1

/-- What a step keeps, a run keeps. -/
theorem run_keeps {P : Machine → Prop} (hstep : ∀ m, P m → P m.step) {m : Machine} (h : P m)
    (n : Nat) : P (m.run n) := by
  induction n with
  | zero => exact h
  | succ n ih =>
    rw [run_succ]
    exact hstep _ ih

/-- What a step and a tick keep, frames keep. -/
theorem runFrames_keeps {P : Machine → Prop} (hstep : ∀ m, P m → P m.step)
    (htick : ∀ m, P m → P m.tick) {m : Machine} (h : P m) (n k : Nat) : P (m.runFrames n k) := by
  induction n generalizing m with
  | zero => exact h
  | succ n ih => exact ih (htick _ (run_keeps hstep h k))

end Machine

/-! ## Loops under a progress bar -/

namespace Progress

variable {α σ ι β : Type}

/-- A bar, open or not, takes no part in the loop that it follows. -/
theorem scanFrom_loop (b : Bar α) (number : ι → Int) (body : σ → ι → σ × β) (isOpen : Bool) (s : σ)
    (xs : List ι) :
    (scanFrom b number body isOpen s xs).final = (loop body s xs).1 ∧
      (scanFrom b number body isOpen s xs).outputs = (loop body s xs).2 := by
  induction xs generalizing isOpen s with
  | nil => exact ⟨rfl, rfl⟩
  | cons x xs ih =>
    obtain ⟨hfinal, houtputs⟩ := ih (isOpen || number x == 0) (body s x).1
    exact ⟨hfinal, congrArg (_ :: ·) houtputs⟩

end Progress

namespace Machine

/-- A loop of frames does not look at what it runs over. -/
theorem loop_runFrame (m : Machine) (k : Nat) (xs : List Int) :
    (Progress.loop (fun m _ => (m.runFrame k, ())) m xs).1 = m.runFrames xs.length k := by
  induction xs generalizing m with
  | nil => rfl
  | cons x xs ih => exact ih _

/-- A watched run ends with the machine that the frames lead to. -/
theorem watchFrames_final (m : Machine) (n k : Int) :
    (m.watchFrames n k).final = m.runFrames n.toNat k.toNat := by
  unfold watchFrames Progress.scan
  rw [(Progress.scanFrom_loop _ _ _ _ _ _).1, loop_runFrame]
  simp [Progress.interval]

end Machine

end Chip8
