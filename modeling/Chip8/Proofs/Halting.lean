import Chip8.Proofs.Atomicity
import Chip8.Proofs.Stacks

/-!
# Splitting runs, and runs that halt

A run is the step function iterated, so it can be stopped after any number of steps or frames and
taken up again. A fault can come at any step of any frame; from there on nothing but the clock of
the frames goes on. `Machine.elapse` is what the clock does by itself, `n` ticks at once, and
`Machine.Idle` says of a machine that it steps to itself however far its timers have come down.
An idle machine is all that is left of a run (`Idle.run`) and of frames (`Idle.runFrames`), and a
machine with a latched fault is idle. `runs_split_and_halt` is the top.

Counts are natural numbers here. How large a count a host may ask for is a matter of commands and
not of runs.
-/

set_option autoImplicit false

namespace Chip8.Machine

variable {m : Machine}

/-! ## Runs are iterated steps -/

/-- A run is the step, iterated. -/
theorem run_eq_iterate (m : Machine) (n : Nat) : m.run n = step^[n] m := by
  induction n generalizing m with
  | zero => rfl
  | succ n ih => exact ih m.step

/-- Frames can be split at any frame. -/
theorem runFrames_add (m : Machine) (a b k : Nat) :
    m.runFrames (a + b) k = (m.runFrames a k).runFrames b k := by
  induction a generalizing m with
  | zero =>
    rw [Nat.zero_add]
    rfl
  | succ a ih =>
    rw [Nat.add_right_comm]
    exact ih (m.runFrame k)

/-- The last frame is a run and a tick. -/
theorem runFrames_succ (m : Machine) (n k : Nat) :
    m.runFrames (n + 1) k = ((m.runFrames n k).run k).tick := runFrames_add m n 1 k

/-! ## The clock by itself -/

/-- What a timer shows `n` ticks later: it counts down and stops at zero. -/
def countDown (t : UInt8) (n : Nat) : UInt8 := UInt8.ofNat (t.toNat - n)

/-- The subtraction of natural numbers stops at zero, as the timer does. -/
theorem toNat_countDown (t : UInt8) (n : Nat) : (countDown t n).toNat = t.toNat - n := by
  rw [countDown, UInt8.toNat_ofNat_of_lt' (Nat.lt_of_le_of_lt (Nat.sub_le _ _) t.toNat_lt)]

/-- No ticks, no change. -/
theorem countDown_zero (t : UInt8) : countDown t 0 = t := by
  apply UInt8.toNat_inj.mp
  rw [toNat_countDown, Nat.sub_zero]

/-- Ticks add up, also past zero. -/
theorem countDown_add (t : UInt8) (a b : Nat) :
    countDown (countDown t a) b = countDown t (a + b) := by
  apply UInt8.toNat_inj.mp
  rw [toNat_countDown, toNat_countDown, toNat_countDown, Nat.sub_add_eq]

/-- One tick of a timer does not wrap below zero. -/
theorem countDown_one (t : UInt8) : (if t = 0 then 0 else t - 1) = countDown t 1 := by
  apply UInt8.toNat_inj.mp
  rw [toNat_countDown]
  split
  · rename_i hzero
    rw [hzero]
    rfl
  · rename_i hne
    have hpred := CallStack.toNat_pred hne
    omega

/-- The machine `n` ticks later. -/
def elapse (m : Machine) (n : Nat) : Machine :=
  { m with
    delayTimer := countDown m.delayTimer n
    soundTimer := countDown m.soundTimer n }

/-- No ticks, no change of the machine. -/
theorem elapse_zero (m : Machine) : m.elapse 0 = m := by
  simp only [elapse, countDown_zero]

/-- Ticks of a machine add up. -/
theorem elapse_add (m : Machine) (a b : Nat) : (m.elapse a).elapse b = m.elapse (a + b) := by
  simp only [elapse, countDown_add]

/-- A tick of the machine is a tick of both of its timers. -/
theorem tick_eq_elapse (m : Machine) : m.tick = m.elapse 1 := by
  simp only [tick, elapse, countDown_one]

/-- Iterated ticks are the time that has gone by. -/
theorem iterate_tick (m : Machine) (n : Nat) : tick^[n] m = m.elapse n := by
  induction n with
  | zero => exact m.elapse_zero.symm
  | succ n ih => rw [Function.iterate_succ_apply', ih, tick_eq_elapse, elapse_add]

/-! ## Machines that no step moves -/

/-- A machine is idle if it steps to itself, now and however far its timers have come down. -/
def Idle (m : Machine) : Prop := ∀ n, (m.elapse n).step = m.elapse n

/-- A halted machine is idle: its fault is never replaced. -/
theorem idle_of_faulted (h : m.faulted = true) : m.Idle := fun _ => step_of_faulted h

namespace Idle

/-- An idle machine steps to itself. -/
theorem step_eq (h : m.Idle) : m.step = m := by
  rw [← m.elapse_zero]
  exact h 0

/-- A machine that is idle stays so while its timers come down. -/
theorem elapse (h : m.Idle) (a : Nat) : (m.elapse a).Idle := by
  intro n
  rw [elapse_add]
  exact h (a + n)

/-- A run of an idle machine goes nowhere. -/
theorem run (h : m.Idle) (n : Nat) : m.run n = m := by
  rw [run_eq_iterate]
  exact Function.iterate_fixed h.step_eq n

/-- Frames of an idle machine are ticks. -/
theorem runFrames (h : m.Idle) (n k : Nat) : m.runFrames n k = m.elapse n := by
  induction n with
  | zero => exact m.elapse_zero.symm
  | succ n ih => rw [runFrames_succ, ih, (h.elapse n).run, tick_eq_elapse, elapse_add]

end Idle

/-! ## The step at which a run halts -/

/-- The machine runs for `j` steps, and the last of them latches a fault. -/
structure HaltsAt (m : Machine) (j : Nat) : Prop where
  halted : (step^[j] m).faulted = true
  running : ∀ i, i < j → (step^[i] m).faulted = false

/-- From the step on that latches a fault, a run has come to its end. -/
theorem HaltsAt.run_eq {j n : Nat} (h : m.HaltsAt j) (hle : j ≤ n) : m.run n = step^[j] m := by
  obtain ⟨d, rfl⟩ := Nat.exists_eq_add_of_le hle
  rw [run_add, run_eq_iterate m j]
  exact (idle_of_faulted h.halted).run d

/-- The step that latches a fault changes nothing else. -/
theorem HaltsAt.sameButLatch {j : Nat} (h : m.HaltsAt j) (hpos : 1 ≤ j) :
    (step^[j - 1] m).SameButLatch (step^[j] m) := by
  obtain ⟨i, rfl⟩ := Nat.exists_eq_add_of_le' hpos
  have hlast := h.halted
  rw [Function.iterate_succ_apply'] at hlast ⊢
  exact sameButLatch_step hlast

/-- A run can be split at any step, and frames can be split at any frame. When the `j`-th step of a
machine is the first to latch a fault, every run of `j` steps or more ends with the machine after
that step, which is the one before it in all but the latch. Frames leave a machine that carries a
fault as it is, and count each of its timers down by one a frame, to zero at most. -/
theorem runs_split_and_halt (m : Machine) :
    (∀ a b, m.run (a + b) = (m.run a).run b) ∧
    (∀ a b k, m.runFrames (a + b) k = (m.runFrames a k).runFrames b k) ∧
    (∀ j, 1 ≤ j → m.HaltsAt j → ∀ n, j ≤ n →
      m.run n = step^[j] m ∧ (step^[j - 1] m).SameButLatch (m.run n)) ∧
    (m.faulted = true → ∀ n k,
      m.runFrames n k =
        { m with
          delayTimer := UInt8.ofNat (m.delayTimer.toNat - n)
          soundTimer := UInt8.ofNat (m.soundTimer.toNat - n) }) := by
  refine ⟨run_add m, runFrames_add m, fun j hpos h n hle => ?_, fun h n k => ?_⟩
  · have hrun := h.run_eq hle
    rw [hrun]
    exact ⟨rfl, h.sameButLatch hpos⟩
  · exact (idle_of_faulted h).runFrames n k

/-- A machine that sets a register, then meets a word that is no instruction, with both timers
counting. -/
def stumbling : Machine :=
  { bare [0x60, 0x07, 0x00, 0x00] with delayTimer := 9, soundTimer := 2 }

/-- The second step faults and leaves what the first one did, for any longer run; three frames
later the delay timer shows six, and the sound timer has stopped at zero. -/
theorem runs_split_and_halt_stumbling :
    stumbling.HaltsAt 2 ∧ (stumbling.run 2000000 = step^[2] stumbling) ∧
      (step^[1] stumbling).SameButLatch (stumbling.run 2000000) ∧
      (stumbling.run 2).faulted = true ∧
      (stumbling.run 2).runFrames 3 500 =
        { stumbling.run 2 with delayTimer := 6, soundTimer := 0 } := by
  have hhalt : stumbling.HaltsAt 2 := by
    refine ⟨by decide +kernel, fun i hi => ?_⟩
    obtain rfl | rfl : i = 0 ∨ i = 1 := by omega
    all_goals decide +kernel
  have hfaulted : (stumbling.run 2).faulted = true := by decide +kernel
  obtain ⟨-, -, hlong, -⟩ := runs_split_and_halt stumbling
  obtain ⟨-, -, -, hframes⟩ := runs_split_and_halt (stumbling.run 2)
  have hdelay : (stumbling.run 2).delayTimer = 9 := by decide +kernel
  have hsound : (stumbling.run 2).soundTimer = 2 := by decide +kernel
  obtain ⟨hrun, hsame⟩ := hlong 2 (by decide) hhalt 2000000 (by decide)
  refine ⟨hhalt, hrun, hsame, hfaulted, ?_⟩
  rw [hframes hfaulted 3 500, hdelay, hsound]
  rfl

end Chip8.Machine
