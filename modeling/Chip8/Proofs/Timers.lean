import Chip8.Proofs.Changes
import Chip8.Proofs.Halting

/-!
# Who sees the timers

Three instructions look at the timers or set them: `FX07`, `FX15` and `FX18`. Every other one acts
the same whatever the timers show, and leaves them alone (`effect_elapse`). The same goes for a
step that executes none of the three, be it that it executes another word, that the word is
refused, or that the machine has halted or run off the end of memory (`step_elapse`). So ticks can
be moved past such steps, and the ticks of frames can all be made at the end: `ticks_unseen` says
so, for any number of frames of any length.
-/

set_option autoImplicit false

namespace Chip8

/-- The word is `FX07`, `FX15` or `FX18`. -/
def Word.IsTimer (w : Word) : Prop :=
  w.toNat / 4096 = 0xF ∧ w.toNat % 256 ∈ [0x07, 0x15, 0x18]

instance : DecidablePred Word.IsTimer := fun _ => inferInstanceAs (Decidable (_ ∧ _))

namespace Machine

/-- Time that has gone by is noticed by instructions that use the timers, and by nothing else. -/
theorem unnoticed_elapse (n : Nat) : Unnoticed (fun m => m.elapse n) :=
  (unheeded_beside (countDown · n) (countDown · n) id).toUnnoticed

end Machine

namespace Instruction

/-- The instructions that read or set a timer. -/
def usesTimer : Instruction → Bool
  | getDelay _ | setDelay _ | setSound _ => true
  | _ => false

/-- An instruction that uses no timer does the same before ticks as after them. -/
theorem effect_elapse (m : Machine) (n : Nat) {i : Instruction} (h : i.usesTimer = false) :
    i.effect (m.elapse n) = (i.effect m).elapse n := by
  have hdelay : i.usesDelay = false := by
    cases i
    case getDelay | setDelay => cases h
    all_goals rfl
  have hsound : i.setsSound = false := by
    cases i
    case setSound => cases h
    all_goals rfl
  apply effect_beside (f := (Machine.countDown · n)) (g := (Machine.countDown · n)) (h := id) m
  · intro huses
    rw [hdelay] at huses
    cases huses
  · intro hsets
    rw [hsound] at hsets
    cases hsets
  · exact fun _ => rfl

/-- Only the three words name an instruction that uses a timer. -/
theorem usesTimer_eq_false {w : Word} {i : Instruction} (hi : Names w i) (hw : ¬ w.IsTimer) :
    i.usesTimer = false := by
  cases i
  case getDelay x | setDelay x | setSound x =>
    have hlow := hi.2
    refine absurd ⟨hi.1.1, ?_⟩ hw
    rw [hlow]
    decide
  all_goals rfl

end Instruction

namespace Machine

variable {m : Machine}

/-- Ticks can be moved past a step that executes none of the three words. -/
theorem step_elapse (hw : ∀ w, m.nextWord? = some w → ¬ w.IsTimer) (n : Nat) :
    (m.elapse n).step = m.step.elapse n := by
  apply (unnoticed_elapse n).step_eq
  intro w hnext i hi
  exact Instruction.effect_elapse m.fetch.2 n (Instruction.usesTimer_eq_false hi (hw w hnext))

/-- Ticks can be moved past a run that executes none of the three words. -/
theorem run_elapse {k : Nat}
    (hw : ∀ i, i < k → ∀ w, (m.run i).nextWord? = some w → ¬ w.IsTimer) (n : Nat) :
    (m.elapse n).run k = (m.run k).elapse n := by
  induction k with
  | zero => rfl
  | succ k ih =>
    rw [run_succ, run_succ, ih fun i hi => hw i (Nat.lt_succ_of_lt hi)]
    exact step_elapse (hw k (Nat.lt_succ_self k)) n

/-- The ticks of frames can all be made at the end, if their steps execute none of the three
words. -/
theorem runFrames_eq_elapse {n k : Nat}
    (hw : ∀ i, i < n * k → ∀ w, (m.run i).nextWord? = some w → ¬ w.IsTimer) :
    m.runFrames n k = (m.run (n * k)).elapse n := by
  induction n with
  | zero =>
    rw [Nat.zero_mul]
    exact m.elapse_zero.symm
  | succ n ih =>
    rw [Nat.succ_mul] at hw
    -- the steps of the last frame are those of the plain run behind the first `n * k`
    have hlast : ∀ i, i < k → ∀ w, ((m.run (n * k)).run i).nextWord? = some w → ¬ w.IsTimer := by
      intro i hi w hnext
      rw [← run_add] at hnext
      exact hw (n * k + i) (Nat.add_lt_add_left hi _) w hnext
    rw [runFrames_succ, ih fun i hi => hw i (Nat.lt_add_right k hi), run_elapse hlast,
      tick_eq_elapse, elapse_add, ← run_add, Nat.succ_mul]

/-- The machine `r` is the machine `m` in all but the timers. -/
def SameButTimers (m r : Machine) : Prop :=
  r = { m with delayTimer := r.delayTimer, soundTimer := r.soundTimer }

/-- Machines that stand at different times differ in their timers only. -/
theorem sameButTimers_elapse (m : Machine) (a b : Nat) :
    (m.elapse a).SameButTimers (m.elapse b) := rfl

/-- A step that executes none of `FX07`, `FX15` and `FX18`, be it that it executes nothing at all,
commutes with a tick. When the plain run of `n * k` steps executes none of them, `n` frames of `k`
steps are that run and `n` ticks after it, and any other division of the steps into frames differs
in the timers at most. -/
theorem ticks_unseen (m : Machine) :
    ((∀ w, m.nextWord? = some w → ¬ w.IsTimer) → m.tick.step = m.step.tick) ∧
    (∀ n k, (∀ i, i < n * k → ∀ w, (m.run i).nextWord? = some w → ¬ w.IsTimer) →
      m.runFrames n k = tick^[n] (m.run (n * k)) ∧
      ∀ n' k', n' * k' = n * k → (m.runFrames n k).SameButTimers (m.runFrames n' k')) := by
  constructor
  · intro hw
    rw [tick_eq_elapse, tick_eq_elapse]
    exact step_elapse hw 1
  · intro n k hw
    have hframes := runFrames_eq_elapse hw
    refine ⟨?_, fun n' k' hsame => ?_⟩
    · rw [iterate_tick]
      exact hframes
    · rw [hframes, runFrames_eq_elapse (by rwa [hsame]), hsame]
      exact sameButTimers_elapse _ n n'

/-- A machine that counts a register up in a loop of two instructions while both timers run. -/
def counting : Machine := { bare [0x70, 0x01, 0x12, 0x00] with delayTimer := 9, soundTimer := 1 }

/-- Six steps of the loop make two frames of three steps, with two ticks at their end, or three
frames of two steps; and its first step commutes with a tick. -/
theorem ticks_unseen_counting :
    (∀ i, i < 2 * 3 → ∀ w, (counting.run i).nextWord? = some w → ¬ w.IsTimer) ∧
      counting.tick.step = counting.step.tick ∧
      counting.runFrames 2 3 = tick^[2] (counting.run 6) ∧
      (counting.runFrames 2 3).SameButTimers (counting.runFrames 3 2) := by
  have hloop : ∀ i, i < 2 * 3 → ∀ w, (counting.run i).nextWord? = some w → ¬ w.IsTimer := by
    intro i hi
    have hword : (counting.run i).nextWord? = some 0x7001 ∨
        (counting.run i).nextWord? = some 0x1200 := by
      interval_cases i
      all_goals decide +kernel
    rintro w hw
    rcases hword with h | h
    all_goals
      rw [h] at hw
      cases hw
      decide
  obtain ⟨hstep, hframes⟩ := ticks_unseen counting
  obtain ⟨hticks, hsame⟩ := hframes 2 3 hloop
  exact ⟨hloop, hstep (hloop 0 (by decide)), hticks, hsame 3 2 rfl⟩

end Machine

end Chip8
