import Chip8.Proofs.KeyPresses
import Chip8.Proofs.Halting

/-!
# No second key without the host

While the host does nothing the keypad stays as it is, and a completed step remembers it. So from
the second step of a run on no key counts as gone down (`noted_run`, `noted_inFrame`), and an
`FX0A` that is met then goes back to itself for good: the machine is idle
(`idle_of_atWait`), and what a run or frames make of an idle machine is known. At most the first
step of a run takes a key, which `one_key_for_a_run` says of plain runs and of frames.
-/

set_option autoImplicit false

namespace Chip8

namespace Machine

variable {m : Machine} {x : Nibble}

/-- The machine runs and stands in front of `FX0A`. -/
def AtWait (m : Machine) (x : Nibble) : Prop :=
  ∃ w, m.nextWord? = some w ∧ Instruction.Names w (.waitKey x)

/-- The next step executes `FX0A` to its end: it stores the number of a key and moves on. -/
def TakesKey (m : Machine) : Prop :=
  ∃ x, m.AtWait x ∧ (∃ key : Nibble, m.step.v = (m.setReg x (UInt8.ofNat key.val)).v) ∧
    m.step.pc.toNat = m.pc.toNat + 2

/-- The machine is halted, or it remembers the keypad as it is. -/
def Noted (m : Machine) : Prop := m.faulted = true ∨ m.lastKeypad = m.keypad

/-- Whatever a step does, it ends with a machine that is halted or remembers the keypad. -/
theorem noted_step (m : Machine) : m.step.Noted := by
  cases hstep : m.step.faulted with
  | true => exact .inl hstep
  | false =>
    refine .inr ?_
    rw [step_lastKeypad, if_pos ⟨faulted_of_step hstep, hstep⟩]

/-- From the first step on, a run stands at machines that are halted or remember the keypad. -/
theorem noted_run (m : Machine) {i : Nat} (hpos : 0 < i) : (m.run i).Noted := by
  obtain ⟨n, rfl⟩ := Nat.exists_eq_add_of_le' hpos
  rw [run_succ]
  exact noted_step _

/-! ## Waiting for good -/

/-- In front of `FX0A`, with the keypad remembered, a step leads nowhere. -/
theorem step_eq_self_of_atWait (hnoted : m.Noted) (hx : m.AtWait x) : m.step = m := by
  obtain ⟨w, hnext, hw⟩ := hx
  have hkeys : m.lastKeypad = m.keypad := by
    rcases hnoted with hhalt | hkeys
    · rw [(nextWord?_eq_some_iff.mp hnext).1] at hhalt
      cases hhalt
    · exact hkeys
  have hnone : Keypad.firstPress? m.lastKeypad m.keypad = none := by
    rw [hkeys]
    exact Keypad.firstPress?_self _
  calc
    m.step = m.remember m.keypad := step_waitKey_of_none hnext hw hnone
    _ = m.remember m.lastKeypad := by rw [hkeys]
    _ = m := rfl

/-- Nor does it after any number of ticks, since nothing that counts here is a timer. -/
theorem idle_of_atWait (hnoted : m.Noted) (hx : m.AtWait x) : m.Idle := by
  intro n
  have hnoted' : (m.elapse n).Noted := hnoted
  have hx' : (m.elapse n).AtWait x := hx
  exact step_eq_self_of_atWait hnoted' hx'

/-- A wait takes no key that was noted before: it asks for one that has gone down since. -/
theorem not_takesKey (hnoted : m.Noted) : ¬ m.TakesKey := by
  rintro ⟨x, hx, -, hpc⟩
  rw [step_eq_self_of_atWait hnoted hx] at hpc
  omega

/-! ## Inside of frames -/

/-- The machine `j` steps into frame `f` of a run of frames of `k` steps each; frames and steps
are counted from zero. -/
def inFrame (m : Machine) (k f j : Nat) : Machine := (m.runFrames f k).run j

/-- A frame begins where the frames before it end. -/
theorem inFrame_zero_right (m : Machine) (k f : Nat) : m.inFrame k f 0 = m.runFrames f k := rfl

/-- Behind the first step of the first frame a machine is halted or remembers the keypad. -/
theorem noted_inFrame (m : Machine) {k f j : Nat} (hj : j < k) (hpos : 0 < f + j) :
    (m.inFrame k f j).Noted := by
  unfold inFrame
  cases j with
  | succ j => exact noted_run _ (Nat.succ_pos j)
  | zero =>
    -- the last step was the last one of the frame before, and a tick came after it
    obtain ⟨g, rfl⟩ := Nat.exists_eq_add_of_le' hpos
    rw [runFrames_succ]
    exact noted_run (m.runFrames g k) hj

/-- When a machine is idle inside of a frame, only its timers go on. -/
theorem Idle.inFrame {k f j : Nat} (h : (m.inFrame k f j).Idle) (hj : j ≤ k) {f' j' : Nat}
    (hlater : f < f' ∨ f = f' ∧ j ≤ j') :
    m.inFrame k f' j' = (m.inFrame k f j).elapse (f' - f) := by
  rcases hlater with hlt | ⟨rfl, hle⟩
  · obtain ⟨d, rfl⟩ := Nat.exists_eq_add_of_lt hlt
    obtain ⟨e, rfl⟩ := Nat.exists_eq_add_of_le hj
    have hrest : (m.runFrames f (j + e)).run (j + e) = m.inFrame (j + e) f j := by
      rw [run_add]
      exact h.run e
    have hticked := (h.elapse 1).runFrames d (j + e)
    rw [Machine.inFrame, Nat.add_right_comm, runFrames_add, runFrames_succ, hrest, tick_eq_elapse,
      hticked, elapse_add, (h.elapse (1 + d)).run]
    congr 1
    omega
  · obtain ⟨e, rfl⟩ := Nat.exists_eq_add_of_le hle
    rw [Nat.sub_self, elapse_zero, Machine.inFrame, run_add]
    exact h.run e

/-- Without a command of the host in between, only the first step of a run can take a key. A machine
that stands in front of `FX0A` after one step or more waits there for good: each further step leaves
it as it is. In frames of `k` steps, too, only the first step of the first frame can take a key, and
a machine that later stands in front of `FX0A` is left as it is by every further step, while its
timers count down by one a frame. -/
theorem one_key_for_a_run (m : Machine) (k : Nat) :
    (∀ i, (m.run i).TakesKey → i = 0) ∧
    (∀ i x, 0 < i → (m.run i).AtWait x → ∀ n, i ≤ n →
      (m.run n).step = m.run n ∧ m.run n = m.run i) ∧
    (∀ f j, j < k → (m.inFrame k f j).TakesKey → f = 0 ∧ j = 0) ∧
    (∀ f j x, j < k → 0 < f + j → (m.inFrame k f j).AtWait x →
      (∀ f' j', f < f' ∨ f = f' ∧ j ≤ j' →
        (m.inFrame k f' j').step = m.inFrame k f' j' ∧
        m.inFrame k f' j' = (m.inFrame k f j).elapse (f' - f)) ∧
      ∀ n, f < n → m.runFrames n k = (m.inFrame k f j).elapse (n - f)) := by
  refine ⟨?_, ?_, ?_, ?_⟩
  · intro i htakes
    by_contra hne
    exact not_takesKey (m.noted_run (Nat.pos_of_ne_zero hne)) htakes
  · intro i x hpos hx n hle
    have hidle := idle_of_atWait (m.noted_run hpos) hx
    obtain ⟨d, rfl⟩ := Nat.exists_eq_add_of_le hle
    rw [run_add, hidle.run]
    exact ⟨hidle.step_eq, rfl⟩
  · intro f j hj htakes
    by_contra hne
    exact not_takesKey (m.noted_inFrame hj (by omega)) htakes
  · intro f j x hj hpos hx
    have hidle := idle_of_atWait (m.noted_inFrame hj hpos) hx
    refine ⟨fun f' j' hlater => ?_, fun n hlt => ?_⟩
    · rw [hidle.inFrame (Nat.le_of_lt hj) hlater]
      exact ⟨hidle (f' - f), rfl⟩
    · rw [← inFrame_zero_right]
      exact hidle.inFrame (Nat.le_of_lt hj) (.inl hlt)

/-- A machine in front of two waits for a key, with key five just pressed and a timer running. -/
def doubleWait : Machine :=
  { bare [0xF0, 0x0A, 0xF1, 0x0A] with
    keypad := Keypad.released.set 5 true
    delayTimer := 9 }

/-- The first wait takes key five. The second one waits for good, in a long run as well as in six
frames of four steps. -/
theorem one_key_for_a_run_doubleWait :
    doubleWait.TakesKey ∧ (doubleWait.run 1).AtWait 1 ∧
      doubleWait.run 2000000 = doubleWait.run 1 ∧
      (doubleWait.inFrame 4 0 1).AtWait 1 ∧
      doubleWait.runFrames 6 4 = (doubleWait.run 1).elapse 6 := by
  have hfirst : doubleWait.nextWord? = some 0xF00A := by decide +kernel
  have hsecond : (doubleWait.run 1).nextWord? = some 0xF10A := by decide +kernel
  have htakes : doubleWait.TakesKey :=
    ⟨0, ⟨_, hfirst, ⟨by decide, by decide⟩, by decide⟩, ⟨5, by decide +kernel⟩, by decide +kernel⟩
  have hwait : (doubleWait.run 1).AtWait 1 := ⟨_, hsecond, ⟨by decide, by decide⟩, by decide⟩
  obtain ⟨-, hrun, -, hframes⟩ := one_key_for_a_run doubleWait 4
  have hlong := (hrun 1 1 (by decide) hwait 2000000 (by decide)).2
  have hlater := (hframes 0 1 1 (by decide) (by decide) hwait).2 6 (by decide)
  exact ⟨htakes, hwait, hlong, hwait, hlater⟩

end Machine

end Chip8
