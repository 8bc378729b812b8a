import Chip8.Proofs.KeyWaits
import Chip8.Proofs.Unread

/-!
# What the timers show after frames

A timer is set by one instruction and counted down by ticks, one at the end of each frame, which stop at
zero and go on when the machine has halted or waits. So what it shows after a number of frames depends
on the last instruction that set it and on the ticks after that one, the tick of its own frame
included. The two timers differ in the instruction only, and `Timer` stands for either.

A step that does not complete the instruction leaves the timer alone (`Timer.shown_step`), and so do
runs of such steps; frames of them count it down by their number (`Timer.shown_runFrames`).
`timers_after_frames` is the top.
-/

set_option autoImplicit false

namespace Chip8

/-- One of the two timers. -/
inductive Timer where
  | delay
  | sound

namespace Timer

open Machine

/-- What a timer shows. -/
def shown (t : Timer) (m : Machine) : UInt8 :=
  match t with
  | delay => m.delayTimer
  | sound => m.soundTimer

/-- The low byte of the words that set a timer, `FX15` and `FX18`. -/
def setter : Timer → Nat
  | delay => 0x15
  | sound => 0x18

/-- The next step completes the instruction that sets the timer. -/
def Sets (t : Timer) (m : Machine) : Prop := ∃ w, m.Completes .step w ∧ w.IsMisc t.setter

/-- No instruction that sets the timer is completed in `n` frames of `k` steps. -/
def Unset (t : Timer) (m : Machine) (n k : Nat) : Prop :=
  ∀ f, f < n → ∀ j, j < k → ¬ t.Sets (m.inFrame k f j)

variable {t : Timer} {m : Machine} {n k : Nat}

/-- A step on any word but the timer's own does not set the timer. -/
theorem not_sets_of_nextWord? {w : Word} (hnext : m.nextWord? = some w)
    (hw : ¬ w.IsMisc t.setter) : ¬ t.Sets m := by
  rintro ⟨v, hv, hset⟩
  obtain rfl := hv.word_eq hnext
  exact hw hset

/-! ## Steps and ticks -/

/-- Only its own instruction changes what a timer shows. -/
theorem isMisc_of_shown_ne {i : Instruction} {w : Word} (hi : Instruction.Names w i)
    (h : t.shown (i.effect m) ≠ t.shown m) : w.IsMisc t.setter := by
  cases t with
  | delay =>
    obtain ⟨x, rfl⟩ := (Instruction.wrote_effect m i).delayTimer h
    exact ⟨hi.1.1, hi.2⟩
  | sound =>
    obtain ⟨x, rfl⟩ := (Instruction.wrote_effect m i).soundTimer h
    exact ⟨hi.1.1, hi.2⟩

/-- Fetching is not seen by a timer. -/
theorem shown_fetch (t : Timer) (m : Machine) : t.shown m.fetch.2 = t.shown m := by
  cases t
  · rfl
  · rfl

/-- Taking note of the keypad is not seen by a timer. -/
theorem shown_remember (t : Timer) (m : Machine) (keys : Keypad) :
    t.shown (m.remember keys) = t.shown m := by
  cases t
  · rfl
  · rfl

/-- A step leaves a timer alone if it completes another instruction, faults, waits, or finds the machine
halted. -/
theorem shown_step (h : ¬ t.Sets m) : t.shown m.step = t.shown m := by
  generalize hr : m.step = r
  cases steps_iff.mpr hr
  case halted => rfl
  case pastEnd | refused =>
    cases t
    · rfl
    · rfl
  case done w i hrun hpc hw hi hf =>
    rw [shown_remember, ← t.shown_fetch m]
    by_contra hne
    exact h ⟨w, completes_of_step hrun hw hr,
      isMisc_of_shown_ne (Instruction.decode_eq_some_iff.mp hi) hne⟩

/-- The instruction that sets a timer makes it show `VX`. -/
theorem shown_step_of_completes {w : Word} {x : Nibble} (hw : m.Completes .step w)
    (hset : w.IsMisc t.setter) (hx : x.val = w.toNat / 256 % 16) : t.shown m.step = m.reg x := by
  obtain ⟨hrun, hword⟩ := nextWord?_eq_some_iff.mp hw.1
  cases t with
  | delay =>
    have hnames : Instruction.Names w (.setDelay x) := ⟨⟨hset.1, hx⟩, hset.2⟩
    rw [step_of_decode hrun hword (Instruction.decode_of_names hnames) (if_pos m.fits_zero)]
    rfl
  | sound =>
    have hnames : Instruction.Names w (.setSound x) := ⟨⟨hset.1, hx⟩, hset.2⟩
    rw [step_of_decode hrun hword (Instruction.decode_of_names hnames) (if_pos m.fits_zero)]
    rfl

/-- A tick counts a timer down by one and does not wrap below zero. -/
theorem shown_tick (t : Timer) (m : Machine) :
    (t.shown m.tick).toNat = (t.shown m).toNat - 1 := by
  rw [tick_eq_elapse]
  cases t with
  | delay => exact toNat_countDown m.delayTimer 1
  | sound => exact toNat_countDown m.soundTimer 1

/-! ## Runs and frames -/

/-- A timer shows the same during a run that does not set it: steps do not count down. -/
theorem shown_run (h : ∀ j, j < k → ¬ t.Sets (m.run j)) : t.shown (m.run k) = t.shown m := by
  induction k with
  | zero => rfl
  | succ k ih =>
    rw [run_succ, shown_step (h k (Nat.lt_succ_self k)), ih fun j hj => h j (Nat.lt_succ_of_lt hj)]

/-- The last tick of frames comes after the steps of the last frame. -/
theorem shown_runFrames_succ (t : Timer) (m : Machine) (n k : Nat) :
    (t.shown (m.runFrames (n + 1) k)).toNat = (t.shown ((m.runFrames n k).run k)).toNat - 1 := by
  rw [runFrames_succ]
  exact t.shown_tick _

/-- Frames that do not set a timer count it down by their number. -/
theorem shown_runFrames (h : t.Unset m n k) :
    (t.shown (m.runFrames n k)).toNat = (t.shown m).toNat - n := by
  induction n with
  | zero => rfl
  | succ n ih =>
    rw [shown_runFrames_succ, shown_run (h n (Nat.lt_succ_self n)),
      ih fun f hf => h f (Nat.lt_succ_of_lt hf), Nat.sub_sub]

/-- Behind the step that sets a timer for the last time, the rest of its frame keeps the timer, and the
tick of that frame and the frames to come count it down. -/
theorem shown_runFrames_of_last {f j : Nat} (hf : f < n) (hj : j < k)
    (hlast : ∀ f' j', f' < n → j' < k → (f < f' ∨ f = f' ∧ j < j') → ¬ t.Sets (m.inFrame k f' j')) :
    (t.shown (m.runFrames n k)).toNat = (t.shown (m.inFrame k f j).step).toNat - (n - f) := by
  obtain ⟨d, rfl⟩ := Nat.exists_eq_add_of_lt hf
  obtain ⟨e, rfl⟩ := Nat.exists_eq_add_of_lt hj
  have hrest : ∀ i, i < e → ¬ t.Sets ((m.inFrame (j + e + 1) f j).step.run i) := by
    intro i hi
    have hlater : (m.inFrame (j + e + 1) f j).step.run i = m.inFrame (j + e + 1) f (j + 1 + i) := by
      rw [inFrame, inFrame, run_add, run_succ]
    rw [hlater]
    exact hlast f _ hf (by omega) (.inr ⟨rfl, by omega⟩)
  have hframes : t.Unset (m.runFrames (f + 1) (j + e + 1)) d (j + e + 1) := by
    intro g hg i hi
    have hlater : (m.runFrames (f + 1) (j + e + 1)).inFrame (j + e + 1) g i =
        m.inFrame (j + e + 1) (f + 1 + g) i := by
      rw [inFrame, inFrame, runFrames_add m (f + 1) g]
    rw [hlater]
    exact hlast _ i (by omega) hi (.inl (by omega))
  have hown : (m.runFrames f (j + e + 1)).run (j + e + 1) =
      (m.inFrame (j + e + 1) f j).step.run e := by
    rw [Nat.add_right_comm, run_add, run_succ]
    rfl
  have hcount : f + d + 1 = f + 1 + d := by omega
  rw [hcount, runFrames_add, shown_runFrames hframes, shown_runFrames_succ, hown, shown_run hrest]
  omega

end Timer

namespace Machine

/-- Sound is on exactly while the sound timer counts. -/
theorem soundActive_eq_true_iff (m : Machine) : m.soundActive = true ↔ 0 < m.soundTimer.toNat := by
  rw [soundActive, decide_eq_true_iff, gt_iff_lt, UInt8.lt_iff_toNat_lt]
  rfl

/-- Let a machine run `n` frames of `k` steps, and take either timer. When no instruction that sets it
is completed, it shows its number less `n`, or zero, at the end, and the buzzer sounds exactly if its
timer showed more than `n` before. When such an instruction is completed in frame `f`, counted from
zero, and none in a later step, the timer shows at the end what `VX` held then, less one for that frame
and for each one behind it, or zero. Each tick on the way takes one from what a timer shows after the
steps of its frame, or leaves zero, whatever the machine does in them. -/
theorem timers_after_frames (m : Machine) (n k : Nat) (t : Timer) :
    (t.Unset m n k → (t.shown (m.runFrames n k)).toNat = (t.shown m).toNat - n) ∧
    (Timer.sound.Unset m n k →
      ((m.runFrames n k).soundActive = true ↔ n < m.soundTimer.toNat)) ∧
    (∀ f j, f < n → j < k → ∀ w (x : Nibble), (m.inFrame k f j).Completes .step w →
      w.IsMisc t.setter → x.val = w.toNat / 256 % 16 →
      (∀ f' j', f' < n → j' < k → (f < f' ∨ f = f' ∧ j < j') → ¬ t.Sets (m.inFrame k f' j')) →
      (t.shown (m.runFrames n k)).toNat = ((m.inFrame k f j).reg x).toNat - (n - f)) ∧
    (∀ f, f < n →
      (t.shown (m.runFrames (f + 1) k)).toNat = (t.shown ((m.runFrames f k).run k)).toNat - 1) := by
  refine ⟨Timer.shown_runFrames, fun hunset => ?_, fun f j hf hj w x hw hset hx hlast => ?_,
    fun f _ => t.shown_runFrames_succ m f k⟩
  · have hshown : (m.runFrames n k).soundTimer.toNat = m.soundTimer.toNat - n :=
      Timer.shown_runFrames (t := .sound) hunset
    rw [soundActive_eq_true_iff, hshown]
    omega
  · rw [Timer.shown_runFrames_of_last hf hj hlast, Timer.shown_step_of_completes hw hset hx]

/-- A machine that sets its delay timer to nine, in the second step of its first frame, and then goes
round in a circle, with the buzzer on. -/
def buzzing : Machine := { bare [0x61, 0x09, 0xF1, 0x15, 0x12, 0x04] with soundTimer := 3 }

/-- Four ticks take the nine down to five, that of the first frame among them. The buzzer sounds after
two frames and no more after four. -/
theorem timers_after_frames_buzzing :
    buzzing.faulted = false ∧ (buzzing.inFrame 2 0 1).Completes .step 0xF115 ∧
      ((buzzing.inFrame 2 0 1).reg 1 = 9 ∧ (buzzing.runFrames 4 2).delayTimer.toNat = 5) ∧
      (Timer.sound.Unset buzzing 4 2 ∧ (buzzing.runFrames 4 2).soundTimer.toNat = 0 ∧
        ¬ (buzzing.runFrames 4 2).soundActive = true) ∧
      (Timer.sound.Unset buzzing 2 2 ∧ (buzzing.runFrames 2 2).soundActive = true) := by
  have hbegin : (buzzing.inFrame 2 0 0).nextWord? = some 0x6109 ∧
      (buzzing.inFrame 2 0 1).nextWord? = some 0xF115 ∧
      (buzzing.inFrame 2 0 1).step.faulted = false ∧ (buzzing.inFrame 2 0 1).reg 1 = 9 := by
    decide +kernel
  obtain ⟨hfirst, hsecond, hdone, hheld⟩ := hbegin
  have hcircle : ∀ f < 4, ∀ j < 2, 0 < f →
      (buzzing.inFrame 2 f j).nextWord? = some 0x1204 := by decide +kernel
  have hset : (buzzing.inFrame 2 0 1).Completes .step 0xF115 := ⟨hsecond, hdone⟩
  have hlast : ∀ f j, f < 4 → j < 2 → (0 < f ∨ 0 = f ∧ 1 < j) →
      ¬ Timer.delay.Sets (buzzing.inFrame 2 f j) := by
    intro f j hf hj hlater
    exact Timer.not_sets_of_nextWord? (hcircle f hf j hj (by omega)) (by decide)
  have hunset : Timer.sound.Unset buzzing 4 2 := by
    intro f hf j hj
    rcases Nat.eq_zero_or_pos f with rfl | hpos
    · interval_cases j
      · exact Timer.not_sets_of_nextWord? hfirst (by decide)
      · exact Timer.not_sets_of_nextWord? hsecond (by decide)
    · exact Timer.not_sets_of_nextWord? (hcircle f hf j hj hpos) (by decide)
  have hunset' : Timer.sound.Unset buzzing 2 2 := fun f hf => hunset f (by omega)
  obtain ⟨-, hbuzz, hdelays, -⟩ := timers_after_frames buzzing 4 2 .delay
  obtain ⟨hsounds, -⟩ := timers_after_frames buzzing 4 2 .sound
  obtain ⟨-, hbuzz', -⟩ := timers_after_frames buzzing 2 2 .sound
  have hdelay := hdelays 0 1 (by omega) (by omega) 0xF115 1 hset (by decide) (by decide) hlast
  rw [hheld] at hdelay
  refine ⟨rfl, hset, ⟨hheld, hdelay⟩, ⟨hunset, hsounds hunset, ?_⟩, hunset', ?_⟩
  · rw [hbuzz hunset]
    decide
  · rw [hbuzz' hunset']
    decide

end Machine

end Chip8
