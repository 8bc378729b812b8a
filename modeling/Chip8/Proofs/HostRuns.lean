import Chip8.Proofs.Commands
import Chip8.Proofs.Countdowns
import Chip8.Proofs.FaultReports
import Chip8.Proofs.Timers

/-!
# Runs that a host asks for

What is known of runs and of frames is known for every number of them. A host asks with a command, and a
command is refused if one of its numbers does not fit (`perform_run_eq_ok_iff`,
`perform_runFrames_eq_ok_iff`). What the command leads to where it is not refused is the run itself, so
the laws of runs and of frames are laws of these commands: how they split and halt, what they do to
timers, which keys they take and what they report.
-/

set_option autoImplicit false

namespace Chip8

namespace Count

/-- The numbers of frames and of steps that a host may ask for. Without frames the steps are not
looked at. -/
def Countable (n k : Int) : Prop := n ≤ 0 ∨ fits n = true ∧ fits k = true

/-- A number that is refused does not fit. -/
theorem not_fits_of_check {o : Operand} {n : Int} {e : Overflow} (h : check o n = .error e) :
    fits n ≠ true := by
  intro hfits
  rw [check_eq_ok_iff.mpr ⟨hfits, rfl⟩] at h
  cases h

/-- A number of iterations that fits is taken, and counts as zero below it. -/
theorem iterations_eq_ok_iff {n : Int} {a : Nat} :
    iterations n = .ok a ↔ fits n = true ∧ a = n.toNat := by
  constructor
  · intro h
    obtain ⟨b, hb, rfl⟩ := map_eq_ok h
    obtain ⟨hfits, rfl⟩ := check_eq_ok_iff.mp hb
    exact ⟨hfits, rfl⟩
  · rintro ⟨hfits, rfl⟩
    rw [iterations, check_eq_ok_iff.mpr ⟨hfits, rfl⟩, Except.map]

/-- Two numbers of iterations are taken if both fit, or if there is nothing to do. -/
theorem nested_eq_ok_iff {n k : Int} {c : Nat × Nat} :
    nested n k = .ok c ↔ Countable n k ∧ c = (n.toNat, k.toNat) := by
  rw [nested, Countable]
  by_cases hle : n ≤ 0
  · simp only [hle, if_true, Except.ok.injEq, true_or, true_and, Int.toNat_of_nonpos hle, eq_comm]
  · simp only [hle, if_false, false_or]
    cases hn : check .right n with
    | error e => simp [not_fits_of_check hn]
    | ok a =>
      obtain ⟨hfits, rfl⟩ := check_eq_ok_iff.mp hn
      cases hk : check .right k with
      | error e => simp [not_fits_of_check hk]
      | ok b =>
        obtain ⟨hfits', rfl⟩ := check_eq_ok_iff.mp hk
        simp [hfits, hfits', eq_comm]

/-- A part of a number that fits, fits. -/
theorem fits_of_le {a b : Nat} (h : fits b = true) (hle : a ≤ b) : fits a = true := by
  simp only [fits, Bool.and_eq_true, decide_eq_true_eq] at h ⊢
  omega

end Count

namespace Machine

variable {m r : Machine} {n k : Int}

/-- A host's run is carried out exactly if its length fits. -/
theorem perform_run_eq_ok_iff :
    m.perform (.run n) = .ok r ↔ Count.fits n = true ∧ r = m.run n.toNat := by
  constructor
  · intro h
    obtain ⟨a, ha, rfl⟩ := map_eq_ok (mapError_eq_ok h)
    obtain ⟨hfits, rfl⟩ := Count.iterations_eq_ok_iff.mp ha
    exact ⟨hfits, rfl⟩
  · rintro ⟨hfits, rfl⟩
    simp only [perform, Count.iterations_eq_ok_iff.mpr ⟨hfits, rfl⟩]
    rfl

/-- A host's frames are carried out exactly if their numbers fit, or there are none. -/
theorem perform_runFrames_eq_ok_iff :
    m.perform (.runFrames n k) = .ok r ↔
      Count.Countable n k ∧ r = m.runFrames n.toNat k.toNat := by
  have hcounts : frameCounts false n k = Count.nested n k := rfl
  constructor
  · intro h
    obtain ⟨c, hc, rfl⟩ := map_eq_ok (mapError_eq_ok h)
    obtain ⟨hcountable, rfl⟩ := Count.nested_eq_ok_iff.mp (hcounts ▸ hc)
    exact ⟨hcountable, rfl⟩
  · rintro ⟨hcountable, rfl⟩
    simp only [perform, hcounts, Count.nested_eq_ok_iff.mpr ⟨hcountable, rfl⟩]
    rfl

/-! ## Splitting and halting -/

/-- A run that a host may ask for can be asked for in two parts. -/
theorem perform_run_add {a b : Nat} (h : Count.fits (a + b : Nat) = true) :
    m.perform (.run a) = .ok (m.run a) ∧
      (m.run a).perform (.run b) = m.perform (.run (a + b : Nat)) := by
  have ha : Count.fits a = true := Count.fits_of_le h (Nat.le_add_right a b)
  have hb : Count.fits b = true := Count.fits_of_le h (Nat.le_add_left b a)
  have hwhole : m.perform (.run (a + b : Nat)) = .ok (m.run (a + b)) :=
    perform_run_eq_ok_iff.mpr ⟨h, rfl⟩
  rw [hwhole, perform_run_eq_ok_iff, perform_run_eq_ok_iff]
  exact ⟨⟨ha, rfl⟩, hb, run_add m a b⟩

/-- So can frames. -/
theorem perform_runFrames_add {a b : Nat} (h : Count.fits (a + b : Nat) = true)
    (hk : Count.fits k = true) :
    m.perform (.runFrames a k) = .ok (m.runFrames a k.toNat) ∧
      (m.runFrames a k.toNat).perform (.runFrames b k) =
        m.perform (.runFrames (a + b : Nat) k) := by
  have ha : Count.fits a = true := Count.fits_of_le h (Nat.le_add_right a b)
  have hb : Count.fits b = true := Count.fits_of_le h (Nat.le_add_left b a)
  have hwhole : m.perform (.runFrames (a + b : Nat) k) = .ok (m.runFrames (a + b) k.toNat) :=
    perform_runFrames_eq_ok_iff.mpr ⟨.inr ⟨h, hk⟩, rfl⟩
  rw [hwhole, perform_runFrames_eq_ok_iff, perform_runFrames_eq_ok_iff]
  exact ⟨⟨.inr ⟨ha, hk⟩, rfl⟩, .inr ⟨hb, hk⟩, runFrames_add m a b k.toNat⟩

/-- A host that asks for more steps than it takes to halt gets the machine after the last of these. -/
theorem HaltsAt.eq_of_perform_run {j : Nat} (h : m.HaltsAt j) (hrun : m.perform (.run n) = .ok r)
    (hle : j ≤ n.toNat) : r = step^[j] m := by
  obtain ⟨-, rfl⟩ := perform_run_eq_ok_iff.mp hrun
  exact h.run_eq hle

/-- Of a machine that does not move, whether it has halted or waits, a host gets the machine back after
any run, and after frames its timers have come down. -/
theorem Idle.eq_of_perform (h : m.Idle) :
    (m.perform (.run n) = .ok r → r = m) ∧
    (m.perform (.runFrames n k) = .ok r → r = m.elapse n.toNat) := by
  constructor
  · intro hrun
    obtain ⟨-, rfl⟩ := perform_run_eq_ok_iff.mp hrun
    exact h.run _
  · intro hrun
    obtain ⟨-, rfl⟩ := perform_runFrames_eq_ok_iff.mp hrun
    exact h.runFrames _ _

/-! ## Timers -/

/-- Frames that execute none of the three words for timers are a run with all ticks behind it. -/
theorem eq_elapse_of_perform_runFrames (hrun : m.perform (.runFrames n k) = .ok r)
    (hw : ∀ i, i < n.toNat * k.toNat → ∀ w, (m.run i).nextWord? = some w → ¬ w.IsTimer) :
    r = (m.run (n.toNat * k.toNat)).elapse n.toNat := by
  obtain ⟨-, rfl⟩ := perform_runFrames_eq_ok_iff.mp hrun
  exact runFrames_eq_elapse hw

/-- How many steps there are to a frame is then seen in the timers only. -/
theorem sameButTimers_of_perform_runFrames {s : Machine} {n' k' : Int}
    (hrun : m.perform (.runFrames n k) = .ok r) (hrun' : m.perform (.runFrames n' k') = .ok s)
    (hsteps : n'.toNat * k'.toNat = n.toNat * k.toNat)
    (hw : ∀ i, i < n.toNat * k.toNat → ∀ w, (m.run i).nextWord? = some w → ¬ w.IsTimer) :
    r.SameButTimers s := by
  rw [eq_elapse_of_perform_runFrames hrun hw,
    eq_elapse_of_perform_runFrames hrun' (by rwa [hsteps]), hsteps]
  exact sameButTimers_elapse _ _ _

/-- What a timer shows after frames depends on the last of them that sets it. -/
theorem shown_of_perform_runFrames (t : Timer) (hrun : m.perform (.runFrames n k) = .ok r) :
    (t.Unset m n.toNat k.toNat → (t.shown r).toNat = (t.shown m).toNat - n.toNat) ∧
    ∀ f j, f < n.toNat → j < k.toNat →
      (∀ f' j', f' < n.toNat → j' < k.toNat → (f < f' ∨ f = f' ∧ j < j') →
        ¬ t.Sets (m.inFrame k.toNat f' j')) →
      (t.shown r).toNat = (t.shown (m.inFrame k.toNat f j).step).toNat - (n.toNat - f) := by
  obtain ⟨-, rfl⟩ := perform_runFrames_eq_ok_iff.mp hrun
  exact ⟨Timer.shown_runFrames, fun f j => Timer.shown_runFrames_of_last⟩

/-! ## Keys and reports -/

/-- A machine that a host finds in front of `FX0A` after a run of one step or more has taken no key
there, and no run or frames that the host asks for will make it take one. -/
theorem idle_of_perform_run {x : Nibble} (hrun : m.perform (.run n) = .ok r) (hpos : 0 < n)
    (hx : r.AtWait x) : r.Idle ∧ ¬ r.TakesKey := by
  obtain ⟨-, rfl⟩ := perform_run_eq_ok_iff.mp hrun
  have hnoted := m.noted_run (i := n.toNat) (by omega)
  exact ⟨idle_of_atWait hnoted hx, not_takesKey hnoted⟩

/-- The same after frames of one step or more. -/
theorem idle_of_perform_runFrames {x : Nibble} (hrun : m.perform (.runFrames n k) = .ok r)
    (hn : 0 < n) (hk : 0 < k) (hx : r.AtWait x) : r.Idle ∧ ¬ r.TakesKey := by
  obtain ⟨-, rfl⟩ := perform_runFrames_eq_ok_iff.mp hrun
  have hnoted : (m.runFrames n.toNat k.toNat).Noted :=
    m.noted_inFrame (f := n.toNat) (j := 0) (by omega) (by omega)
  exact ⟨idle_of_atWait hnoted hx, not_takesKey hnoted⟩

/-- What a host reads after a run or after frames is the report on the first step of them that
faulted. -/
theorem reported_of_perform (hquiet : m.faulted = false) :
    (m.perform (.run n) = .ok r → Reported (m.beforeSteps n.toNat) r) ∧
    (m.perform (.runFrames n k) = .ok r →
      Reported (m.beforeFrameSteps n.toNat k.toNat) r) := by
  constructor
  · intro hrun
    obtain ⟨-, rfl⟩ := perform_run_eq_ok_iff.mp hrun
    exact reported_run hquiet _
  · intro hrun
    obtain ⟨-, rfl⟩ := perform_runFrames_eq_ok_iff.mp hrun
    exact reported_runFrames hquiet _ _

end Machine

end Chip8
