import Chip8.Proofs.Steps

/-!
# Faults leave no trace

A word that faults changes nothing but the latch. An interpreter may come by this in two ways:
it may check before it writes, as `Machine.execute` and `Machine.step` do, or it may work out the
full result, flag the fault in it and roll back. `execute_eq_commit` and `step_eq_cycle` say that
the two ways agree on every machine, with one rollback around the instruction and a second one
around the fetch. `fault_atomicity` is the top: what a fault leaves of a machine, and that a
machine whose fault is cleared stands where it stood and faults again.
-/

set_option autoImplicit false

namespace Chip8

/-- The code of a fault is not zero, which stands for none. -/
theorem Fault.code_ne_zero (f : Fault) : f.code ≠ 0 := by
  cases f
  all_goals decide

namespace Machine

/-- A machine is halted exactly if its code is not zero. -/
theorem faulted_eq_false_iff {m : Machine} : m.faulted = false ↔ m.fault = 0 := by
  simp [faulted]

/-- A machine is halted exactly when its latch holds a code other than zero. -/
theorem faulted_eq_true_iff {m : Machine} : m.faulted = true ↔ m.fault ≠ 0 := by
  simp [faulted]

/-- Latching a fault halts a machine. -/
theorem faulted_trip (m : Machine) (f : Fault) (w : Word) : (m.trip f w).faulted = true :=
  faulted_eq_true_iff.mpr f.code_ne_zero

/-- An instruction neither halts a machine nor sets it going. -/
theorem faulted_effect (m : Machine) (i : Instruction) : (i.effect m).faulted = m.faulted := by
  simp only [faulted, (i.effect_keepsHost m).fault]

/-- The machine `r` is the machine `m` in all but the latch. -/
def SameButLatch (m r : Machine) : Prop :=
  r = { m with fault := r.fault, faultWord := r.faultWord }

/-- Tripping a fault touches the latch and nothing else. -/
theorem sameButLatch_trip (m : Machine) (f : Fault) (w : Word) : m.SameButLatch (m.trip f w) :=
  rfl

/-- Clearing the latch undoes what was only a change of the latch. -/
theorem SameButLatch.clearFault_eq {m r : Machine} (h : m.SameButLatch r) (hfault : m.fault = 0)
    (hword : m.faultWord = 0) : r.clearFault = m := by
  rw [h, clearFault]
  cases m
  subst hfault hword
  rfl

/-! ## Rolling back -/

/-- The full result of a word, with the fault that it raises flagged in it. -/
def flagged (m : Machine) (w : Word) : Machine :=
  match Instruction.decode w with
  | none => { m with fault := Fault.decode.code }
  | some i =>
    match i.fault? m with
    | none => i.effect m
    | some f => { i.effect m with fault := f.code }

/-- Keeps a result without a fault. A result with one is dropped for the machine before, whose
own fault, if it has one, stays in the latch. -/
def commit (m result : Machine) (w : Word) : Machine :=
  if result.faulted then
    { m with
      fault := if m.faulted then m.fault else result.fault
      faultWord := if m.faulted then m.faultWord else w }
  else result

/-- Ends a cycle: what was executed without a fault is kept and remembers the keypad, and with one
only its latch is taken over. -/
def settle (m executed : Machine) : Machine :=
  if executed.faulted then { m with fault := executed.fault, faultWord := executed.faultWord }
  else { executed with lastKeypad := executed.keypad }

/-- Fetches and executes one word, and rolls the fetch back if the word faults. -/
def cycle (m : Machine) : Machine := m.settle (m.fetch.2.execute m.fetch.1)

/-- A result keeps the fault that was latched before, or has a new one. -/
theorem flagged_faulted {m : Machine} (w : Word) (h : m.faulted = true) :
    (m.flagged w).faulted = true := by
  unfold flagged
  split
  · rfl
  · rename_i i hi
    split
    · rw [faulted_effect]
      exact h
    · rename_i f hf
      exact faulted_eq_true_iff.mpr f.code_ne_zero

/-- A word that faults is rolled back to what checking first would have left. -/
theorem execute_eq_commit (m : Machine) (w : Word) :
    m.execute w = m.commit (m.flagged w) w := by
  by_cases hm : m.faulted = true
  · simp only [execute, commit, flagged_faulted w hm, hm, if_true]
  · have hrun : m.faulted = false := Bool.eq_false_iff.mpr hm
    unfold execute attempt flagged
    simp only [hrun, Bool.false_eq_true, if_false]
    cases Instruction.decode w with
    | none =>
      simp only [commit, hrun, Bool.false_eq_true, if_false]
      rfl
    | some i =>
      simp only [i.apply_eq]
      cases hf : i.fault? m with
      | none =>
        have hkeep : (i.effect m).faulted = false := (m.faulted_effect i).trans hrun
        simp only [commit, hkeep, Bool.false_eq_true, if_false]
      | some f =>
        -- the fault is flagged in the full result, which is then dropped
        have hnew : ({ i.effect m with fault := f.code } : Machine).faulted = true :=
          faulted_eq_true_iff.mpr f.code_ne_zero
        simp only [commit, hnew, hrun, Bool.false_eq_true, if_true, if_false]
        rfl

/-- A step that rolls its fetch back is the step that checks first. -/
theorem step_eq_cycle {m : Machine} (h : m.faulted = false) (hpc : m.pc.toNat ≤ 4094) :
    m.step = m.cycle := by
  have hrun : m.fetch.2.faulted = false := h
  have hlast : m.pc.toNat ≤ lastWord := hpc
  unfold step cycle settle execute
  simp only [h, hrun, hlast, Bool.false_eq_true, if_true, if_false]
  cases ha : m.fetch.2.attempt m.fetch.1 with
  | error f =>
    have htrip := faulted_trip m.fetch.2 f m.fetch.1
    simp only [htrip, if_true]
    rfl
  | ok r =>
    obtain ⟨i, -, -, rfl⟩ := attempt_eq_ok_iff.mp ha
    have hkeep : (i.effect m.fetch.2).faulted = false := (m.fetch.2.faulted_effect i).trans h
    simp only [hkeep, Bool.false_eq_true, if_false]

/-! ## What a fault leaves -/

/-- A halted machine executes nothing. -/
theorem execute_of_faulted {m : Machine} (h : m.faulted = true) (w : Word) : m.execute w = m := by
  rw [execute, if_pos h]

/-- A halted machine does not step. -/
theorem step_of_faulted {m : Machine} (h : m.faulted = true) : m.step = m := by
  rw [step, if_pos h]

/-- A step that ends without a fault started without one. -/
theorem faulted_of_step {m : Machine} (h : m.step.faulted = false) : m.faulted = false := by
  by_contra hhalt
  rw [Bool.not_eq_false] at hhalt
  rw [step_of_faulted hhalt, hhalt] at h
  cases h

/-- A committed result that carries a fault is the machine before in all but the latch. -/
theorem sameButLatch_commit {m r : Machine} {w : Word} (h : (m.commit r w).faulted = true) :
    m.SameButLatch (m.commit r w) := by
  unfold commit at h ⊢
  split
  · rfl
  · rename_i hr
    rw [if_neg hr] at h
    exact absurd h hr

/-- A settled cycle that carries a fault left the machine before in all but the latch. -/
theorem sameButLatch_settle {m r : Machine} (h : (m.settle r).faulted = true) :
    m.SameButLatch (m.settle r) := by
  unfold settle at h ⊢
  split
  · rfl
  · -- the result that is kept has no fault, and remembering the keypad adds none
    rename_i hr
    rw [if_neg hr] at h
    exact absurd h hr

/-- A newly latched word is the one that was executed. -/
theorem faultWord_execute {m : Machine} {w : Word} (hrun : m.faulted = false)
    (h : (m.execute w).faulted = true) : (m.execute w).faultWord = w := by
  rw [execute_eq_commit] at h ⊢
  unfold commit at h ⊢
  split
  · simp only [hrun, Bool.false_eq_true, if_false]
  · rename_i hr
    rw [if_neg hr] at h
    exact absurd h hr

/-- A step that faults changes nothing but the latch. -/
theorem sameButLatch_step {m : Machine} (h : m.step.faulted = true) : m.SameButLatch m.step := by
  cases hrun : m.faulted with
  | true =>
    rw [step_of_faulted hrun]
    rfl
  | false =>
    by_cases hpc : m.pc.toNat ≤ 4094
    · rw [step_eq_cycle hrun hpc] at h ⊢
      exact sameButLatch_settle h
    · have hend : m.step = m.trip .memory 0 :=
        steps_iff.mp (.pastEnd hrun (Nat.lt_of_not_le hpc))
      rw [hend]
      exact sameButLatch_trip m _ _

/-- Executing any integer, a fault changes nothing but the latch, and a new one is latched with
the low sixteen bits of the integer; a latched fault of any code stays as it is, with its word,
under execution and steps. A step that faults changes nothing but the latch either. So a machine
whose latch was empty is itself again once the fault is cleared, and faults again when it is
stepped. -/
theorem fault_atomicity (m : Machine) :
    (∀ n : Int,
      ((m.executeInt n).faulted = true → m.SameButLatch (m.executeInt n)) ∧
      (m.faulted = false → (m.executeInt n).faulted = true →
        ((m.executeInt n).faultWord.toNat : Int) = n % 65536) ∧
      (m.faulted = true → m.executeInt n = m)) ∧
    (m.faulted = true → m.step = m) ∧
    (m.step.faulted = true → m.SameButLatch m.step) ∧
    (m.fault = 0 → m.faultWord = 0 → m.step.faulted = true →
      m.step.clearFault = m ∧ m.step.clearFault.step = m.step) := by
  refine ⟨fun n => ⟨fun h => ?_, fun hrun h => ?_, fun h => execute_of_faulted h _⟩,
    step_of_faulted, sameButLatch_step, fun hfault hword h => ?_⟩
  · rw [executeInt, execute_eq_commit] at h ⊢
    exact sameButLatch_commit h
  · rw [executeInt] at h ⊢
    rw [faultWord_execute hrun h]
    exact Word.ofInt_toNat n
  · have hclear := (sameButLatch_step h).clearFault_eq hfault hword
    rw [hclear]
    exact ⟨rfl, rfl⟩

/-- A machine in front of `F033` with room for two of the three digits. -/
def atEdge : Machine := { bare [0xF0, 0x33] with index := 0xFFE }

/-- The three digits do not fit: executing the word (here as a negative integer) and stepping to
it both leave the latch only, a second fault is not latched over the first, and with the latch
cleared the machine is back in front of the word. -/
theorem fault_atomicity_atEdge :
    (atEdge.faulted = false ∧ (atEdge.executeInt (-4045)).faulted = true ∧
      atEdge.SameButLatch (atEdge.executeInt (-4045)) ∧
      ((atEdge.executeInt (-4045)).faultWord.toNat : Int) = -4045 % 65536) ∧
    ((atEdge.trip .decode 7).faulted = true ∧
      (atEdge.trip .decode 7).executeInt 0xF033 = atEdge.trip .decode 7 ∧
      (atEdge.trip .decode 7).step = atEdge.trip .decode 7) ∧
    (atEdge.fault = 0 ∧ atEdge.faultWord = 0 ∧ atEdge.step.faulted = true ∧
      atEdge.SameButLatch atEdge.step ∧ atEdge.step.clearFault = atEdge ∧
      atEdge.step.clearFault.step = atEdge.step) := by
  have hrun : atEdge.faulted = false := by decide
  have hexec : (atEdge.executeInt (-4045)).faulted = true := by decide
  have hstep : atEdge.step.faulted = true := by decide +kernel
  have hhalt : (atEdge.trip .decode 7).faulted = true := by decide
  obtain ⟨hint, -, hsame, hclear⟩ := fault_atomicity atEdge
  obtain ⟨hint', hstay, -, -⟩ := fault_atomicity (atEdge.trip .decode 7)
  exact ⟨⟨hrun, hexec, (hint _).1 hexec, (hint _).2.1 hrun hexec⟩,
    ⟨hhalt, (hint' _).2.2 hhalt, hstay hhalt⟩, rfl, rfl, hstep, hsame hstep, hclear rfl rfl hstep⟩

end Machine

end Chip8
