import Chip8.Proofs.Flow

/-!
# The discipline of calls and returns

The frames below a depth are the addresses at the bottom of the call stack. A step that does not
take the stack below the depth leaves them alone, whatever the program is and however it changes
itself, and so does a run (`run_keeps_frames`). `call_returns` follows: the return that brings the
stack back to where a call found it goes behind the call, and which return that is shows from the
depth alone.
-/

set_option autoImplicit false

namespace Chip8.Machine

open Instruction

/-- A step that leaves the stack at least as deep as some of its frames leaves these alone. -/
theorem step_keeps_frames {m : Machine} {xs ys : List UInt16} (h : m.stack.Holds (xs ++ ys))
    (hrun : m.step.faulted = false) (hdepth : xs.length ≤ m.step.stack.pointer.toNat) :
    ∃ zs, m.step.stack.Holds (xs ++ zs) := by
  obtain ⟨w, -, -, hcases⟩ := step_stack_cases h hrun
  rcases hcases with ⟨t, -, -, hcall⟩ | ⟨ys', -, hlist, hret⟩ | ⟨-, -, hsame⟩
  · refine ⟨ys ++ [m.pc + 2], ?_⟩
    rw [← List.append_assoc]
    exact hcall
  · -- the address taken lies above the frames, since what is left is still as long as they are
    rw [hret.pointer_eq] at hdepth
    obtain ⟨zs, rfl, -⟩ | ⟨zs, rfl, hlast⟩ := List.append_eq_append_iff.mp hlist
    · exact ⟨zs, hret⟩
    · cases zs with
      | nil => exact ⟨[], by simpa using hret⟩
      | cons z zs =>
        simp only [List.length_append, List.length_cons] at hdepth
        omega
  · rw [hsame]
    exact ⟨ys, h⟩

/-- A run that never leaves the stack less deep than some of its frames leaves these alone. -/
theorem run_keeps_frames {m : Machine} {xs ys : List UInt16} (h : m.stack.Holds (xs ++ ys))
    (n : Nat)
    (hbody : ∀ i, 1 ≤ i → i ≤ n →
      (m.run i).faulted = false ∧ xs.length ≤ (m.run i).stack.pointer.toNat) :
    ∃ zs, (m.run n).stack.Holds (xs ++ zs) := by
  induction n with
  | zero => exact ⟨ys, h⟩
  | succ n ih =>
    obtain ⟨zs, hzs⟩ := ih fun i hpos hi => hbody i hpos (Nat.le_succ_of_le hi)
    obtain ⟨hrun, hdepth⟩ := hbody (n + 1) (Nat.le_add_left 1 n) le_rfl
    rw [run_succ] at hrun hdepth ⊢
    exact step_keeps_frames hzs hrun hdepth

/-- A return of a running machine whose stack is not empty raises no fault. -/
theorem step_ret {m : Machine} {xs : List UInt16} {a : UInt16} (hrun : m.faulted = false)
    (hw : m.memory.HoldsWord m.pc.toNat 0x00EE) (h : m.stack.Holds (xs ++ [a])) :
    m.step.faulted = false ∧ m.step.pc = a ∧ m.step.stack.Holds xs := by
  have hdecode : Instruction.decode 0x00EE = some ret := decode_of_names rfl
  have hne : m.stack.pointer ≠ 0 := by
    rw [ne_eq, h.pointer_eq_zero_iff]
    simp
  have hfault : ret.fault? m = none := if_neg hne
  have hstep : m.step.faulted = false := by
    rw [step_of_decode hrun hw hdecode hfault]
    exact (m.fetch.2.faulted_effect ret).trans hrun
  refine ⟨hstep, ?_⟩
  obtain ⟨w, hw', -, hcases⟩ := step_stack_cases h hstep
  obtain rfl := hw.unique hw'
  rcases hcases with ⟨t, hname, -⟩ | ⟨ys, -, hlist, hholds⟩ | ⟨-, hother, -⟩
  · exact absurd hname.1 (by decide)
  · obtain ⟨rfl, hlast⟩ := List.append_inj' hlist rfl
    exact ⟨(List.singleton_inj.mp hlast).symm, hholds⟩
  · exact absurd rfl hother

/-- From a machine in front of a call, with `d < 16` addresses on its stack and all else on it
zero: when a run makes no fault and keeps more than `d` addresses on the stack, and ends in
front of a return with one more than `d`, then the return is carried out, goes behind the call and
leaves the stack of the machine before the call. -/
theorem call_returns (m : Machine) (d : Nat) (w : Word) (k : Nat)
    (hd : m.stack.pointer.toNat = d) (hlt : d < 16)
    (hzero : ∀ j (hj : j < 16), d ≤ j → m.stack.slots[j] = 0)
    (hw : m.memory.HoldsWord m.pc.toNat w) (hcall : w.toNat / 4096 = 0x2) (hk : 1 ≤ k)
    (hbody : ∀ i, 1 ≤ i → i ≤ k →
      (m.run i).faulted = false ∧ d + 1 ≤ (m.run i).stack.pointer.toNat)
    (hdepth : (m.run k).stack.pointer.toNat = d + 1)
    (hret : (m.run k).memory.HoldsWord (m.run k).pc.toNat 0x00EE) :
    (m.run k).step.faulted = false ∧ (m.run k).step.pc.toNat = m.pc.toNat + 2 ∧
      (m.run k).step.stack.pointer.toNat = d ∧
      (m.run k).step.stack.slots = m.stack.slots := by
  subst hd
  have hbefore := CallStack.holds_take (Nat.le_of_lt hlt) hzero
  generalize m.stack.slots.toList.take m.stack.pointer.toNat = xs at hbefore
  have hlen := hbefore.pointer_eq
  -- the call puts the address behind it on top of the frames
  have hcalled : m.step.stack.Holds (xs ++ [m.pc + 2]) := by
    obtain ⟨w', hw', -, hcases⟩ := step_stack_cases hbefore (hbody 1 le_rfl hk).1
    obtain rfl := hw.unique hw'
    rcases hcases with ⟨t, -, -, hholds⟩ | ⟨ys, hname, -, -⟩ | ⟨hother, -, -⟩
    · exact hholds
    · have hnum : w.toNat = 0x00EE := hname
      omega
    · exact absurd hcall hother
  -- the run behind the call keeps them with that address
  obtain ⟨n, rfl⟩ : ∃ n, k = n + 1 := ⟨k - 1, by omega⟩
  rw [← List.append_nil (xs ++ [m.pc + 2])] at hcalled
  obtain ⟨zs, hzs⟩ := run_keeps_frames hcalled n (fun i _ hi => by
    have h := hbody (i + 1) (by omega) (by omega)
    refine ⟨h.1, ?_⟩
    rw [List.length_append, List.length_singleton, ← hlen]
    exact h.2)
  have htop : zs = [] := by
    have hptr := hzs.pointer_eq
    have hsame : (m.step.run n).stack.pointer.toNat = m.stack.pointer.toNat + 1 := hdepth
    simp only [List.length_append, List.length_singleton] at hptr
    exact List.length_eq_zero_iff.mp (by omega)
  subst htop
  rw [List.append_nil] at hzs
  obtain ⟨hstep, hpc, hafter⟩ := step_ret (hbody (n + 1) hk le_rfl).1 hret hzs
  have hstack := hafter.unique hbefore
  refine ⟨hstep, ?_, ?_, ?_⟩
  · rw [hpc]
    exact toNat_add_two (Nat.le_trans hw.le (by decide))
  · rw [hstack]
  · rw [hstack]

/-- A machine in front of a call at `200` to a subroutine at `204`, which calls another one at `208`
and then returns. -/
def nestedCalls : Machine :=
  bare [0x22, 0x04, 0x00, 0xE0, 0x22, 0x08, 0x00, 0xEE, 0x00, 0xEE]

/-- Three steps later, with the inner call over, the outer subroutine returns to `202`. -/
theorem call_returns_nestedCalls :
    (nestedCalls.run 3).faulted = false ∧ (nestedCalls.run 3).pc.toNat = 0x206 ∧
      (nestedCalls.run 3).step.faulted = false ∧
      (nestedCalls.run 3).step.pc.toNat = nestedCalls.pc.toNat + 2 ∧
      (nestedCalls.run 3).step.stack.pointer.toNat = 0 ∧
      (nestedCalls.run 3).step.stack.slots = nestedCalls.stack.slots := by
  have hzero : ∀ j (hj : j < 16), 0 ≤ j → nestedCalls.stack.slots[j] = 0 := by
    intro j hj _
    exact Vector.getElem_replicate hj
  have hword : nestedCalls.memory.HoldsWord nestedCalls.pc.toNat 0x2204 :=
    ⟨0x22, 0x04, by decide +kernel, by decide +kernel, rfl⟩
  have hbody : ∀ i, 1 ≤ i → i ≤ 3 → (nestedCalls.run i).faulted = false ∧
      0 + 1 ≤ (nestedCalls.run i).stack.pointer.toNat := by
    intro i hpos hi
    obtain rfl | rfl | rfl : i = 1 ∨ i = 2 ∨ i = 3 := by omega
    all_goals decide +kernel
  have hdepth : (nestedCalls.run 3).stack.pointer.toNat = 0 + 1 := by decide +kernel
  have hpc : (nestedCalls.run 3).pc.toNat = 0x206 := by decide +kernel
  have hret : (nestedCalls.run 3).memory.HoldsWord (nestedCalls.run 3).pc.toNat 0x00EE := by
    rw [hpc]
    exact ⟨0x00, 0xEE, by decide +kernel, by decide +kernel, rfl⟩
  exact ⟨(hbody 3 (by decide) le_rfl).1, hpc,
    call_returns nestedCalls 0 0x2204 3 rfl (by decide) hzero hword (by decide) (by decide) hbody
      hdepth hret⟩

end Chip8.Machine
