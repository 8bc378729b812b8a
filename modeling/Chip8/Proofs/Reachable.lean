import Chip8.Proofs.FaultCauses
import Chip8.Proofs.Flow
import Chip8.Proofs.Commands

/-!
# What holds of every machine that a host can reach

`Machine.Reachable` is every machine that comes about from power-on by commands of a host, in any
order and number, with any images, keys and counts. `Machine.WellFormed` is an invariant of these:
the stack holds return addresses up to the end of memory and is cleared above them, the program
counter stays near memory, and the latch agrees with the state that it was latched in. It is kept
by a step (`WellFormed.step`) and by every command (`WellFormed.obeys`). `reachable_wellFormed`
is the top, and says also what the invariant is for: in a cycle of a reachable machine no address
wraps and no slot is outside the stack.
-/

set_option autoImplicit false

namespace Chip8

/-- The stack holds addresses up to the end of memory, and its free slots are zero. -/
structure CallStack.WellFormed (s : CallStack) : Prop where
  pointer_le : s.pointer.toNat ≤ 16
  free_zero : ∀ k (hk : k < 16), s.pointer.toNat ≤ k → s.slots[k] = 0
  slot_le : ∀ k (hk : k < 16), s.slots[k].toNat ≤ 0x1000

/-- The stack is well formed if it holds a list of addresses up to the end of memory. -/
theorem CallStack.wellFormed_iff {s : CallStack} :
    s.WellFormed ↔ ∃ xs, s.Holds xs ∧ ∀ a ∈ xs, a.toNat ≤ 0x1000 := by
  constructor
  · intro h
    refine ⟨_, holds_take h.pointer_le h.free_zero, fun a ha => ?_⟩
    obtain ⟨k, hk, rfl⟩ := List.mem_iff_getElem.mp (List.mem_of_mem_take ha)
    rw [Vector.getElem_toList]
    exact h.slot_le k (by simpa using hk)
  · rintro ⟨xs, hxs, hle⟩
    refine ⟨?_, fun k hk => hxs.slot_eq_zero hk, fun k hk => ?_⟩
    · rw [hxs.pointer_eq]
      exact hxs.length_le
    · rcases hxs.slot_mem_or hk with hmem | hzero
      · exact hle _ hmem
      · rw [hzero]
        decide

namespace Machine

/-- The latch, the stack and the program counter are as a host may find them. -/
structure WellFormed (m : Machine) : Prop where
  stack : m.stack.WellFormed
  pc_le : m.pc.toNat ≤ 0x10FE
  fault_le : m.fault.toNat ≤ 4
  faultWord_eq : m.fault = 0 → m.faultWord = 0
  /-- An overflow was raised by a call, with a full stack. -/
  overflow : m.fault = 2 → m.stack.pointer.toNat = 16 ∧ m.faultWord.toNat / 4096 = 0x2
  /-- An underflow was raised by a return, with an empty stack. -/
  underflow : m.fault = 3 → m.stack.pointer.toNat = 0 ∧ m.faultWord.toNat = 0x00EE

namespace WellFormed

variable {m r : Machine}

/-- The invariant is about the program counter, the stack and the latch only. -/
theorem of_keeps (h : m.WellFormed) (hflow : m.KeepsFlow r) (hfault : r.fault = m.fault)
    (hword : r.faultWord = m.faultWord) : r.WellFormed where
  stack := hflow.stack ▸ h.stack
  pc_le := hflow.pc ▸ h.pc_le
  fault_le := hfault ▸ h.fault_le
  faultWord_eq := by
    rw [hfault, hword]
    exact h.faultWord_eq
  overflow := by
    rw [hfault, hword, hflow.stack]
    exact h.overflow
  underflow := by
    rw [hfault, hword, hflow.stack]
    exact h.underflow

/-- A machine whose latch is empty is well formed if its stack and program counter are. -/
theorem of_fault_zero (hstack : m.stack.WellFormed) (hpc : m.pc.toNat ≤ 0x10FE)
    (hfault : m.fault = 0) (hword : m.faultWord = 0) : m.WellFormed where
  stack := hstack
  pc_le := hpc
  fault_le := by
    rw [hfault]
    decide
  faultWord_eq := fun _ => hword
  overflow := fun h => absurd (hfault.symm.trans h) (by decide)
  underflow := fun h => absurd (hfault.symm.trans h) (by decide)

/-- Latching a fault keeps the invariant if the stack is what the fault says. -/
theorem trip (h : m.WellFormed) {f : Fault} {w : Word}
    (hover : f = .stackOverflow → w.toNat / 4096 = 0x2 ∧ 16 ≤ m.stack.pointer.toNat)
    (hunder : f = .stackUnderflow → w.toNat = 0x00EE ∧ m.stack.pointer = 0) :
    (m.trip f w).WellFormed where
  stack := h.stack
  pc_le := h.pc_le
  fault_le := f.code_le
  faultWord_eq := fun hzero => absurd hzero f.code_ne_zero
  overflow := by
    intro hcode
    obtain ⟨hop, hfull⟩ := hover (Fault.code_injective hcode)
    exact ⟨Nat.le_antisymm h.stack.pointer_le hfull, hop⟩
  underflow := by
    intro hcode
    obtain ⟨hw, hempty⟩ := hunder (Fault.code_injective hcode)
    refine ⟨?_, hw⟩
    simp only [Machine.trip, hempty]
    rfl

/-- An instruction behind a word inside memory that raises no fault keeps the stack well formed and
the program counter near memory. -/
theorem effect {w : Word} {i : Instruction} (hstack : m.stack.WellFormed)
    (hlow : 2 ≤ m.pc.toNat) (hhigh : m.pc.toNat ≤ 0x1000) (hi : Instruction.Names w i)
    (hf : i.fault? m = none) :
    (i.effect m).stack.WellFormed ∧ (i.effect m).pc.toNat ≤ 0x10FE := by
  obtain ⟨xs, hxs, hle⟩ := CallStack.wellFormed_iff.mp hstack
  by_cases hret : i = .ret
  · subst hret
    obtain ⟨ys, rfl, hys⟩ := Instruction.effect_ret hxs hf
    -- the program counter comes from the stack, so the bound on the entries is the bound on it
    refine ⟨CallStack.wellFormed_iff.mpr ⟨ys, hys, fun a ha => hle a ?_⟩, ?_⟩
    · exact List.mem_append_left _ ha
    · have hlast := hle (Instruction.ret.effect m).pc (by simp)
      omega
  · refine ⟨?_, Instruction.effect_pc_le hi hret hlow hhigh⟩
    by_cases hcall : ∃ t, i = .call t
    · obtain ⟨t, rfl⟩ := hcall
      obtain ⟨-, hpush⟩ := Instruction.effect_call hxs hf
      refine CallStack.wellFormed_iff.mpr ⟨_, hpush, fun a ha => ?_⟩
      rcases List.mem_append.mp ha with ha | ha
      · exact hle a ha
      · rw [List.mem_singleton.mp ha]
        exact hhigh
    · rw [Instruction.effect_stack m (fun t ht => hcall ⟨t, ht⟩) hret]
      exact hstack

/-- A step keeps the invariant. -/
theorem step (h : m.WellFormed) : m.step.WellFormed := by
  generalize hr : m.step = r
  cases steps_iff.mpr hr
  case halted => exact h
  case pastEnd => exact h.trip (by simp) (by simp)
  case refused w f _ _ _ hf =>
    rw [fault?_eq_some_iff] at hf
    refine h.trip ?_ ?_
    · rintro rfl
      exact hf
    · rintro rfl
      exact hf
  case done w i hrun hpc _ hi hf =>
    have hzero := faulted_eq_false_iff.mp hrun
    have hkeep := i.effect_keepsHost m.fetch.2
    have hmove := fetch_pc hpc
    rw [← i.fault?_fetch] at hf
    obtain ⟨hstack, hle⟩ := effect (m := m.fetch.2) h.stack (by omega) (by omega)
      (Instruction.decode_eq_some_iff.mp hi) hf
    exact of_fault_zero hstack hle (hkeep.fault.trans hzero)
      (hkeep.faultWord.trans (h.faultWord_eq hzero))

/-- Ticks keep what is well formed: they have to do with the timers only. -/
theorem tick (h : m.WellFormed) : m.tick.WellFormed := h.of_keeps ⟨rfl, rfl⟩ rfl rfl

/-- Runs keep what is well formed, step by step. -/
theorem run (h : m.WellFormed) (n : Nat) : (m.run n).WellFormed :=
  run_keeps (P := WellFormed) (fun _ => step) h n

/-- Frames keep what is well formed, as their runs and ticks do. -/
theorem runFrames (h : m.WellFormed) (n k : Nat) : (m.runFrames n k).WellFormed :=
  runFrames_keeps (P := WellFormed) (fun _ => step) (fun _ => tick) h n k

end WellFormed

/-- A machine at power-on is well formed. -/
theorem wellFormed_powerOn (key : Random.Key) (dialect : Dialect) :
    (powerOn key dialect).WellFormed := by
  refine .of_fault_zero ?_ (by decide : (0x200 : Nat) ≤ 0x10FE) rfl rfl
  exact CallStack.wellFormed_iff.mpr ⟨[], CallStack.holds_empty, by simp⟩

end Machine

/-! ## What a host can do -/

/-- Whether a command executes words from memory only. A word that is handed over would move the
program counter from wherever it stands. -/
def Command.fromMemory : Command → Bool
  | .execute _ => false
  | _ => true

namespace Machine

namespace WellFormed

variable {m r : Machine}

/-- A command that is obeyed keeps the invariant. -/
theorem obeys (h : m.WellFormed) {c : Command} (hc : c.fromMemory = true) (hr : m.Obeys c r) :
    r.WellFormed := by
  cases hr
  case refused => exact h
  case execute => cases hc
  case step => exact h.step
  case run a _ => exact h.run a
  case runFrame a _ => exact (h.run a).tick
  case runFrames a b _ => exact h.runFrames a b
  case tick => exact h.tick
  case setKey | setKeypad | load => exact h.of_keeps ⟨rfl, rfl⟩ rfl rfl
  case clearFault => exact of_fault_zero h.stack h.pc_le rfl rfl
  case reset key => exact wellFormed_powerOn key m.dialect

/-- A host keeps what is well formed as long as it executes words from memory only. -/
theorem after (h : m.WellFormed) {c : Command} (hc : c.fromMemory = true) :
    (m.after c).WellFormed := h.obeys hc (m.obeys_after c)

/-- Frames under a progress bar keep the invariant. -/
theorem watchFrames (h : m.WellFormed) (n k : Int) : (m.watchFrames n k).final.WellFormed := by
  rw [watchFrames_final]
  exact h.runFrames _ _

end WellFormed

/-- The machines that a host can bring about, with any images, keys, counts and dialect. The state
after each single step and tick of a run is one of them. -/
inductive Reachable : Machine → Prop where
  | powerOn (key : Random.Key) (dialect : Dialect) : Reachable (powerOn key dialect)
  | after {m : Machine} {c : Command} (h : Reachable m) (hc : c.fromMemory = true) :
    Reachable (m.after c)
  | watched {m : Machine} (h : Reachable m) (n k : Int) : Reachable (m.watchFrames n k).final

/-! ## What the invariant is for -/

/-- In the cycle of a machine that fetches the word `w`, addresses are exact and slots are among
the sixteen. -/
structure CycleInRange (m : Machine) (w : Word) : Prop where
  /-- Both bytes of the word lie inside memory. -/
  fetched : m.memory.HoldsWord m.pc.toNat w
  /-- The program counter moves past the word without wrapping. -/
  past : m.fetch.2.pc.toNat = m.pc.toNat + 2
  /-- A skip that is taken does not wrap. -/
  skip : ∀ c, Instruction.decode w = some (.skip c) → m.holds c = true →
    m.step.pc.toNat = m.fetch.2.pc.toNat + 2
  /-- Going back to wait for a key does not wrap. -/
  wait : ∀ x, Instruction.decode w = some (.waitKey x) →
    Keypad.firstPress? m.lastKeypad m.keypad = none →
    m.step.pc.toNat + 2 = m.fetch.2.pc.toNat
  /-- A call that is carried out writes one of the slots. -/
  push : ∀ t, Instruction.decode w = some (.call t) → m.step.faulted = false →
    ∃ h : m.stack.pointer.toNat < 16,
      m.step.stack.slots = m.stack.slots.set m.stack.pointer.toNat (m.pc + 2) h
  /-- A return that is carried out reads one of the slots and clears it. -/
  pop : Instruction.decode w = some .ret → m.step.faulted = false →
    ∃ k, ∃ h : k < 16, m.stack.pointer.toNat = k + 1 ∧ m.step.pc = m.stack.slots[k] ∧
      m.step.stack.slots = m.stack.slots.set k 0 h

/-- The cycles of a well-formed machine are in range. -/
theorem WellFormed.cycleInRange {m : Machine} (h : m.WellFormed) (hrun : m.faulted = false)
    {w : Word} (hw : m.memory.HoldsWord m.pc.toNat w) : m.CycleInRange w where
  fetched := hw
  past := fetch_pc hw.le
  skip := by
    intro c hi hc
    have hf : (Instruction.skip c).fault? m = none := if_pos m.fits_zero
    have htaken : m.fetch.2.holds c = true := by
      cases c
      all_goals exact hc
    have hpast := fetch_pc hw.le
    have hle := hw.le
    rw [step_of_decode hrun hw hi hf]
    simp only [Instruction.effect, htaken, if_true, remember]
    exact Instruction.toNat_add_two (by omega)
  wait := by
    intro x hi hnone
    have hf : (Instruction.waitKey x).fault? m = none := if_pos m.fits_zero
    have hblocked : Keypad.firstPress? m.fetch.2.lastKeypad m.fetch.2.keypad = none := hnone
    have hpast := fetch_pc hw.le
    rw [step_of_decode hrun hw hi hf]
    simp only [Instruction.effect, waitKey, hblocked, remember]
    rw [Instruction.toNat_sub_two (by omega)]
    omega
  push := by
    intro t hi hstep
    have hf := fault?_of_step hrun hw hi hstep
    have hfree : m.stack.isFull = false := by
      cases hfull : m.stack.isFull with
      | false => rfl
      | true => simp [Instruction.fault?, hfull] at hf
    have hlt : m.stack.pointer.toNat < 16 := by
      simpa [CallStack.isFull] using hfree
    have hpush : m.fetch.2.stack.push? m.fetch.2.pc = _ := CallStack.push?_eq_some hfree _
    refine ⟨hlt, ?_⟩
    rw [step_of_decode hrun hw hi hf]
    simp only [Instruction.effect, hpush, Option.getD_some, remember]
    exact CallStack.setIfInBounds_eq_set hlt _
  pop := by
    intro hi hstep
    have hf := fault?_of_step hrun hw hi hstep
    obtain ⟨k, hk, hpointer, hpc, hslots⟩ :=
      Instruction.effect_ret_slot (m := m.fetch.2) h.stack.pointer_le hf
    rw [step_of_decode hrun hw hi hf]
    exact ⟨k, hk, hpointer, hpc, hslots⟩

/-- A machine that a host can reach is well formed, and when it runs and a word stands at its
program counter, its cycle is in range. -/
theorem reachable_wellFormed {m : Machine} (h : m.Reachable) :
    m.WellFormed ∧
      (m.faulted = false → m.pc.toNat ≤ 4094 → ∃ w, m.CycleInRange w) := by
  have hwf : m.WellFormed := by
    induction h with
    | powerOn key dialect => exact wellFormed_powerOn key dialect
    | after _ hc ih => exact ih.after hc
    | watched _ n k ih => exact ih.watchFrames n k
  exact ⟨hwf, fun hrun hpc => ⟨_, hwf.cycleInRange hrun (m.memory.holdsWord_word hpc)⟩⟩

/-- A machine just loaded with a program that returns without a call. -/
def returning : Machine := (powerOn ⟨0, 0⟩ .classic).after (.load [0x00, 0xEE])

/-- The machine in front of the return is in range, and one step later it is well formed with an
underflow latched. -/
theorem reachable_wellFormed_returning :
    (returning.Reachable ∧ returning.WellFormed ∧ returning.faulted = false ∧
      returning.pc.toNat ≤ 4094 ∧ ∃ w, returning.CycleInRange w) ∧
    ((returning.after .step).Reachable ∧ (returning.after .step).WellFormed ∧
      (returning.after .step).fault = 3) := by
  have hloaded : returning.Reachable := .after (.powerOn _ _) rfl
  have hstepped : (returning.after .step).Reachable := .after hloaded rfl
  have hrun : returning.faulted = false := by decide
  have hpc : returning.pc.toNat ≤ 4094 := by decide
  have hfault : (returning.after .step).fault = 3 := by decide +kernel
  obtain ⟨hwf, hrange⟩ := reachable_wellFormed hloaded
  exact ⟨⟨hloaded, hwf, hrun, hpc, hrange hrun hpc⟩,
    hstepped, (reachable_wellFormed hstepped).1, hfault⟩

end Machine

end Chip8
