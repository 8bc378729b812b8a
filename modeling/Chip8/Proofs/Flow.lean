import Chip8.Proofs.Atomicity
import Chip8.Proofs.Stacks

/-!
# Calls, returns and the program counter

What a step does to the call stack, with the stack seen as a list: a call appends the address
behind it, a return takes the last address and goes there, and every other instruction leaves the
stack alone (`step_stack_cases`). Next to it stand the bounds on where the other instructions go.
-/

set_option autoImplicit false

namespace Chip8

namespace Instruction

variable {m : Machine} {xs : List UInt16}

/-- A call that is carried out jumps and appends the address that the program counter stands
at. -/
theorem effect_call (h : m.stack.Holds xs) {t : UInt16} (hf : (call t).fault? m = none) :
    ((call t).effect m).pc = t ∧ ((call t).effect m).stack.Holds (xs ++ [m.pc]) := by
  have hfull : ¬ m.stack.isFull = true := by
    intro hfull
    simp [fault?, hfull] at hf
  have hlt : xs.length < 16 := by
    rw [h.isFull_iff] at hfull
    have := h.length_le
    omega
  obtain ⟨s, hs, hholds⟩ := h.push hlt m.pc
  refine ⟨rfl, ?_⟩
  simp only [effect, hs, Option.getD_some]
  exact hholds

/-- A return that is carried out takes the last address and goes there. -/
theorem effect_ret (h : m.stack.Holds xs) (hf : ret.fault? m = none) :
    ∃ ys, xs = ys ++ [(ret.effect m).pc] ∧ (ret.effect m).stack.Holds ys := by
  have hne : xs ≠ [] := by
    rw [ne_eq, ← h.pointer_eq_zero_iff]
    intro hzero
    simp [fault?, hzero] at hf
  obtain ⟨ys, a, rfl⟩ := (List.eq_nil_or_concat xs).resolve_left hne
  rw [List.concat_eq_append] at h ⊢
  obtain ⟨-, haddr, hholds⟩ := h.pop
  refine ⟨ys, ?_, hholds⟩
  simp only [effect, haddr]

/-- A return that is carried out goes to the address in the slot below the pointer and clears the
slot. -/
theorem effect_ret_slot (hle : m.stack.pointer.toNat ≤ 16) (hf : ret.fault? m = none) :
    ∃ k, ∃ h : k < 16, m.stack.pointer.toNat = k + 1 ∧
      (ret.effect m).pc = m.stack.slots[k] ∧
      (ret.effect m).stack.slots = m.stack.slots.set k 0 h := by
  have hne : m.stack.pointer ≠ 0 := by
    intro hzero
    simp [fault?, hzero] at hf
  have hpred := CallStack.toNat_pred hne
  have hlt : (m.stack.pointer - 1).toNat < 16 := by omega
  refine ⟨_, hlt, hpred.symm, ?_⟩
  simp only [effect, CallStack.pop, if_neg hne]
  exact ⟨CallStack.slot_eq _ hlt, CallStack.setIfInBounds_eq_set hlt 0⟩

/-- An instruction that is neither a call nor a return leaves the stack alone. -/
theorem effect_stack (m : Machine) {i : Instruction} (hcall : ∀ t, i ≠ call t) (hret : i ≠ ret) :
    (i.effect m).stack = m.stack := by
  cases i
  case call t => exact absurd rfl (hcall t)
  case ret => exact absurd rfl hret
  case skip c =>
    simp only [effect]
    split
    · rfl
    · rfl
  case waitKey x =>
    obtain ⟨v, pc, hv⟩ := m.waitKey_eq x
    rw [effect, hv]
  case jump | jumpOffset => rfl
  all_goals exact (effect_keepsFlow m rfl).stack

/-- The sum of an address in a word and a byte is exact. -/
theorem toNat_jumpOffset {t : UInt16} (ht : t.toNat ≤ 0xFFF) (b : UInt8) :
    (t + b.toUInt16).toNat = t.toNat + b.toNat := by
  have hb := b.toNat_lt
  rw [UInt16.toNat_add, UInt8.toNat_toUInt16]
  omega

/-- A program counter that has moved past a word goes back by two without wrapping. -/
theorem toNat_sub_two {a : UInt16} (h : 2 ≤ a.toNat) : (a - 2).toNat = a.toNat - 2 := by
  have hle : (2 : UInt16) ≤ a := by
    rw [UInt16.le_iff_toNat_le]
    exact h
  rw [UInt16.toNat_sub_of_le _ _ hle]
  rfl

/-- A program counter that is not at the end of its range moves on by two without wrapping. -/
theorem toNat_add_two {a : UInt16} (h : a.toNat ≤ 0xFFFD) : (a + 2).toNat = a.toNat + 2 := by
  rw [UInt16.toNat_add]
  have htwo : (2 : UInt16).toNat = 2 := rfl
  omega

/-- Behind a word inside memory, an instruction other than a return goes to an address below
`0x10FF`, the largest that a jump relative to a register can reach. -/
theorem effect_pc_le {w : Word} {i : Instruction} (hi : Names w i) (hret : i ≠ ret)
    (hlow : 2 ≤ m.pc.toNat) (hhigh : m.pc.toNat ≤ 0x1000) : (i.effect m).pc.toNat ≤ 0x10FE := by
  cases i
  case ret => exact absurd rfl hret
  case jump t | call t =>
    have ht : t.toNat = w.toNat % 4096 := hi.2
    simp only [effect]
    omega
  case skip c =>
    simp only [effect]
    split
    · simp only [toNat_add_two (Nat.le_trans hhigh (by decide))]
      omega
    · omega
  case jumpOffset x t =>
    have ht : t.toNat = w.toNat % 4096 := hi.1.2
    have hb := (m.reg (if m.dialect.jumpReadsVX then x else offsetRegister)).toNat_lt
    simp only [effect]
    rw [toNat_jumpOffset (by omega)]
    omega
  case waitKey x =>
    simp only [effect, Machine.waitKey]
    split
    · simp only [Machine.setReg]
      omega
    · simp only [toNat_sub_two hlow]
      omega
  all_goals
    rw [(effect_keepsFlow m rfl).pc]
    omega

end Instruction

namespace Machine

open Instruction

/-- The machine that an instruction sees stands two further and is the same in all else. -/
theorem fetch_pc {m : Machine} (hpc : m.pc.toNat ≤ 4094) : m.fetch.2.pc.toNat = m.pc.toNat + 2 :=
  toNat_add_two (Nat.le_trans hpc (by decide))

/-- A step without a fault calls, returns or leaves the stack alone. -/
theorem step_stack_cases {m : Machine} {xs : List UInt16} (h : m.stack.Holds xs)
    (hrun : m.step.faulted = false) :
    ∃ w, m.memory.HoldsWord m.pc.toNat w ∧ m.pc.toNat ≤ 4094 ∧
      ((∃ t, Names w (call t) ∧ m.step.pc = t ∧ m.step.stack.Holds (xs ++ [m.pc + 2])) ∨
        (∃ ys, Names w ret ∧ xs = ys ++ [m.step.pc] ∧ m.step.stack.Holds ys) ∨
        (w.toNat / 4096 ≠ 2 ∧ w.toNat ≠ 0x00EE ∧ m.step.stack = m.stack)) := by
  generalize hr : m.step = r at hrun ⊢
  cases steps_iff.mpr hr
  case halted hh =>
    rw [hrun] at hh
    cases hh
  case pastEnd =>
    rw [faulted_trip] at hrun
    cases hrun
  case refused =>
    rw [faulted_trip] at hrun
    cases hrun
  case done w i _ hpc hw hi hf =>
    have hnames := decode_eq_some_iff.mp hi
    rw [← Instruction.fault?_fetch] at hf
    refine ⟨w, hw, hpc, ?_⟩
    by_cases hcall : ∃ t, i = call t
    · obtain ⟨t, rfl⟩ := hcall
      exact .inl ⟨t, hnames, effect_call (m := m.fetch.2) h hf⟩
    · by_cases hret : i = ret
      · subst hret
        obtain ⟨ys, hxs, hholds⟩ := effect_ret (m := m.fetch.2) h hf
        exact .inr (.inl ⟨ys, hnames, hxs, hholds⟩)
      · have hstack := effect_stack m.fetch.2 (fun t ht => hcall ⟨t, ht⟩) hret
        refine .inr (.inr ⟨fun hop => hcall ?_, fun hw' => hret ?_, hstack⟩)
        · -- the word names a call and `i`, so they are the same
          have hname : Names w (call w.address) := ⟨hop, w.address_toNat⟩
          rw [← decode_eq_some_iff, hi] at hname
          exact ⟨_, Option.some.inj hname⟩
        · have hname : Names w ret := hw'
          rw [← decode_eq_some_iff, hi] at hname
          exact Option.some.inj hname

end Machine

end Chip8
