import Chip8.Proofs.Atomicity

/-!
# Why a word faults

`Fault.Cause` says in numbers when a word raises each of the four faults: it is unassigned, it is
a call with a full stack, it is a return with an empty one, or it reaches past the end of memory
from the index on. `Machine.fault?_eq_some_iff` ties this to the machine word by word, and
`step_fault_iff` is the classification of every step of a running machine.
-/

set_option autoImplicit false

namespace Chip8

/-- Different faults have different codes. -/
theorem Fault.code_injective {f g : Fault} (h : f.code = g.code) : f = g := by
  cases f
  all_goals cases g
  all_goals first
    | rfl
    | exact absurd h (by decide)

/-- The codes of the faults end with four. -/
theorem Fault.code_le (f : Fault) : f.code.toNat ≤ 4 := by
  cases f
  all_goals decide

/-- When a word raises a fault on a machine. For the memory fault these are the three kinds of
transfers from the index on: the rows of a sprite, the three digits of a byte, and the registers
up to `VX`. -/
def Fault.Cause (m : Machine) (w : Word) : Fault → Prop
  | decode => w.Unassigned
  | stackOverflow => w.toNat / 4096 = 0x2 ∧ 16 ≤ m.stack.pointer.toNat
  | stackUnderflow => w.toNat = 0x00EE ∧ m.stack.pointer = 0
  | memory =>
    w.toNat / 4096 = 0xD ∧ 4096 < (m.index &&& 0xFFF).toNat + w.toNat % 16 ∨
    w.toNat / 4096 = 0xF ∧ w.toNat % 256 = 0x33 ∧ 4096 < (m.index &&& 0xFFF).toNat + 3 ∨
    w.toNat / 4096 = 0xF ∧ (w.toNat % 256 = 0x55 ∨ w.toNat % 256 = 0x65) ∧
      4096 < (m.index &&& 0xFFF).toNat + (w.toNat / 256 % 16 + 1)

namespace Machine

/-- The index stands for its low twelve bits. -/
theorem base_eq (m : Machine) : m.base = (m.index &&& 0xFFF).toNat :=
  (Word.address_toNat m.index).symm

end Machine

namespace Instruction

/-- No instruction raises the fault of an unassigned word. -/
theorem fault?_ne_decode (m : Machine) (i : Instruction) : i.fault? m ≠ some .decode := by
  cases i
  all_goals simp only [fault?]
  all_goals split
  all_goals simp

/-- Only a call overflows the stack, and only a full one. -/
theorem fault?_eq_stackOverflow_iff {m : Machine} {i : Instruction} :
    i.fault? m = some .stackOverflow ↔ (∃ t, i = call t) ∧ 16 ≤ m.stack.pointer.toNat := by
  cases i
  case call t =>
    have hfull : m.stack.isFull = true ↔ 16 ≤ m.stack.pointer.toNat := decide_eq_true_iff
    simp [fault?, hfull]
  all_goals simp only [fault?, reduceCtorEq, exists_false, false_and, iff_false]
  all_goals split
  all_goals simp

/-- Only a return from an empty stack underflows. -/
theorem fault?_eq_stackUnderflow_iff {m : Machine} {i : Instruction} :
    i.fault? m = some .stackUnderflow ↔ i = ret ∧ m.stack.pointer = 0 := by
  cases i
  case ret => simp [fault?]
  all_goals simp only [fault?, reduceCtorEq, false_and, iff_false]
  all_goals split
  all_goals simp

/-- Only an instruction that reaches past the end of memory raises the memory fault. -/
theorem fault?_eq_memory_iff {m : Machine} {i : Instruction} :
    i.fault? m = some .memory ↔ 4096 < m.base + i.span := by
  have hbase := m.base_lt
  have hfits : Memory.fits m.base i.span = true ↔ m.base + i.span ≤ 4096 := decide_eq_true_iff
  cases i
  case ret | call =>
    -- the two have faults of their own, and transfer nothing
    simp only [fault?, span]
    split
    all_goals simp only [reduceCtorEq, Option.some.injEq, false_iff]
    all_goals omega
  all_goals simp only [fault?]
  all_goals split
  all_goals rename_i h
  all_goals rw [hfits] at h
  all_goals simp only [reduceCtorEq, false_iff, true_iff]
  all_goals omega

end Instruction

namespace Machine

open Instruction

/-- A word raises a fault other than that of an unassigned word through the instruction that it
names. -/
theorem fault?_eq_some_iff_exists {m : Machine} {w : Word} {f : Fault} (hf : f ≠ .decode) :
    m.fault? w = some f ↔ ∃ i, Names w i ∧ i.fault? m = some f := by
  simp only [← decode_eq_some_iff, fault?]
  cases Instruction.decode w with
  | none => simp [hf.symm]
  | some i => simp

/-- A word raises the fault of an unassigned word exactly if it is one. -/
theorem fault?_eq_decode_iff {m : Machine} {w : Word} :
    m.fault? w = some .decode ↔ w.Unassigned := by
  rw [← decode_eq_none_iff]
  unfold fault?
  cases Instruction.decode w with
  | none => simp
  | some i => simp [i.fault?_ne_decode]

/-- A word raises a fault exactly if the cause of the fault is there. -/
theorem fault?_eq_some_iff {m : Machine} {w : Word} {f : Fault} :
    m.fault? w = some f ↔ f.Cause m w := by
  cases f with
  | decode => exact fault?_eq_decode_iff
  | stackOverflow =>
    simp only [fault?_eq_some_iff_exists, fault?_eq_stackOverflow_iff, ne_eq, reduceCtorEq,
      not_false_eq_true, Fault.Cause]
    constructor
    · rintro ⟨i, hi, ⟨t, rfl⟩, hfull⟩
      exact ⟨hi.1, hfull⟩
    · rintro ⟨hop, hfull⟩
      exact ⟨call w.address, ⟨hop, w.address_toNat⟩, ⟨_, rfl⟩, hfull⟩
  | stackUnderflow =>
    simp only [fault?_eq_some_iff_exists, fault?_eq_stackUnderflow_iff, ne_eq, reduceCtorEq,
      not_false_eq_true, Fault.Cause]
    constructor
    · rintro ⟨i, hi, rfl, hempty⟩
      exact ⟨hi, hempty⟩
    · rintro ⟨hw, hempty⟩
      exact ⟨ret, hw, rfl, hempty⟩
  | memory =>
    have hbase := m.base_lt
    simp only [fault?_eq_some_iff_exists, fault?_eq_memory_iff, ne_eq, reduceCtorEq,
      not_false_eq_true, Fault.Cause, ← m.base_eq]
    constructor
    · rintro ⟨i, hi, hspan⟩
      cases i
      case draw x y n =>
        have hn : n.val = w.toNat % 16 := hi.2
        exact .inl ⟨hi.1.1.1, hn ▸ hspan⟩
      case decimal x => exact .inr (.inl ⟨hi.1.1, hi.2, hspan⟩)
      case store x =>
        have hx : x.val = w.toNat / 256 % 16 := hi.1.2
        exact .inr (.inr ⟨hi.1.1, .inl hi.2, hx ▸ hspan⟩)
      case load x =>
        have hx : x.val = w.toNat / 256 % 16 := hi.1.2
        exact .inr (.inr ⟨hi.1.1, .inr hi.2, hx ▸ hspan⟩)
      -- every other instruction has an empty span
      all_goals simp only [span] at hspan
      all_goals omega
    · rintro (⟨hop, hspan⟩ | ⟨hop, hlow, hspan⟩ | ⟨hop, hlow, hspan⟩)
      · rw [← Fields.ofWord_n w] at hspan
        exact ⟨Instruction.draw _ _ _, ⟨hasXY_fields hop, Fields.ofWord_n w⟩, hspan⟩
      · exact ⟨decimal _, ⟨(hasXY_fields hop).1, hlow⟩, hspan⟩
      · rw [← Fields.ofWord_x w] at hspan
        rcases hlow with hlow | hlow
        · exact ⟨store _, ⟨(hasXY_fields hop).1, hlow⟩, hspan⟩
        · exact ⟨Instruction.load _, ⟨(hasXY_fields hop).1, hlow⟩, hspan⟩

/-- A running machine either latches the word at its program counter with the fault that the word
raises, or the word raises none and the latch stays empty. -/
theorem step_latch_cases {m : Machine} {w : Word} (hrun : m.faulted = false)
    (hw : m.memory.HoldsWord m.pc.toNat w) :
    (∃ f, m.fault? w = some f ∧ m.step = m.trip f w) ∨
      m.fault? w = none ∧ m.step.fault = 0 := by
  generalize hr : m.step = r
  cases steps_iff.mpr hr
  case halted h =>
    rw [hrun] at h
    cases h
  case pastEnd hpc =>
    have hle := hw.le
    omega
  case refused w' f _ _ hw' hf =>
    obtain rfl := hw.unique hw'
    exact .inl ⟨f, hf, rfl⟩
  case done w' i _ _ hw' hi hf =>
    obtain rfl := hw.unique hw'
    have hkeep := (i.effect_keepsHost m.fetch.2).fault
    exact .inr ⟨(fault?_of_decode hi).trans hf, hkeep.trans (faulted_eq_false_iff.mp hrun)⟩

/-- The instruction that a step without a fault carries out raises none. -/
theorem fault?_of_step {m : Machine} {w : Word} {i : Instruction} (hrun : m.faulted = false)
    (hw : m.memory.HoldsWord m.pc.toNat w) (hi : Instruction.decode w = some i)
    (hstep : m.step.faulted = false) : i.fault? m = none := by
  rcases step_latch_cases hrun hw with ⟨f, -, htrip⟩ | ⟨hnone, -⟩
  · rw [htrip, faulted_trip] at hstep
    cases hstep
  · rw [← fault?_of_decode hi]
    exact hnone

/-- A step of a running machine has the code of a fault exactly if the word at the program counter
raises it. -/
theorem fault_step_eq_code_iff {m : Machine} {w : Word} {f : Fault} (hrun : m.faulted = false)
    (hw : m.memory.HoldsWord m.pc.toNat w) :
    m.step.fault = f.code ↔ m.fault? w = some f := by
  rcases step_latch_cases hrun hw with ⟨g, hg, hstep⟩ | ⟨hnone, hstep⟩
  · rw [hstep, hg]
    constructor
    · intro h
      rw [Fault.code_injective h]
    · intro h
      rw [Option.some.inj h]
      rfl
  · rw [hstep, hnone]
    constructor
    · intro h
      exact absurd h.symm f.code_ne_zero
    · intro h
      cases h

/-- A running machine past the last word faults with the code of a memory fault and no word. Any
other running machine steps to the word that stands at its program counter and latches that word
if it faults, with the code of a decoding fault exactly for the unassigned words, of an overflow
exactly for calls with a full stack, of an underflow exactly for returns with an empty one, of a
memory fault exactly for transfers that reach past the end of memory, and with no other code. -/
theorem step_fault_iff (m : Machine) (hrun : m.faulted = false) :
    (4094 < m.pc.toNat → m.step.fault = 4 ∧ m.step.faultWord = 0) ∧
    (m.pc.toNat ≤ 4094 → ∃ w, m.memory.HoldsWord m.pc.toNat w ∧
      (m.step.faulted = true → m.step.faultWord = w) ∧
      (m.step.fault = 1 ↔ w.Unassigned) ∧
      (m.step.fault = 2 ↔ w.toNat / 4096 = 0x2 ∧ 16 ≤ m.stack.pointer.toNat) ∧
      (m.step.fault = 3 ↔ w.toNat = 0x00EE ∧ m.stack.pointer = 0) ∧
      (m.step.fault = 4 ↔
        w.toNat / 4096 = 0xD ∧ 4096 < (m.index &&& 0xFFF).toNat + w.toNat % 16 ∨
        w.toNat / 4096 = 0xF ∧ w.toNat % 256 = 0x33 ∧ 4096 < (m.index &&& 0xFFF).toNat + 3 ∨
        w.toNat / 4096 = 0xF ∧ (w.toNat % 256 = 0x55 ∨ w.toNat % 256 = 0x65) ∧
          4096 < (m.index &&& 0xFFF).toNat + (w.toNat / 256 % 16 + 1)) ∧
      m.step.fault.toNat ≤ 4) := by
  constructor
  · intro hpc
    rw [steps_iff.mp (.pastEnd hrun hpc)]
    exact ⟨rfl, rfl⟩
  · intro hpc
    have hw := m.memory.holdsWord_word hpc
    have hcause : ∀ f : Fault, m.step.fault = f.code ↔ f.Cause m (m.memory.word m.pc) := by
      intro f
      rw [fault_step_eq_code_iff hrun hw, fault?_eq_some_iff]
    refine ⟨_, hw, ?_, hcause .decode, hcause .stackOverflow, hcause .stackUnderflow,
      hcause .memory, ?_⟩
    · intro h
      rcases step_latch_cases hrun hw with ⟨f, -, hstep⟩ | ⟨-, hstep⟩
      · rw [hstep]
        rfl
      · exact absurd hstep (faulted_eq_true_iff.mp h)
    · rcases step_latch_cases hrun hw with ⟨f, -, hstep⟩ | ⟨-, hstep⟩
      · rw [hstep]
        exact f.code_le
      · rw [hstep]
        decide

/-- A machine with a full stack in front of a call. -/
def callingFull : Machine :=
  { bare [0x22, 0x00] with stack := ⟨Vector.replicate 16 0x202, 16⟩ }

/-- The call overflows the stack, and the word `2200` is latched with it. -/
theorem step_fault_iff_callingFull :
    callingFull.faulted = false ∧ callingFull.pc.toNat ≤ 4094 ∧
      callingFull.memory.HoldsWord callingFull.pc.toNat 0x2200 ∧
      callingFull.step.fault = 2 ∧ callingFull.step.faultWord = 0x2200 := by
  have hrun : callingFull.faulted = false := by decide
  have hpc : callingFull.pc.toNat ≤ 4094 := by decide
  have hword : callingFull.memory.HoldsWord callingFull.pc.toNat 0x2200 :=
    ⟨0x22, 0x00, by decide +kernel, by decide +kernel, rfl⟩
  obtain ⟨w, hw, hlatched, -, hoverflow, -⟩ := (step_fault_iff callingFull hrun).2 hpc
  obtain rfl := hw.unique hword
  have hfault : callingFull.step.fault = 2 := hoverflow.mpr ⟨by decide, by decide⟩
  have hstep : callingFull.step.faulted = true := by
    rw [faulted_eq_true_iff, hfault]
    decide
  exact ⟨hrun, hpc, hword, hfault, hlatched hstep⟩

end Machine

end Chip8
