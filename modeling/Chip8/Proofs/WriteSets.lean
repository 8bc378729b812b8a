import Chip8.Proofs.Transfers
import Chip8.Proofs.Calls

/-!
# What an instruction may change

Every instruction has a write set: the parts of the machine that it can change at all.
`Machine.ChangesOnly m r w` says in numbers, part by part, that going from the machine `m` to `r`
stayed inside the write set of the word `w`. For memory, the stack and the registers the set is a
set of addresses, slots and register numbers, and not the whole array. `execute_changesOnly` is the
top: an execution without a fault stays inside the write set of its word, on every machine and in
every dialect. What faults changes nothing but the latch and needs no set.
-/

set_option autoImplicit false

namespace Chip8

/-- The word is `FXNN` with the low byte `low`. -/
def Word.IsMisc (w : Word) (low : Nat) : Prop := w.toNat / 4096 = 0xF ∧ w.toNat % 256 = low

instance (w : Word) (low : Nat) : Decidable (w.IsMisc low) := inferInstanceAs (Decidable (_ ∧ _))

namespace Machine

/-- A register that was set holds the byte, and the others what they held. -/
theorem reg_setReg (m : Machine) (x k : Nibble) (b : UInt8) :
    (m.setReg x b).reg k = if x = k then b else m.reg k := by
  simp only [setReg, reg, Vector.get_eq_getElem, Vector.getElem_set, Fin.ext_iff]

/-- Setting a register leaves the others alone. -/
theorem reg_setReg_of_ne (m : Machine) {x k : Nibble} (h : k ≠ x) (b : UInt8) :
    (m.setReg x b).reg k = m.reg k := by
  rw [reg_setReg, if_neg h.symm]

/-- The flag register holds one or zero. -/
theorem reg_setFlag (m : Machine) (on : Bool) :
    (m.setFlag on).reg flagRegister = if on then 1 else 0 := by
  rw [setFlag, reg_setReg, if_pos rfl]

/-- An operation sets its own register, and the flag register if it has a flag. -/
theorem reg_writeOutcome (m : Machine) {x k : Nibble} (o : AluOutcome) (hx : k ≠ x)
    (hflag : o.flag = none ∨ k ≠ flagRegister) : (m.writeOutcome x o).reg k = m.reg k := by
  unfold writeOutcome
  split
  · rename_i f hf
    have hk : k ≠ flagRegister := by
      rcases hflag with hnone | hk
      · rw [hf] at hnone
        cases hnone
      · exact hk
    rw [setFlag, reg_setReg_of_ne _ hk, reg_setReg_of_ne _ hx]
  · exact m.reg_setReg_of_ne hx _

end Machine

namespace Instruction

/-- The registers that an instruction can set. -/
def sets (k : Nibble) : Instruction → Bool
  | set x _ | add x _ | random x _ | getDelay x | waitKey x | alu .set x _ => k == x
  | alu _ x _ => k == x || k == flagRegister
  | draw _ _ _ => k == flagRegister
  | load x => decide (k ≤ x)
  | _ => false

/-- The bytes that an instruction stores from the index on. -/
def stores (m : Machine) : Instruction → List UInt8
  | decimal x => decimalDigits (m.reg x)
  | store x => m.v.toList.take (x + 1)
  | _ => []

variable {m : Machine} {i : Instruction}

/-- The instructions that set registers or the program counter in one of several ways. -/
def branches : Instruction → Bool
  | skip _ | alu _ _ _ | waitKey _ => true
  | _ => false

/-- An instruction that only branches or calculates leaves all but registers and program counter
alone. -/
theorem effect_of_branches (m : Machine) (h : i.branches = true) :
    ∃ v pc, i.effect m = { m with v := v, pc := pc } := by
  cases i
  case skip c =>
    simp only [effect]
    split
    · exact ⟨m.v, _, rfl⟩
    · exact ⟨m.v, m.pc, rfl⟩
  case alu op x y =>
    obtain ⟨v, hv⟩ := m.writeOutcome_eq x (op.outcome m.dialect (m.reg x) (m.reg y))
    exact ⟨v, m.pc, hv⟩
  case waitKey x => exact m.waitKey_eq x
  all_goals cases h

/-- No register outside of the set changes. -/
theorem effect_reg {k : Nibble} (h : i.sets k = false) : (i.effect m).reg k = m.reg k := by
  cases i
  case set x b | add x b | random x b | getDelay x =>
    have hk : k ≠ x := by simpa [sets] using h
    exact m.reg_setReg_of_ne hk _
  case alu op x y =>
    have hk : k ≠ x := by
      cases op
      all_goals simp_all [sets]
    apply m.reg_writeOutcome _ hk
    cases op
    case set => exact .inl (by simp [AluOp.outcome, AluOp.apply, AluOp.isLogic])
    all_goals
      right
      simp_all [sets]
  case draw x y n =>
    have hk : k ≠ flagRegister := by simpa [sets] using h
    exact Machine.reg_setReg_of_ne _ hk _
  case waitKey x =>
    have hk : k ≠ x := by simpa [sets] using h
    simp only [effect, Machine.waitKey]
    split
    · exact m.reg_setReg_of_ne hk _
    · rfl
  case load x =>
    have hk : ¬ k ≤ x := by simpa [sets] using h
    simp [effect, Machine.moveIndex_eq, Machine.reg, Machine.loadRegisters,
      List.getD_eq_getElem?_getD, Memory.getElem?_slice, hk, Vector.get_eq_getElem]
  case store x => rw [effect, Machine.moveIndex_eq, Machine.reg, Machine.reg, Machine.writeMemory]
  case skip c =>
    simp only [effect]
    split
    · rfl
    · rfl
  all_goals rfl

/-- Memory afterwards is memory before with the stored bytes written to it. -/
theorem effect_memory (m : Machine) (i : Instruction) :
    (i.effect m).memory = m.memory.write m.base (i.stores m) := by
  have hbranches := effect_of_branches m (i := i)
  cases i
  case skip | alu | waitKey =>
    obtain ⟨v, pc, h⟩ := hbranches rfl
    rw [h]
    rfl
  case store x | load x =>
    rw [effect, Machine.moveIndex_eq]
    rfl
  all_goals rfl

/-- The parts of a machine that are single values, and which instruction can have changed each. -/
structure Wrote (i : Instruction) (m r : Machine) : Prop where
  rng : r.rng ≠ m.rng → ∃ x mask, i = random x mask
  screen : r.screen ≠ m.screen → i = clear ∨ ∃ x y n, i = draw x y n
  delayTimer : r.delayTimer ≠ m.delayTimer → ∃ x, i = setDelay x
  soundTimer : r.soundTimer ≠ m.soundTimer → ∃ x, i = setSound x
  index : r.index ≠ m.index →
    (∃ t, i = setIndex t) ∨ (∃ x, i = addIndex x) ∨ (∃ x, i = glyph x) ∨
      m.dialect.transferMovesIndex = true ∧ ∃ x, i = store x ∨ i = load x

/-- Each part of a machine is written by its own instructions only. -/
theorem wrote_effect (m : Machine) (i : Instruction) : i.Wrote m (i.effect m) := by
  have hbranches := effect_of_branches m (i := i)
  cases i
  case skip | alu | waitKey =>
    obtain ⟨v, pc, h⟩ := hbranches rfl
    rw [h]
    constructor
    all_goals exact fun h => absurd rfl h
  case store x | load x =>
    simp only [effect, Machine.moveIndex_eq]
    constructor
    case index =>
      intro h
      cases hmoves : m.dialect.transferMovesIndex with
      | false => simp [hmoves, Machine.writeMemory] at h
      | true => simp
    all_goals exact fun h => absurd rfl h
  all_goals constructor
  all_goals intro h
  all_goals first
    | exact absurd rfl h
    | simp

/-- A call writes the slot that the pointer shows, a return the one below it. -/
theorem effect_slots (hf : i.fault? m = none) {k : Nat} (hk : k < 16)
    (h : (i.effect m).stack.slots[k] ≠ m.stack.slots[k]) :
    (∃ t, i = call t) ∧ k = m.stack.pointer.toNat ∨
      i = ret ∧ k + 1 = m.stack.pointer.toNat := by
  by_cases hcall : ∃ t, i = call t
  · obtain ⟨t, rfl⟩ := hcall
    have hfree : m.stack.isFull = false := by
      cases hfull : m.stack.isFull with
      | false => rfl
      | true => simp [fault?, hfull] at hf
    simp only [effect, CallStack.push?_eq_some hfree, Option.getD_some] at h
    rw [Vector.getElem_setIfInBounds hk] at h
    left
    refine ⟨⟨t, rfl⟩, ?_⟩
    by_contra hne
    exact h (if_neg fun heq => hne heq.symm)
  · by_cases hret : i = ret
    · subst hret
      have hne : m.stack.pointer ≠ 0 := by
        intro hzero
        simp [fault?, hzero] at hf
      have hpred := CallStack.toNat_pred hne
      simp only [effect, CallStack.pop, if_neg hne] at h
      rw [Vector.getElem_setIfInBounds hk] at h
      right
      refine ⟨rfl, ?_⟩
      by_contra hother
      exact h (if_neg (by omega))
    · rw [effect_stack m (fun t ht => hcall ⟨t, ht⟩) hret] at h
      exact absurd rfl h

end Instruction

namespace Machine

/-- Going from `m` to `r` changes nothing outside of the write set of the word `w`. -/
structure ChangesOnly (m r : Machine) (w : Word) : Prop where
  memory : ∀ a (ha : a < 4096), r.memory[a] ≠ m.memory[a] →
    w.IsMisc 0x33 ∧ m.base ≤ a ∧ a < m.base + 3 ∨
    w.IsMisc 0x55 ∧ m.base ≤ a ∧ a < m.base + (w.toNat / 256 % 16 + 1)
  screen : r.screen ≠ m.screen → w.toNat = 0x00E0 ∨ w.toNat / 4096 = 0xD
  pointer : r.stack.pointer ≠ m.stack.pointer → w.toNat / 4096 = 0x2 ∨ w.toNat = 0x00EE
  slots : ∀ k (hk : k < 16), r.stack.slots[k] ≠ m.stack.slots[k] →
    w.toNat / 4096 = 0x2 ∧ k = m.stack.pointer.toNat ∨
    w.toNat = 0x00EE ∧ k + 1 = m.stack.pointer.toNat
  rng : r.rng ≠ m.rng → w.toNat / 4096 = 0xC
  delayTimer : r.delayTimer ≠ m.delayTimer → w.IsMisc 0x15
  soundTimer : r.soundTimer ≠ m.soundTimer → w.IsMisc 0x18
  index : r.index ≠ m.index →
    w.toNat / 4096 = 0xA ∨ w.IsMisc 0x1E ∨ w.IsMisc 0x29 ∨
      (w.IsMisc 0x55 ∨ w.IsMisc 0x65) ∧ m.dialect.transferMovesIndex = true
  registers : ∀ k : Nibble, r.reg k ≠ m.reg k →
    k.val = w.toNat / 256 % 16 ∧
      (w.toNat / 4096 = 0x6 ∨ w.toNat / 4096 = 0x7 ∨ w.toNat / 4096 = 0xC ∨
        w.toNat / 4096 = 0x8 ∧ w.toNat % 16 = 0 ∨ w.IsMisc 0x07 ∨ w.IsMisc 0x0A) ∨
    w.toNat / 4096 = 0x8 ∧ w.toNat % 16 ≠ 0 ∧ (k.val = w.toNat / 256 % 16 ∨ k.val = 0xF) ∨
    w.toNat / 4096 = 0xD ∧ k.val = 0xF ∨
    w.IsMisc 0x65 ∧ k.val ≤ w.toNat / 256 % 16
  /-- The keypads, the dialect and the latch are in no write set. -/
  host : m.KeepsHost r

end Machine

namespace Instruction

variable {m : Machine} {w : Word} {i : Instruction}

/-- Where an instruction has changed memory, it is `FX33` or `FX55` and the address is one it stores
to. -/
theorem changed_memory (hi : Names w i) {a : Nat} (ha : a < 4096)
    (h : (i.effect m).memory[a] ≠ m.memory[a]) :
    w.IsMisc 0x33 ∧ m.base ≤ a ∧ a < m.base + 3 ∨
    w.IsMisc 0x55 ∧ m.base ≤ a ∧ a < m.base + (w.toNat / 256 % 16 + 1) := by
  simp only [effect_memory] at h
  obtain ⟨hle, hlt⟩ := Memory.span_of_write_ne ha h
  cases i
  case decimal x => exact .inl ⟨⟨hi.1.1, hi.2⟩, hle, hlt⟩
  case store x =>
    have hx : x.val = w.toNat / 256 % 16 := hi.1.2
    simp only [stores, List.length_take] at hlt
    exact .inr ⟨⟨hi.1.1, hi.2⟩, hle, by omega⟩
  -- the others store nothing
  all_goals simp only [stores, List.length_nil] at hlt
  all_goals omega

/-- Only calls and returns change the stack. -/
theorem changed_stack (hi : Names w i) (h : (i.effect m).stack ≠ m.stack) :
    w.toNat / 4096 = 0x2 ∨ w.toNat = 0x00EE := by
  by_contra hother
  apply h
  apply effect_stack m
  · rintro t rfl
    exact hother (.inl hi.1)
  · rintro rfl
    exact hother (.inr hi)

/-- Only `ANNN`, `FX1E` and `FX29` change the index, and transfers where the dialect moves it. -/
theorem changed_index (hi : Names w i) (h : (i.effect m).index ≠ m.index) :
    w.toNat / 4096 = 0xA ∨ w.IsMisc 0x1E ∨ w.IsMisc 0x29 ∨
      (w.IsMisc 0x55 ∨ w.IsMisc 0x65) ∧ m.dialect.transferMovesIndex = true := by
  rcases (wrote_effect m i).index h with ⟨t, rfl⟩ | ⟨x, rfl⟩ | ⟨x, rfl⟩ | ⟨hmoves, x, rfl | rfl⟩
  · exact .inl hi.1
  · exact .inr (.inl ⟨hi.1.1, hi.2⟩)
  · exact .inr (.inr (.inl ⟨hi.1.1, hi.2⟩))
  · exact .inr (.inr (.inr ⟨.inl ⟨hi.1.1, hi.2⟩, hmoves⟩))
  · exact .inr (.inr (.inr ⟨.inr ⟨hi.1.1, hi.2⟩, hmoves⟩))

/-- A register that an instruction has changed is `VX`, the flag, or one of those that `FX65`
loads. -/
theorem changed_reg (hi : Names w i) {k : Nibble} (h : (i.effect m).reg k ≠ m.reg k) :
    k.val = w.toNat / 256 % 16 ∧
      (w.toNat / 4096 = 0x6 ∨ w.toNat / 4096 = 0x7 ∨ w.toNat / 4096 = 0xC ∨
        w.toNat / 4096 = 0x8 ∧ w.toNat % 16 = 0 ∨ w.IsMisc 0x07 ∨ w.IsMisc 0x0A) ∨
    w.toNat / 4096 = 0x8 ∧ w.toNat % 16 ≠ 0 ∧ (k.val = w.toNat / 256 % 16 ∨ k.val = 0xF) ∨
    w.toNat / 4096 = 0xD ∧ k.val = 0xF ∨
    w.IsMisc 0x65 ∧ k.val ≤ w.toNat / 256 % 16 := by
  have hset : i.sets k = true := by
    rw [← Bool.not_eq_false]
    exact fun hkept => h (effect_reg hkept)
  cases i
  case set x b =>
    obtain rfl : k = x := by simpa [sets] using hset
    exact .inl ⟨hi.1.2, .inl hi.1.1⟩
  case add x b =>
    obtain rfl : k = x := by simpa [sets] using hset
    exact .inl ⟨hi.1.2, .inr (.inl hi.1.1)⟩
  case random x mask =>
    obtain rfl : k = x := by simpa [sets] using hset
    exact .inl ⟨hi.1.2, .inr (.inr (.inl hi.1.1))⟩
  case getDelay x =>
    obtain rfl : k = x := by simpa [sets] using hset
    exact .inl ⟨hi.1.2, .inr (.inr (.inr (.inr (.inl ⟨hi.1.1, hi.2⟩))))⟩
  case waitKey x =>
    obtain rfl : k = x := by simpa [sets] using hset
    exact .inl ⟨hi.1.2, .inr (.inr (.inr (.inr (.inr ⟨hi.1.1, hi.2⟩))))⟩
  case alu op x y =>
    obtain ⟨hxy, hdigit⟩ := hi
    by_cases hop : op = .set
    · subst hop
      obtain rfl : k = x := by simpa [sets] using hset
      exact .inl ⟨hxy.1.2, .inr (.inr (.inr (.inl ⟨hxy.1.1, hdigit⟩)))⟩
    · have hk : k = x ∨ k = flagRegister := by
        cases op
        case set => exact absurd rfl hop
        all_goals simpa [sets] using hset
      have hne : w.toNat % 16 ≠ 0 := by
        rw [hdigit]
        cases op
        case set => exact absurd rfl hop
        all_goals simp [AluOp.digit]
      refine .inr (.inl ⟨hxy.1.1, hne, ?_⟩)
      rcases hk with rfl | rfl
      · exact .inl hxy.1.2
      · exact .inr rfl
  case draw x y n =>
    obtain rfl : k = flagRegister := by simpa [sets] using hset
    exact .inr (.inr (.inl ⟨hi.1.1.1, rfl⟩))
  case load x =>
    have hk : k ≤ x := by simpa [sets] using hset
    have hx : x.val = w.toNat / 256 % 16 := hi.1.2
    exact .inr (.inr (.inr ⟨⟨hi.1.1, hi.2⟩, hx ▸ hk⟩))
  all_goals cases hset

/-- The effect of an instruction that raises no fault stays inside the write set of its word. -/
theorem changesOnly_effect (hi : Names w i) (hf : i.fault? m = none) :
    m.ChangesOnly (i.effect m) w where
  memory := fun a ha h => changed_memory hi ha h
  screen := by
    intro h
    rcases (wrote_effect m i).screen h with rfl | ⟨x, y, n, rfl⟩
    · exact .inl hi
    · exact .inr hi.1.1.1
  pointer := fun h => changed_stack hi fun hsame => h (by rw [hsame])
  slots := by
    intro k hk h
    rcases effect_slots hf hk h with ⟨⟨t, rfl⟩, hslot⟩ | ⟨rfl, hslot⟩
    · exact .inl ⟨hi.1, hslot⟩
    · exact .inr ⟨hi, hslot⟩
  rng := by
    intro h
    obtain ⟨x, mask, rfl⟩ := (wrote_effect m i).rng h
    exact hi.1.1
  delayTimer := by
    intro h
    obtain ⟨x, rfl⟩ := (wrote_effect m i).delayTimer h
    exact ⟨hi.1.1, hi.2⟩
  soundTimer := by
    intro h
    obtain ⟨x, rfl⟩ := (wrote_effect m i).soundTimer h
    exact ⟨hi.1.1, hi.2⟩
  index := fun h => changed_index hi h
  registers := fun k h => changed_reg hi h
  host := i.effect_keepsHost m

end Instruction

namespace Machine

/-- Executing any integer without a fault changes the machine inside of the write set of its word
only: memory at the three bytes of `FX33` and the `X + 1` bytes of `FX55`, counted from the index;
the screen for `00E0` and `DXYN`; the stack at the pointer and the slot that it shows for `2NNN`, or
the slot below it for `00EE`; the random source for `CXNN`; each timer for the instruction that
sets it; the index for `ANNN`, `FX1E`, `FX29` and, in dialects where transfers move it, for `FX55`
and `FX65`; the registers that the word sets; and never a keypad, the dialect or the latch. -/
theorem execute_changesOnly (m : Machine) (n : Int) (h : (m.executeInt n).faulted = false) :
    m.ChangesOnly (m.executeInt n) (Word.ofInt n) := by
  rw [executeInt] at h ⊢
  generalize hr : m.execute (Word.ofInt n) = r at h ⊢
  cases executes_iff.mpr hr
  case halted hhalt =>
    rw [hhalt] at h
    cases h
  case refused f hrun hf =>
    rw [faulted_trip] at h
    cases h
  case done i hrun hi hf =>
    exact Instruction.changesOnly_effect (Instruction.decode_eq_some_iff.mp hi) hf

/-- A machine whose index stands four bytes before the end of memory, in a dialect where transfers
move it. -/
def storing : Machine :=
  { powerOn ⟨0, 0⟩ .cosmac with index := 0xFFC, v := Vector.replicate 16 7 }

/-- `F355` fills memory to its last byte and moves the index past it; the first of the four bytes
has changed and the byte before it has not. -/
theorem execute_changesOnly_storing :
    (storing.executeInt 0xF355).faulted = false ∧
      storing.ChangesOnly (storing.executeInt 0xF355) (Word.ofInt 0xF355) ∧
      (storing.executeInt 0xF355).index = 0x1000 ∧
      (storing.executeInt 0xF355).memory[0xFFC] = 7 ∧
      (storing.executeInt 0xF355).memory[0xFFB] = storing.memory[0xFFB] := by
  have hrun : (storing.executeInt 0xF355).faulted = false := by decide +kernel
  have hset := execute_changesOnly storing 0xF355 hrun
  refine ⟨hrun, hset, by decide +kernel, by decide +kernel, ?_⟩
  by_contra hne
  have hbase : storing.base = 0xFFC := by decide +kernel
  rcases hset.memory 0xFFB (by decide) hne with ⟨-, hle, -⟩ | ⟨-, hle, -⟩
  · omega
  · omega

end Machine

end Chip8
