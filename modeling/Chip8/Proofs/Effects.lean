import Chip8.Proofs.Decoding
import Chip8.Machine.Execute

/-!
# Effects and faults, apart

`Instruction.apply` mixes two things: whether an instruction can be carried out, and what it then
does. This file separates them. `Instruction.effect` is the full result, worked out whether or not
the instruction faults, and `Instruction.fault?` is the fault, decided from the machine before.
`apply_eq` puts the two together again, and from there on nothing opens `apply`.

What an instruction leaves alone is stated about `effect`, once for all twenty-one kinds of
instruction: the keypads, the dialect and the latch by every one of them (`effect_keepsHost`), the
program counter and the call stack by those that are not about control (`effect_keepsFlow`).
-/

set_option autoImplicit false

namespace Chip8

namespace Instruction

/-- The number of bytes from the index on that an instruction reads or writes. -/
def span : Instruction → Nat
  | draw _ _ n => n
  | decimal _ => 3
  | store x => x + 1
  | load x => x + 1
  | _ => 0

/-- The fault that an instruction raises on a machine, if it raises one. -/
def fault? (m : Machine) : Instruction → Option Fault
  | ret => if m.stack.pointer = 0 then some .stackUnderflow else none
  | call _ => if m.stack.isFull then some .stackOverflow else none
  | i => if Memory.fits m.base i.span then none else some .memory

/-- What an instruction makes of a machine, whether or not it faults: a call with a full stack
only jumps, a return with an empty one jumps to the first slot, and a transfer past the end of
memory reads the last byte again and drops what it cannot store. -/
def effect (m : Machine) : Instruction → Machine
  | clear => { m with screen := .blank }
  | ret => { m with stack := m.stack.pop.rest, pc := m.stack.pop.address }
  | jump target => { m with pc := target }
  | call target => { m with stack := (m.stack.push? m.pc).getD m.stack, pc := target }
  | skip c => if m.holds c then { m with pc := m.pc + 2 } else m
  | set x b => m.setReg x b
  | add x b => m.setReg x (m.reg x + b)
  | alu op x y => m.writeOutcome x (op.outcome m.dialect (m.reg x) (m.reg y))
  | setIndex target => { m with index := target }
  | jumpOffset x target =>
    { m with
      pc := target + (m.reg (if m.dialect.jumpReadsVX then x else offsetRegister)).toUInt16 }
  | random x mask => { m.setReg x (m.rng.byte &&& mask) with rng := m.rng.next }
  | draw x y n => m.draw x y n
  | getDelay x => m.setReg x m.delayTimer
  | waitKey x => m.waitKey x
  | setDelay x => { m with delayTimer := m.reg x }
  | setSound x => { m with soundTimer := m.reg x }
  | addIndex x => { m with index := m.index + (m.reg x).toUInt16 }
  | glyph x => { m with index := Font.address (m.reg x) }
  | decimal x => m.writeMemory (decimalDigits (m.reg x))
  | store x => (m.writeMemory (m.v.toList.take (x + 1))).moveIndex (x + 1)
  | load x =>
    { m with v := Machine.loadRegisters m.v (m.memory.slice m.base (x + 1)) }.moveIndex (x + 1)

end Instruction

namespace CallStack

/-- A stack that is not full takes an address. -/
theorem push?_eq_some {s : CallStack} (h : s.isFull = false) (a : UInt16) :
    s.push? a = some ⟨s.slots.setIfInBounds s.pointer.toNat a, s.pointer + 1⟩ := by
  unfold push?
  rw [h]
  rfl

/-- A full stack takes no address. -/
theorem push?_eq_none {s : CallStack} (h : s.isFull = true) (a : UInt16) : s.push? a = none := by
  unfold push?
  rw [h]
  rfl

end CallStack

namespace Machine

/-- The index stands for an address inside memory. -/
theorem base_lt (m : Machine) : m.base < 4096 := Nat.mod_lt _ (by decide)

/-- A transfer of nothing fits anywhere. -/
theorem fits_zero (m : Machine) : Memory.fits m.base 0 = true :=
  decide_eq_true (Nat.le_of_lt m.base_lt)

/-- A result that is kept under a bound check is kept or refused as a whole. -/
theorem within_eq (m r : Machine) (n : Nat) :
    m.within r n =
      match if Memory.fits m.base n then none else some Fault.memory with
      | some f => .error f
      | none => .ok r := by
  unfold within
  cases Memory.fits m.base n <;> rfl

end Machine

namespace Instruction

/-- An instruction has its effect, unless it raises its fault. -/
theorem apply_eq (m : Machine) (i : Instruction) :
    i.apply m =
      match i.fault? m with
      | some f => .error f
      | none => .ok (i.effect m) := by
  cases i
  case ret =>
    by_cases h : m.stack.pointer = 0
    · simp [apply, fault?, CallStack.pop, h]
    · simp [apply, fault?, effect, CallStack.pop, h]
  case call target =>
    cases h : m.stack.isFull
    · simp [apply, fault?, effect, h, CallStack.push?_eq_some h]
    · simp [apply, fault?, h, CallStack.push?_eq_none h]
  case skip c =>
    simp only [apply, fault?, effect, span, m.fits_zero, if_true]
  case draw x y n => exact m.within_eq _ _
  case decimal x => exact m.within_eq _ _
  case store x => exact m.within_eq _ _
  case load x => exact m.within_eq _ _
  all_goals simp only [apply, fault?, effect, span, m.fits_zero, if_true]

/-- An instruction is carried out exactly if it raises no fault. -/
theorem apply_eq_ok_iff {m r : Machine} {i : Instruction} :
    i.apply m = .ok r ↔ i.fault? m = none ∧ r = i.effect m := by
  rw [apply_eq]
  cases i.fault? m with
  | none => simp [eq_comm]
  | some f => simp

/-- An instruction fails with exactly the fault that is foretold of it. -/
theorem apply_eq_error_iff {m : Machine} {i : Instruction} {f : Fault} :
    i.apply m = .error f ↔ i.fault? m = some f := by
  rw [apply_eq]
  cases i.fault? m with
  | none => simp
  | some g => simp

end Instruction

/-! ## What every instruction leaves alone -/

/-- The two machines agree on what only the host and the cycle write: the keypads, the dialect
and the latch. -/
structure Machine.KeepsHost (m r : Machine) : Prop where
  keypad : r.keypad = m.keypad
  lastKeypad : r.lastKeypad = m.lastKeypad
  dialect : r.dialect = m.dialect
  fault : r.fault = m.fault
  faultWord : r.faultWord = m.faultWord

/-- The two machines agree on where execution stands and where it will return to. -/
structure Machine.KeepsFlow (m r : Machine) : Prop where
  pc : r.pc = m.pc
  stack : r.stack = m.stack

namespace Machine

/-- The value and the flag of an operation only go to registers. -/
theorem writeOutcome_eq (m : Machine) (x : Nibble) (o : AluOutcome) :
    ∃ v, m.writeOutcome x o = { m with v := v } := by
  unfold writeOutcome
  cases o.flag with
  | none => exact ⟨_, rfl⟩
  | some f => exact ⟨_, rfl⟩

/-- Moving the index past a transfer changes the index only. -/
theorem moveIndex_eq (m : Machine) (n : Nat) :
    m.moveIndex n =
      { m with
        index := if m.dialect.transferMovesIndex then m.index + UInt16.ofNat n else m.index } := by
  unfold moveIndex
  split
  · rfl
  · rfl

/-- Waiting for a key sets a register or goes back. -/
theorem waitKey_eq (m : Machine) (x : Nibble) :
    ∃ v pc, m.waitKey x = { m with v := v, pc := pc } := by
  unfold waitKey
  split
  · exact ⟨_, m.pc, rfl⟩
  · exact ⟨m.v, _, rfl⟩

end Machine

namespace Instruction

/-- The instructions that are about where execution goes next. -/
def isControl : Instruction → Bool
  | ret | jump _ | call _ | skip _ | jumpOffset _ _ | waitKey _ => true
  | _ => false

/-- An instruction that is not about control touches the random source, the memory, the screen, the
timers, the registers and the index at most. -/
theorem effect_keeps (m : Machine) {i : Instruction} (h : i.isControl = false) :
    m.KeepsHost (i.effect m) ∧ m.KeepsFlow (i.effect m) := by
  cases i
  case ret | jump | call | skip | jumpOffset | waitKey => cases h
  case alu op x y =>
    obtain ⟨v, hv⟩ := m.writeOutcome_eq x (op.outcome m.dialect (m.reg x) (m.reg y))
    rw [effect, hv]
    exact ⟨⟨rfl, rfl, rfl, rfl, rfl⟩, ⟨rfl, rfl⟩⟩
  case store x | load x =>
    rw [effect, Machine.moveIndex_eq]
    exact ⟨⟨rfl, rfl, rfl, rfl, rfl⟩, ⟨rfl, rfl⟩⟩
  all_goals exact ⟨⟨rfl, rfl, rfl, rfl, rfl⟩, ⟨rfl, rfl⟩⟩

/-- No instruction touches the keypads, the dialect or the latch. -/
theorem effect_keepsHost (m : Machine) (i : Instruction) : m.KeepsHost (i.effect m) := by
  by_cases h : i.isControl = false
  · exact (effect_keeps m h).1
  · cases i
    case ret | jump | call | jumpOffset => exact ⟨rfl, rfl, rfl, rfl, rfl⟩
    case skip c =>
      simp only [effect]
      split
      · exact ⟨rfl, rfl, rfl, rfl, rfl⟩
      · exact ⟨rfl, rfl, rfl, rfl, rfl⟩
    case waitKey x =>
      obtain ⟨v, pc, hv⟩ := m.waitKey_eq x
      rw [effect, hv]
      exact ⟨rfl, rfl, rfl, rfl, rfl⟩
    all_goals exact absurd rfl h

/-- An instruction that is not about control leaves the program counter and the stack alone. -/
theorem effect_keepsFlow (m : Machine) {i : Instruction} (h : i.isControl = false) :
    m.KeepsFlow (i.effect m) := (effect_keeps m h).2

end Instruction

end Chip8
