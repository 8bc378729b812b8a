import Chip8.Proofs.WriteSets

/-!
# Arithmetic on registers

`AluOp.Law` states the operations of the `8XYN` family on plain numbers: how the value and the flag,
if there is one, make up a sum, a difference or a doubled number, and that the logic operations work
bit by bit. `Machine.Writes` says where the two go: the flag to `VF`, the value to `VX` unless the
flag has been written over it, and nothing to any other register. `execute_arithmetic` puts the two
together, for any two registers, equal ones and `VF` included, and for `7XNN`.
-/

set_option autoImplicit false

namespace Chip8

namespace AluOp

/-- The value `v` and the flag `f` that an operation makes of the numbers `a` and `b`. -/
def Law (op : AluOp) (d : Dialect) (a b v : Nat) (f : Option Nat) : Prop :=
  match op with
  | set => v = b ∧ f = none
  | or => v = a ||| b ∧ f = if d.logicClearsFlag then some 0 else none
  | and => v = a &&& b ∧ f = if d.logicClearsFlag then some 0 else none
  | xor => v = a ^^^ b ∧ f = if d.logicClearsFlag then some 0 else none
  | add => ∃ c < 2, f = some c ∧ 256 * c + v = a + b
  | sub => ∃ c < 2, f = some c ∧ (v : Int) = a - b + 256 * (1 - c)
  | subFrom => ∃ c < 2, f = some c ∧ (v : Int) = b - a + 256 * (1 - c)
  | shiftRight => ∃ c < 2, f = some c ∧ a = 2 * v + c
  | shiftLeft => ∃ c < 2, f = some c ∧ 2 * a = 256 * c + v

/-- The first operand: a shift takes `VY` for it in some dialects. -/
def operand (op : AluOp) (d : Dialect) (a b : UInt8) : UInt8 :=
  if d.shiftReadsVY && op.isShift then b else a

/-! ## Sums, differences and shifts of bytes -/

variable (a b : UInt8)

/-- The sum of two bytes is the byte that is kept, and 256 more if there was a carry. -/
theorem sum_carry : 256 * (decide (255 < a.toNat + b.toNat)).toNat + (a + b).toNat =
    a.toNat + b.toNat := by
  have ha := a.toNat_lt
  have hb := b.toNat_lt
  rw [UInt8.toNat_add]
  by_cases hcarry : 255 < a.toNat + b.toNat
  · rw [decide_eq_true hcarry, Bool.toNat_true]
    omega
  · rw [decide_eq_false hcarry, Bool.toNat_false]
    omega

/-- The byte that is kept of a difference is the difference, and 256 more if there was a borrow; the
flag is set when there was none. -/
theorem difference_borrow : ((a - b).toNat : Int) =
    a.toNat - b.toNat + 256 * (1 - (decide (b ≤ a)).toNat) := by
  have ha := a.toNat_lt
  have hb := b.toNat_lt
  rw [UInt8.toNat_sub]
  by_cases hle : b ≤ a
  · have hle' : b.toNat ≤ a.toNat := UInt8.le_iff_toNat_le.mp hle
    rw [decide_eq_true hle, Bool.toNat_true]
    omega
  · have hlt : a.toNat < b.toNat := Nat.lt_of_not_le fun h => hle (UInt8.le_iff_toNat_le.mpr h)
    rw [decide_eq_false hle, Bool.toNat_false]
    omega

/-- Comparing with a mask of one bit reads the bit. -/
theorem toNat_and_beq {mask : UInt8} {i : Nat} (hmask : mask.toNat = 2 ^ i) :
    (a &&& mask == mask).toNat = a.toNat / 2 ^ i % 2 := by
  have hread : (a &&& mask == mask) = a.toNat.testBit i := by
    rw [Bool.eq_iff_iff, beq_iff_eq, ← UInt8.toNat_inj, UInt8.toNat_and, hmask, Nat.and_two_pow]
    have hpos : 0 < 2 ^ i := Nat.two_pow_pos i
    cases a.toNat.testBit i
    all_goals simp [hpos.ne]
  rw [hread, Nat.testBit_eq_decide_div_mod_eq]
  rcases Nat.mod_two_eq_zero_or_one (a.toNat / 2 ^ i) with h | h
  all_goals simp [h]

/-- A byte is twice its right shift and the bit that is shifted out. -/
theorem shifted_right : a.toNat = 2 * (a >>> 1).toNat + (a &&& 1 == 1).toNat := by
  have hhalf : (a >>> 1).toNat = a.toNat / 2 := UInt8.toNat_shiftRight a 1
  have hbit : (a &&& 1 == 1).toNat = a.toNat / 1 % 2 := toNat_and_beq a (i := 0) rfl
  omega

/-- Twice a byte is its left shift, and 256 more if the bit that is shifted out was set. -/
theorem shifted_left : 2 * a.toNat = 256 * (a &&& 0x80 == 0x80).toNat + (a <<< 1).toNat := by
  have ha := a.toNat_lt
  have hdouble : (a <<< 1).toNat = a.toNat <<< 1 % 256 := UInt8.toNat_shiftLeft a 1
  have hbit : (a &&& 0x80 == 0x80).toNat = a.toNat / 128 % 2 := toNat_and_beq a (i := 7) rfl
  rw [Nat.shiftLeft_eq] at hdouble
  omega

/-- Every operation follows its law in every dialect. -/
theorem law_outcome (op : AluOp) (d : Dialect) :
    op.Law d (op.operand d a b).toNat b.toNat (op.outcome d a b).value.toNat
      ((op.outcome d a b).flag.map Bool.toNat) := by
  unfold operand outcome
  generalize (if d.shiftReadsVY && op.isShift then b else a) = a
  cases op
  case set => simp [Law, apply, isLogic]
  case or | and | xor =>
    cases hclears : d.logicClearsFlag
    all_goals simp [Law, apply, isLogic, hclears]
  all_goals
    simp only [isLogic, Bool.and_false, Bool.false_eq_true, if_false, apply]
    refine ⟨_, Bool.toNat_lt _, rfl, ?_⟩
  case add => exact sum_carry a b
  case sub => exact difference_borrow a b
  case shiftRight => exact shifted_right a
  case subFrom => exact difference_borrow b a
  case shiftLeft => exact shifted_left a

end AluOp

namespace Machine

/-- From `m` to `r` the register `x` is set to a value and after it `VF` to a flag, if there is one;
no other register changes. -/
structure Writes (m r : Machine) (x : Nibble) (v : Nat) (f : Option Nat) : Prop where
  flag : ∀ c, f = some c → (r.reg flagRegister).toNat = c
  value : f = none ∨ x ≠ flagRegister → (r.reg x).toNat = v
  others : ∀ k, k ≠ x → f = none ∨ k ≠ flagRegister → r.reg k = m.reg k

variable {m : Machine} {w : Word} {x y : Nibble}

/-- Setting a register writes one number and no flag. -/
theorem writes_setReg (m : Machine) (x : Nibble) (b : UInt8) :
    m.Writes (m.setReg x b) x b.toNat none where
  flag := nofun
  value := fun _ => by rw [reg_setReg, if_pos rfl]
  others := fun _ hk _ => reg_setReg_of_ne m hk b

/-- An outcome is written value first and flag second, so a flag that goes to the same register
wins. -/
theorem writes_writeOutcome (m : Machine) (x : Nibble) (o : AluOutcome) :
    m.Writes (m.writeOutcome x o) x o.value.toNat (o.flag.map Bool.toNat) := by
  obtain ⟨value, flag⟩ := o
  cases flag with
  | none => exact m.writes_setReg x value
  | some on =>
    constructor
    case flag =>
      rintro c ⟨⟩
      show (((m.setReg x value).setFlag on).reg flagRegister).toNat = on.toNat
      rw [reg_setFlag]
      cases on
      all_goals rfl
    case value =>
      rintro (hnone | hx)
      · cases hnone
      · show (((m.setReg x value).setFlag on).reg x).toNat = value.toNat
        rw [setFlag, reg_setReg_of_ne _ hx, reg_setReg, if_pos rfl]
    case others =>
      rintro k hk (hnone | hflag)
      · cases hnone
      · exact m.reg_writeOutcome _ hk (.inr hflag)

/-- Let a running machine execute a word. If it is a `8XYN` that names an operation, a value and a
flag that follow the law of the operation, for the values that both registers had before, are
written to `VX` and `VF`; if it is `7XNN`, the sum with the byte, cut to eight bits, is written to
`VX` without a flag. This goes for equal registers and for `VF` among them, and neither faults. -/
theorem execute_arithmetic (hrun : m.faulted = false) :
    (∀ op x y, Instruction.Names w (.alu op x y) → (m.execute w).faulted = false ∧
      ∃ v < 256, ∃ f, op.Law m.dialect (op.operand m.dialect (m.reg x) (m.reg y)).toNat
        (m.reg y).toNat v f ∧ m.Writes (m.execute w) x v f) ∧
    (∀ x b, Instruction.Names w (.add x b) → (m.execute w).faulted = false ∧
      m.Writes (m.execute w) x (((m.reg x).toNat + b.toNat) % 256) none) := by
  constructor
  · intro op x y hw
    have hexecute : m.execute w = m.writeOutcome x (op.outcome m.dialect (m.reg x) (m.reg y)) :=
      execute_of_names hrun hw (if_pos m.fits_zero)
    refine ⟨?_, _, UInt8.toNat_lt _, _, AluOp.law_outcome _ _ op m.dialect, ?_⟩
    · rw [execute_of_names hrun hw (if_pos m.fits_zero), faulted_effect, hrun]
    · rw [hexecute]
      exact m.writes_writeOutcome x _
  · intro x b hw
    have hexecute : m.execute w = m.setReg x (m.reg x + b) :=
      execute_of_names hrun hw (if_pos m.fits_zero)
    have hwrites := m.writes_setReg x (m.reg x + b)
    rw [UInt8.toNat_add] at hwrites
    rw [hexecute]
    exact ⟨hrun, hwrites⟩

/-- A machine with all registers 200, in a dialect where shifts read `VY` and logic operations clear
the flag. -/
def twoHundred : Machine := { powerOn ⟨0, 0⟩ .cosmac with v := Vector.replicate 16 200 }

/-- The sum of `VF` and `VF` leaves its carry there, and `VF or V1` the flag that is cleared;
`V1 >>= 1` halves `V2` without rest, and `7F64` wraps around in `VF`. -/
theorem execute_arithmetic_twoHundred :
    twoHundred.faulted = false ∧
      Instruction.Names 0x8FF4 (.alu .add 15 15) ∧
      ((twoHundred.execute 0x8FF4).reg flagRegister).toNat = 1 ∧
      Instruction.Names 0x8F11 (.alu .or 15 1) ∧
      ((twoHundred.execute 0x8F11).reg flagRegister).toNat = 0 ∧
      Instruction.Names 0x8126 (.alu .shiftRight 1 2) ∧
      ((twoHundred.execute 0x8126).reg 1).toNat = 100 ∧
      (twoHundred.execute 0x8126).reg 2 = twoHundred.reg 2 ∧
      Instruction.Names 0x7F64 (.add 15 100) ∧
      ((twoHundred.execute 0x7F64).reg flagRegister).toNat = 44 := by
  have hrun : twoHundred.faulted = false := rfl
  have hsum : Instruction.Names 0x8FF4 (.alu .add 15 15) := ⟨⟨⟨rfl, rfl⟩, rfl⟩, rfl⟩
  have hor : Instruction.Names 0x8F11 (.alu .or 15 1) := ⟨⟨⟨rfl, rfl⟩, rfl⟩, rfl⟩
  have hshift : Instruction.Names 0x8126 (.alu .shiftRight 1 2) := ⟨⟨⟨rfl, rfl⟩, rfl⟩, rfl⟩
  have hadd : Instruction.Names 0x7F64 (.add 15 100) := ⟨⟨rfl, rfl⟩, rfl⟩
  have hvalue : ∀ k, (twoHundred.reg k).toNat = 200 := by decide
  obtain ⟨-, v, hv, f, ⟨c, hc, rfl, hlaw⟩, hwrites⟩ := (execute_arithmetic hrun).1 _ _ _ hsum
  obtain ⟨-, v', -, f', ⟨-, rfl⟩, hwrites'⟩ := (execute_arithmetic hrun).1 _ _ _ hor
  obtain ⟨-, u, hu, g, ⟨d, hd, rfl, hlaw'⟩, hshifted⟩ := (execute_arithmetic hrun).1 _ _ _ hshift
  obtain ⟨-, hadded⟩ := (execute_arithmetic hrun).2 _ _ hadd
  have hsum200 : 256 * c + v = 200 + 200 := hlaw
  have hhalf : 200 = 2 * u + d := hlaw'
  refine ⟨hrun, hsum, (hwrites.flag c rfl).trans (by omega), hor, hwrites'.flag 0 rfl, hshift,
    (hshifted.value (.inr (by decide))).trans (by omega),
    hshifted.others 2 (by decide) (.inr (by decide)), hadd, hadded.value (.inl rfl)⟩

end Machine

end Chip8
