import Chip8.Proofs.Atomicity
import Chip8.Machine.Command

/-!
# Integers as words

A host may hand over any integer where a word is asked for. `Fields.ofInt` cuts the integer down to
sixteen bits and reads the fields of the word. An interpreter may also cut each field out of the
integer itself, by a mask and a shift on its two's complement form, however long that is.
`Fields.CutFrom` says this of fields, and `Fields.cutFrom_ofInt` that the two ways agree, since what a
mask leaves is a remainder of a quotient (`cut_mask`).

So an integer counts only up to multiples of 65536, and a machine that looks at the fields alone, and
at the integer itself only to latch it, executes the remainder as it executes the integer.
`execute_up_to_multiples` is the top.
-/

set_option autoImplicit false

namespace Chip8

/-- Integers make the same word exactly when they agree modulo `2^16`. -/
theorem Word.ofInt_eq_ofInt_iff {a b : Int} : ofInt a = ofInt b ↔ a % 65536 = b % 65536 := by
  rw [← UInt16.toNat_inj, ← Word.ofInt_toNat a, ← Word.ofInt_toNat b, Int.ofNat_inj]

namespace Fields

/-! ## Masks -/

/-- The bits of an integer under a mask, moved down by `k`. -/
def cut (a : Int) (mask k : Nat) : Int := a.land mask >>> k

/-- A mask of `j` ones, moved up by `k`, cuts out the binary digits between `k` and `j + k`. -/
theorem and_mask_shiftRight (a j k : Nat) :
    (a &&& (2 ^ j - 1) <<< k) >>> k = a / 2 ^ k % 2 ^ j := by
  rw [Nat.shiftRight_and_distrib, Nat.shiftLeft_shiftRight, Nat.and_two_pow_sub_one_eq_mod,
    Nat.shiftRight_eq_div_pow]

/-- The bits that are off under a mask make a remainder, too, counted down from the largest. -/
theorem ldiff_mask_shiftRight (a j k : Nat) :
    Nat.ldiff ((2 ^ j - 1) <<< k) a >>> k = 2 ^ j - (a / 2 ^ k % 2 ^ j + 1) := by
  apply Nat.eq_of_testBit_eq
  intro i
  have hlt : a / 2 ^ k % 2 ^ j < 2 ^ j := Nat.mod_lt _ (Nat.two_pow_pos j)
  rw [Nat.testBit_two_pow_sub_succ hlt, Nat.testBit_mod_two_pow, Nat.testBit_div_two_pow,
    Nat.testBit_shiftRight, Nat.testBit_ldiff, Nat.testBit_shiftLeft, Nat.add_sub_cancel_left,
    Nat.testBit_two_pow_sub_one, Nat.add_comm i k]
  simp only [ge_iff_le, Nat.le_add_right, decide_true, Bool.true_and]
  cases decide (i < j)
  · rfl
  · simp only [Bool.true_and]

/-- Of an integer of any size, a mask of `j` bits above the lowest `k` leaves the remainder by `2 ^ j`
of the quotient by `2 ^ k`. -/
theorem cut_mask (a : Int) (j k : Nat) :
    cut a ((2 ^ j - 1) <<< k) k = a / (2 ^ k : Nat) % (2 ^ j : Nat) := by
  cases a with
  | ofNat a =>
    show (((a &&& (2 ^ j - 1) <<< k) >>> k : Nat) : Int) = _
    rw [and_mask_shiftRight]
    rfl
  | negSucc a =>
    -- a negative integer has the bits off that the number below its absolute value has on
    have hpos : (0 : Int) < (2 ^ j : Nat) := by exact_mod_cast Nat.two_pow_pos j
    have hlt : a / 2 ^ k % 2 ^ j < 2 ^ j := Nat.mod_lt _ (Nat.two_pow_pos j)
    have hquotient : Int.negSucc a / (2 ^ k : Nat) = Int.negSucc (a / 2 ^ k) := by
      rw [← Int.shiftRight_eq_div_pow, Int.negSucc_shiftRight, Nat.shiftRight_eq_div_pow]
    show ((Nat.ldiff ((2 ^ j - 1) <<< k) a >>> k : Nat) : Int) = _
    rw [ldiff_mask_shiftRight, hquotient, Int.negSucc_emod _ hpos, Nat.cast_sub hlt]
    push_cast
    ring

/-! ## Fields -/

/-- The fields are what masks and shifts cut out of an integer. -/
structure CutFrom (f : Fields) (a : Int) : Prop where
  opcode : (f.opcode.val : Int) = cut a 0xF000 12
  x : (f.x.val : Int) = cut a 0x0F00 8
  y : (f.y.val : Int) = cut a 0x00F0 4
  n : (f.n.val : Int) = cut a 0x000F 0
  nn : (f.nn.toNat : Int) = cut a 0x00FF 0
  nnn : (f.nnn.toNat : Int) = cut a 0x0FFF 0

/-- The digits of a word are cut from any integer that the word was made of. -/
theorem cut_digit (a : Int) {i : Nat} (hi : i < 4) :
    ((Word.ofInt a).nibble i).val = cut a (0xF <<< (4 * i)) (4 * i) := by
  have hword := Word.ofInt_toNat a
  have hcut : cut a (0xF <<< (4 * i)) (4 * i) = a / (2 ^ (4 * i) : Nat) % 16 := cut_mask a 4 (4 * i)
  rw [hcut, Word.nibble_val]
  interval_cases i
  all_goals
    simp only [Nat.reduceMul, Nat.reducePow]
    omega

/-- The fields of an integer are those of its low sixteen bits, and they are what masks cut out of all
its bits. -/
theorem cutFrom_ofInt (a : Int) : (ofInt a).CutFrom a where
  opcode := cut_digit a (by decide : 3 < 4)
  x := cut_digit a (by decide : 2 < 4)
  y := cut_digit a (by decide : 1 < 4)
  n := cut_digit a (by decide : 0 < 4)
  nn := by
    have hword := Word.ofInt_toNat a
    have hcut : cut a 0x00FF 0 = a / 1 % 256 := cut_mask a 8 0
    rw [hcut, ofInt, ofWord_nn]
    omega
  nnn := by
    have hword := Word.ofInt_toNat a
    have hcut : cut a 0x0FFF 0 = a / 1 % 4096 := cut_mask a 12 0
    rw [hcut, ofInt, ofWord_nnn]
    omega

/-- The fields of an integer write its remainder by 65536: the digits its bytes, and these the
number. -/
theorem ofInt_emod (a : Int) :
    a % 65536 = 4096 * (ofInt a).opcode.val + (ofInt a).nnn.toNat ∧
      (ofInt a).nnn.toNat = 256 * (ofInt a).x.val + (ofInt a).nn.toNat ∧
      (ofInt a).nn.toNat = 16 * (ofInt a).y.val + (ofInt a).n.val := by
  have hword := Word.ofInt_toNat a
  simp only [ofInt, ofWord_opcode, ofWord_x, ofWord_y, ofWord_n, ofWord_nn, ofWord_nnn]
  omega

/-- The low sixteen bits are all that a word keeps of an integer. -/
theorem ofInt_eq_ofInt_iff {a b : Int} : ofInt a = ofInt b ↔ a % 65536 = b % 65536 := by
  constructor
  · intro h
    rw [(ofInt_emod a).1, (ofInt_emod b).1, h]
  · intro h
    rw [ofInt, ofInt, Word.ofInt_eq_ofInt_iff.mpr h]

end Fields

/-! ## Execution -/

namespace Machine

/-- The full result of the instruction that fields name, with the fault that it raises flagged. -/
def flaggedBy (m : Machine) (f : Fields) : Machine :=
  match Instruction.ofFields? f with
  | none => { m with fault := Fault.decode.code }
  | some i =>
    match i.fault? m with
    | none => i.effect m
    | some f => { i.effect m with fault := f.code }

/-- An integer is executed by its fields, and looked at as a whole to latch it only. -/
theorem executeInt_eq_commit (m : Machine) (a : Int) :
    m.executeInt a = m.commit (m.flaggedBy (Fields.ofInt a)) (Word.ofInt a) :=
  m.execute_eq_commit (Word.ofInt a)

/-- An integer of 32 bits can be handed over by a host, and is executed. -/
theorem perform_execute (m : Machine) {a : Int} (hlow : -0x80000000 ≤ a) (hhigh : a < 0x80000000) :
    m.perform (.execute a) = .ok (m.executeInt a) := by
  have hfits : Count.fits a = true := by
    simp only [Count.fits, Bool.and_eq_true, decide_eq_true_eq]
    exact ⟨hlow, hhigh⟩
  simp only [perform, Count.check, if_pos hfits]
  rfl

/-- The fields of any integer are what masks and shifts cut out of its two's complement form, and they
write its remainder by 65536 in digits, so two integers have the same fields exactly if they have the
same remainder. Let a machine execute an integer that fits in 32 bits. The remainder is executed with
the same result. The instruction is taken from the fields alone, its full result worked out, and rolled
back if it faults; and a fault that is new is latched with the remainder. -/
theorem execute_up_to_multiples :
    (∀ a, (Fields.ofInt a).CutFrom a ∧
      a % 65536 = 4096 * (Fields.ofInt a).opcode.val + (Fields.ofInt a).nnn.toNat ∧
      (Fields.ofInt a).nnn.toNat = 256 * (Fields.ofInt a).x.val + (Fields.ofInt a).nn.toNat ∧
      (Fields.ofInt a).nn.toNat = 16 * (Fields.ofInt a).y.val + (Fields.ofInt a).n.val) ∧
    (∀ a b, Fields.ofInt a = Fields.ofInt b ↔ a % 65536 = b % 65536) ∧
    (∀ (m : Machine) (a : Int), -0x80000000 ≤ a → a < 0x80000000 →
      m.perform (.execute a) = .ok (m.executeInt a) ∧
      m.perform (.execute (a % 65536)) = .ok (m.executeInt a) ∧
      m.executeInt a = m.commit (m.flaggedBy (Fields.ofInt a)) (Word.ofInt a) ∧
      (m.faulted = false → (m.executeInt a).faulted = true →
        ((m.executeInt a).faultWord.toNat : Int) = a % 65536)) := by
  refine ⟨fun a => ⟨Fields.cutFrom_ofInt a, Fields.ofInt_emod a⟩,
    fun a b => Fields.ofInt_eq_ofInt_iff, fun m a hlow hhigh => ⟨m.perform_execute hlow hhigh, ?_,
      m.executeInt_eq_commit a, fun hrun hfault => ?_⟩⟩
  · have hword : Word.ofInt (a % 65536) = Word.ofInt a :=
      Word.ofInt_eq_ofInt_iff.mpr (Int.emod_emod_of_dvd a (dvd_refl _))
    rw [m.perform_execute (by omega) (by omega), executeInt, hword, executeInt]
  · rw [executeInt] at hfault ⊢
    rw [faultWord_execute hrun hfault]
    exact Word.ofInt_toNat a

/-- The word `5121` names no instruction, and is latched when it is executed as an integer far below
zero, as it would be itself; an integer beyond a hundred bits has the same fields. -/
theorem execute_up_to_multiples_farBelow :
    ((-0x80000000 : Int) ≤ -0x7FFFAEDF ∧ (-0x7FFFAEDF : Int) < 0x80000000) ∧
      (bare []).perform (.execute (-0x7FFFAEDF)) = .ok ((bare []).executeInt (-0x7FFFAEDF)) ∧
      (bare []).perform (.execute 0x5121) = .ok ((bare []).executeInt (-0x7FFFAEDF)) ∧
      ((bare []).faulted = false ∧ ((bare []).executeInt (-0x7FFFAEDF)).faulted = true) ∧
      (((bare []).executeInt (-0x7FFFAEDF)).faultWord.toNat : Int) = 0x5121 ∧
      Fields.ofInt (-0x7FFFAEDF) = Fields.ofInt (2 ^ 100 + 0x5121) := by
  have hlow : (-0x80000000 : Int) ≤ -0x7FFFAEDF := by omega
  have hhigh : (-0x7FFFAEDF : Int) < 0x80000000 := by omega
  have hrun : (bare []).faulted = false := rfl
  have hfault : ((bare []).executeInt (-0x7FFFAEDF)).faulted = true := by decide
  obtain ⟨-, hsame, hexecute⟩ := execute_up_to_multiples
  obtain ⟨hwhole, hremainder, -, hlatched⟩ := hexecute (bare []) _ hlow hhigh
  exact ⟨⟨hlow, hhigh⟩, hwhole, hremainder, ⟨hrun, hfault⟩, hlatched hrun hfault,
    (hsame _ _).mpr (by norm_num)⟩

end Machine

end Chip8
