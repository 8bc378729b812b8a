import Chip8.Proofs.KeyPresses
import Chip8.Proofs.WriteSets

/-!
# Where a step goes

A step has moved the program counter past the word before its instruction looks at it, so jumps
overwrite it, skips add to it and a wait takes it back. `Machine.GoesOn` is what results, in terms
of the machine before the step and of the number that the word is. `next_address_law` is the top:
the law for every word, the fault that follows when it leads past the last word, and the skips in
pairs, of which one is taken and the other is not.
-/

set_option autoImplicit false

namespace Chip8

/-! ## Opposite conditions -/

/-- The condition that holds when the other does not. -/
def Condition.opposite : Condition → Condition
  | is x b => isNot x b
  | isNot x b => is x b
  | same x y => differ x y
  | differ x y => same x y
  | keyDown x => keyUp x
  | keyUp x => keyDown x

/-- The two words are `3XNN` and `4XNN`, `5XY0` and `9XY0`, or `EX9E` and `EXA1`, with the same
operands. -/
def Word.Opposite (w w' : Word) : Prop :=
  w.toNat / 4096 = 0x3 ∧ w'.toNat / 4096 = 0x4 ∧ w.toNat % 4096 = w'.toNat % 4096 ∨
  w.toNat / 4096 = 0x5 ∧ w'.toNat / 4096 = 0x9 ∧ w.toNat % 4096 = w'.toNat % 4096 ∧
    w.toNat % 16 = 0 ∨
  w.toNat / 4096 = 0xE ∧ w'.toNat / 4096 = 0xE ∧ w.toNat / 256 % 16 = w'.toNat / 256 % 16 ∧
    w.toNat % 256 = 0x9E ∧ w'.toNat % 256 = 0xA1

/-- The opposite of a condition has the condition for its opposite. -/
theorem Condition.opposite_opposite (c : Condition) : c.opposite.opposite = c := by
  cases c
  all_goals rfl

/-- Of a condition and its opposite, one holds and the other does not. -/
theorem Machine.holds_opposite (m : Machine) (c : Condition) :
    m.holds c.opposite = !m.holds c := by
  cases c
  case is | same | keyDown => rfl
  case isNot | differ | keyUp => exact (Bool.not_not _).symm

namespace Instruction

variable {w w' : Word}

/-- Two words of a pair name skips on opposite conditions. -/
theorem names_of_opposite (h : w.Opposite w') :
    ∃ c, Names w (skip c) ∧ Names w' (skip c.opposite) := by
  have hx := Fields.ofWord_x w
  have hy := Fields.ofWord_y w
  have hnn := Fields.ofWord_nn w
  rcases h with ⟨h, h', hsame⟩ | ⟨h, h', hsame, hzero⟩ | ⟨h, h', hsame, hlow, hlow'⟩
  · exact ⟨.is (Fields.ofWord w).x (Fields.ofWord w).nn, ⟨⟨h, hx⟩, hnn⟩, ⟨h', by omega⟩, by omega⟩
  · exact ⟨.same (Fields.ofWord w).x (Fields.ofWord w).y, ⟨⟨⟨h, hx⟩, hy⟩, hzero⟩,
      ⟨⟨h', by omega⟩, by omega⟩, by omega⟩
  · exact ⟨.keyDown (Fields.ofWord w).x, ⟨⟨h, hx⟩, hlow⟩, ⟨h', by omega⟩, hlow'⟩

/-- It does not matter which of the two words comes first. -/
theorem names_of_opposites (h : w.Opposite w' ∨ w'.Opposite w) :
    ∃ c, Names w (skip c) ∧ Names w' (skip c.opposite) := by
  rcases h with h | h
  · exact names_of_opposite h
  · obtain ⟨c, hc', hc⟩ := names_of_opposite h
    refine ⟨c.opposite, hc, ?_⟩
    rw [c.opposite_opposite]
    exact hc'

/-- The address two words on does not wrap from `0xFFFB` down. -/
theorem toNat_add_four {a : UInt16} (h : a.toNat ≤ 0xFFFB) : (a + 4).toNat = a.toNat + 4 := by
  have hnext := toNat_add_two (a := a) (by omega)
  have htwice : a + 4 = a + 2 + 2 := (UInt16.add_assoc a 2 2).symm
  rw [htwice, toNat_add_two (by omega), hnext]

end Instruction

namespace Machine

open Instruction

variable {m : Machine} {w w' : Word} {c : Condition}

/-! ## Skips -/

/-- The word is a skip that is taken. -/
def Skips (m : Machine) (w : Word) : Prop :=
  let vx := m.reg (w.nibble 2)
  let vy := m.reg (w.nibble 1)
  w.toNat / 4096 = 0x3 ∧ vx.toNat = w.toNat % 256 ∨
  w.toNat / 4096 = 0x4 ∧ vx.toNat ≠ w.toNat % 256 ∨
  w.toNat / 4096 = 0x5 ∧ w.toNat % 16 = 0 ∧ vx = vy ∨
  w.toNat / 4096 = 0x9 ∧ w.toNat % 16 = 0 ∧ vx ≠ vy ∨
  w.toNat / 4096 = 0xE ∧ w.toNat % 256 = 0x9E ∧ m.keypad[vx.toNat % 16] = true ∨
  w.toNat / 4096 = 0xE ∧ w.toNat % 256 = 0xA1 ∧ m.keypad[vx.toNat % 16] = false

instance (m : Machine) (w : Word) : Decidable (m.Skips w) :=
  inferInstanceAs (Decidable (_ ∨ _))

/-- A skip that a word names is taken exactly if its condition holds. -/
theorem skips_iff_of_names (hw : Names w (.skip c)) : m.Skips w ↔ m.holds c = true := by
  -- the digits in front and behind rule out the five other kinds
  cases c
  case is x b | isNot x b =>
    obtain ⟨hx, hb⟩ := hw
    have hnibble : w.nibble 2 = x := hx.eq.2.symm
    simp [Skips, hx.1, hnibble, ← hb, holds, UInt8.toNat_inj]
  case same x y | differ x y =>
    obtain ⟨hxy, hn⟩ := hw
    have hnibble : w.nibble 2 = x := hxy.eq.2.1.symm
    have hnibble' : w.nibble 1 = y := hxy.eq.2.2.symm
    simp [Skips, hxy.1.1, hn, hnibble, hnibble', holds]
  case keyDown x | keyUp x =>
    obtain ⟨hx, hlow⟩ := hw
    have hnibble : w.nibble 2 = x := hx.eq.2.symm
    simp [Skips, hx.1, hlow, hnibble, holds, keyNumber, Vector.get_eq_getElem]

/-- A word that is taken for a skip names one. -/
theorem exists_names_of_skips (h : m.Skips w) : ∃ c, Names w (.skip c) := by
  have hx := Fields.ofWord_x w
  have hy := Fields.ofWord_y w
  have hnn := Fields.ofWord_nn w
  rcases h with ⟨hop, -⟩ | ⟨hop, -⟩ | ⟨hop, hn, -⟩ | ⟨hop, hn, -⟩ | ⟨hop, hlow, -⟩ |
    ⟨hop, hlow, -⟩
  · exact ⟨.is _ _, ⟨hop, hx⟩, hnn⟩
  · exact ⟨.isNot _ _, ⟨hop, hx⟩, hnn⟩
  · exact ⟨.same _ _, ⟨⟨hop, hx⟩, hy⟩, hn⟩
  · exact ⟨.differ _ _, ⟨⟨hop, hx⟩, hy⟩, hn⟩
  · exact ⟨.keyDown _, ⟨hop, hx⟩, hlow⟩
  · exact ⟨.keyUp _, ⟨hop, hx⟩, hlow⟩

/-- Of two opposite words exactly one is a skip that is taken. -/
theorem skips_opposite (h : w.Opposite w' ∨ w'.Opposite w) : m.Skips w ↔ ¬ m.Skips w' := by
  obtain ⟨c, hc, hc'⟩ := names_of_opposites h
  rw [skips_iff_of_names hc, skips_iff_of_names hc', holds_opposite]
  simp

/-- A skip moves the program counter past one word or two and notes the keypad. -/
theorem step_skip (hnext : m.nextWord? = some w) (hw : Names w (.skip c)) :
    m.step =
      { m with
        pc := if m.Skips w then m.pc + 4 else m.pc + 2
        lastKeypad := m.keypad } := by
  obtain ⟨hrun, hword⟩ := nextWord?_eq_some_iff.mp hnext
  have hholds : m.fetch.2.holds c = m.holds c := by
    cases c
    all_goals rfl
  have htwice : m.pc + 2 + 2 = m.pc + 4 := UInt16.add_assoc m.pc 2 2
  rw [step_of_decode hrun hword (decode_of_names hw) (if_pos m.fits_zero), effect, hholds]
  by_cases htaken : m.Skips w
  · rw [if_pos htaken, if_pos ((skips_iff_of_names hw).mp htaken), ← htwice]
    rfl
  · rw [if_neg htaken, if_neg fun h => htaken ((skips_iff_of_names hw).mpr h)]
    rfl

/-! ## The other words -/

/-- What the step from `m` to `r` makes of the program counter, by the word `w` that stands there.
-/
structure GoesOn (m r : Machine) (w : Word) : Prop where
  jump : w.toNat / 4096 = 0x1 ∨ w.toNat / 4096 = 0x2 → r.pc.toNat = w.toNat % 4096
  /-- A return goes to the address on top of the stack. -/
  ret : w.toNat = 0x00EE →
    ∃ k, ∃ hk : k < 16, m.stack.pointer.toNat = k + 1 ∧ r.pc = m.stack.slots[k]
  /-- The sum is exact and may lie past the end of memory. -/
  offset : w.toNat / 4096 = 0xB →
    r.pc.toNat = w.toNat % 4096 +
        (m.reg (if m.dialect.jumpReadsVX then w.nibble 2 else 0)).toNat ∧
      r.pc.toNat ≤ 0x10FE
  wait : w.IsMisc 0x0A → (∀ k, ¬ Keypad.Pressed m.lastKeypad m.keypad k) → r.pc = m.pc
  skip : m.Skips w → r.pc.toNat = m.pc.toNat + 4
  other : w.toNat / 4096 ≠ 0x1 → w.toNat / 4096 ≠ 0x2 → w.toNat / 4096 ≠ 0xB →
    w.toNat ≠ 0x00EE → (w.IsMisc 0x0A → ∃ k, Keypad.Pressed m.lastKeypad m.keypad k) →
    ¬ m.Skips w → r.pc.toNat = m.pc.toNat + 2

/-- A step without a fault carries out the instruction that its word names. -/
theorem step_of_names (hnext : m.nextWord? = some w) {i : Instruction} (hi : Names w i)
    (hstep : m.step.faulted = false) : m.step = (i.effect m.fetch.2).remember m.keypad := by
  obtain ⟨hrun, hword⟩ := nextWord?_eq_some_iff.mp hnext
  have hdecode := decode_of_names hi
  exact step_of_decode hrun hword hdecode (fault?_of_step hrun hword hdecode hstep)

/-- A return that does not fault goes on at the address in the slot that is taken off. -/
theorem pc_step_ret (hnext : m.nextWord? = some w) (hw : Names w .ret)
    (hsp : m.stack.pointer.toNat ≤ 16) (hstep : m.step.faulted = false) :
    ∃ k, ∃ hk : k < 16, m.stack.pointer.toNat = k + 1 ∧ m.step.pc = m.stack.slots[k] := by
  obtain ⟨hrun, hword⟩ := nextWord?_eq_some_iff.mp hnext
  have hnone := fault?_of_step hrun hword (decode_of_names hw) hstep
  obtain ⟨k, hk, hpointer, hpc, -⟩ := effect_ret_slot (m := m.fetch.2) hsp hnone
  rw [step_of_names hnext hw hstep]
  exact ⟨k, hk, hpointer, hpc⟩

/-- `BNNN` goes on at its address and the byte of `V0`, or of `VX` where the dialect says so; the
sum does not wrap. -/
theorem pc_step_jumpOffset {x : Nibble} {t : UInt16} (hnext : m.nextWord? = some w)
    (hw : Names w (.jumpOffset x t)) (hstep : m.step.faulted = false) :
    m.step.pc.toNat =
      w.toNat % 4096 + (m.reg (if m.dialect.jumpReadsVX then x else offsetRegister)).toNat := by
  have ht : t.toNat = w.toNat % 4096 := hw.1.2
  rw [step_of_names hnext hw hstep, ← ht]
  exact toNat_jumpOffset (by omega) _

/-- A step without a fault has a word that names an instruction. -/
theorem exists_names_of_step (hnext : m.nextWord? = some w) (hstep : m.step.faulted = false) :
    ∃ i, Names w i := by
  obtain ⟨hrun, hword⟩ := nextWord?_eq_some_iff.mp hnext
  rcases step_latch_cases hrun hword with ⟨f, -, htrip⟩ | ⟨hnone, -⟩
  · rw [htrip, faulted_trip] at hstep
    cases hstep
  · by_contra hunnamed
    have hdecode := decode_eq_none_iff.mpr (unassigned_of_not_names (not_exists.mp hunnamed))
    rw [fault?_eq_decode_iff.mpr (decode_eq_none_iff.mp hdecode)] at hnone
    cases hnone

/-- A word that neither jumps, returns, waits nor is a skip that is taken leads to the next one. -/
theorem pc_step_next (hnext : m.nextWord? = some w) (hstep : m.step.faulted = false)
    (hjump : w.toNat / 4096 ≠ 0x1) (hcall : w.toNat / 4096 ≠ 0x2)
    (hoffset : w.toNat / 4096 ≠ 0xB) (hret : w.toNat ≠ 0x00EE)
    (hpress : w.IsMisc 0x0A → ∃ k, Keypad.Pressed m.lastKeypad m.keypad k)
    (hskip : ¬ m.Skips w) : m.step.pc = m.pc + 2 := by
  obtain ⟨i, hi⟩ := exists_names_of_step hnext hstep
  have heffect := step_of_names hnext hi hstep
  cases i
  case ret => exact absurd hi hret
  case jump t => exact absurd hi.1 hjump
  case call t => exact absurd hi.1 hcall
  case jumpOffset x t => exact absurd hi.1.1 hoffset
  case skip c =>
    rw [step_skip hnext hi, if_neg hskip]
  case waitKey x =>
    obtain ⟨k, hk⟩ := hpress ⟨hi.1.1, hi.2⟩
    cases hfirst : Keypad.firstPress? m.lastKeypad m.keypad with
    | none => exact absurd hk (Keypad.firstPress?_eq_none_iff.mp hfirst k)
    | some k => rw [step_waitKey_of_press hnext hi hfirst]
  all_goals
    rw [heffect]
    exact (effect_keepsFlow m.fetch.2 rfl).pc

/-- Every step without a fault sends the program counter where its word says. -/
theorem goesOn_step (hnext : m.nextWord? = some w) (hsp : m.stack.pointer.toNat ≤ 16)
    (hstep : m.step.faulted = false) : m.GoesOn m.step w where
  jump := by
    have haddress := w.address_toNat
    rintro (hop | hop)
    · rw [step_of_names hnext (i := .jump w.address) ⟨hop, haddress⟩ hstep, ← haddress]
      rfl
    · rw [step_of_names hnext (i := .call w.address) ⟨hop, haddress⟩ hstep, ← haddress]
      rfl
  ret := fun hw => pc_step_ret hnext hw hsp hstep
  offset := by
    intro hop
    have hpc := pc_step_jumpOffset (x := w.nibble 2) (t := w.address) hnext
      ⟨⟨hop, w.address_toNat⟩, hop, Fields.ofWord_x w⟩ hstep
    have hbyte := (m.reg (if m.dialect.jumpReadsVX then w.nibble 2 else 0)).toNat_lt
    have hsum : m.step.pc.toNat = w.toNat % 4096 +
        (m.reg (if m.dialect.jumpReadsVX then w.nibble 2 else 0)).toNat := hpc
    exact ⟨hsum, by omega⟩
  wait := by
    intro hmisc hnone
    have hw : Names w (.waitKey (w.nibble 2)) := ⟨⟨hmisc.1, Fields.ofWord_x w⟩, hmisc.2⟩
    rw [step_waitKey_of_none hnext hw (Keypad.firstPress?_eq_none_iff.mpr hnone)]
  skip := by
    intro htaken
    have hle := (nextWord?_eq_some_iff.mp hnext).2.le
    obtain ⟨c, hc⟩ := exists_names_of_skips htaken
    rw [step_skip hnext hc, if_pos htaken]
    exact toNat_add_four (by omega)
  other := by
    intro hjump hcall hoffset hret hpress hskip
    have hle := (nextWord?_eq_some_iff.mp hnext).2.le
    rw [pc_step_next hnext hstep hjump hcall hoffset hret hpress hskip]
    exact toNat_add_two (by omega)

/-- Past the last word a running machine faults where it stands. -/
theorem step_of_pastEnd (hrun : m.faulted = false) (hpc : 4094 < m.pc.toNat) :
    m.step = m.trip .memory 0 := steps_iff.mp (.pastEnd hrun hpc)

/-- Steps to two opposite words, on a machine and on the same machine with another memory, change
nothing but the program counter and the noted keypad, and exactly one of them skips a word. -/
theorem step_opposite (hnext : m.nextWord? = some w) (h : w.Opposite w' ∨ w'.Opposite w)
    {r : Machine} {t : Memory} (hr : r = { m with memory := t })
    (ht : t.HoldsWord m.pc.toNat w') :
    (m.step = { m with pc := m.step.pc, lastKeypad := m.keypad } ∧
      r.step = { r with pc := r.step.pc, lastKeypad := r.keypad }) ∧
    (m.step.pc.toNat = m.pc.toNat + 4 ∧ r.step.pc.toNat = m.pc.toNat + 2 ∨
      m.step.pc.toNat = m.pc.toNat + 2 ∧ r.step.pc.toNat = m.pc.toNat + 4) := by
  obtain ⟨hrun, hword⟩ := nextWord?_eq_some_iff.mp hnext
  have hle := hword.le
  have hnext' : r.nextWord? = some w' := by
    rw [nextWord?_eq_some_iff, hr]
    exact ⟨hrun, ht⟩
  -- whether a skip is taken does not depend on memory
  have hskips : r.Skips w' ↔ ¬ m.Skips w := by
    rw [skips_opposite h, not_not, hr]
    exact Iff.rfl
  have hpc : r.pc = m.pc := by rw [hr]
  have htwo : (m.pc + 2).toNat = m.pc.toNat + 2 := toNat_add_two (by omega)
  have hfour : (m.pc + 4).toNat = m.pc.toNat + 4 := toNat_add_four (by omega)
  obtain ⟨c, hc, hc'⟩ := names_of_opposites h
  rw [step_skip hnext hc, step_skip hnext' hc', hpc]
  refine ⟨⟨rfl, rfl⟩, ?_⟩
  by_cases htaken : m.Skips w
  · rw [if_pos htaken, if_neg fun hother => hskips.mp hother htaken]
    exact .inl ⟨hfour, htwo⟩
  · rw [if_neg htaken, if_pos (hskips.mpr htaken)]
    exact .inr ⟨htwo, hfour⟩

/-- Let a running machine stand in front of a word inside memory, with at most sixteen addresses on
its stack. If its step does not fault, the program counter goes to `NNN` for `1NNN` and `2NNN`, to
the address on top of the stack for `00EE`, to the exact sum of `NNN` and a register for `BNNN`,
nowhere for `FX0A` without a key that has gone down, over a word for a skip that is taken, and to
the next word else; and when it has come past the last word, the next step latches the memory fault
and nothing else. If the word is a skip, then on the same machine with the opposite word in its
memory, for the same operands, exactly one of the two steps skips a word, and neither changes
anything but the program counter and the noted keypad. -/
theorem next_address_law (hnext : m.nextWord? = some w) (hsp : m.stack.pointer.toNat ≤ 16) :
    (m.step.faulted = false →
      m.GoesOn m.step w ∧
      (4094 < m.step.pc.toNat → m.step.step = m.step.trip .memory 0)) ∧
    (∀ w' t, w.Opposite w' ∨ w'.Opposite w → t.HoldsWord m.pc.toNat w' →
      ∀ r : Machine, r = { m with memory := t } →
        (m.step = { m with pc := m.step.pc, lastKeypad := m.keypad } ∧
          r.step = { r with pc := r.step.pc, lastKeypad := r.keypad }) ∧
        (m.step.pc.toNat = m.pc.toNat + 4 ∧ r.step.pc.toNat = m.pc.toNat + 2 ∨
          m.step.pc.toNat = m.pc.toNat + 2 ∧ r.step.pc.toNat = m.pc.toNat + 4)) := by
  constructor
  · intro hstep
    exact ⟨goesOn_step hnext hsp hstep, step_of_pastEnd hstep⟩
  · intro w' t hopposite ht r hr
    exact step_opposite hnext hopposite hr ht

/-- A machine in front of the farthest jump that there is. -/
def leaping : Machine := { bare [0xBF, 0xFF] with v := Vector.replicate 16 255 }

/-- The jump goes past the end of memory, and the machine faults there. With `V1` zero `3100` skips
a word, and `4100` in its place does not. -/
theorem next_address_law_leaping :
    (leaping.nextWord? = some 0xBFFF ∧ leaping.stack.pointer.toNat ≤ 16 ∧
      leaping.step.faulted = false ∧ leaping.step.pc.toNat = 0x10FE ∧
      leaping.step.step = leaping.step.trip .memory 0) ∧
    ((bare [0x31, 0x00]).nextWord? = some 0x3100 ∧
      (bare [0x31, 0x00]).stack.pointer.toNat ≤ 16 ∧
      Word.Opposite 0x3100 0x4100 ∧ (bare [0x41, 0x00]).memory.HoldsWord 0x200 0x4100 ∧
      (bare [0x31, 0x00]).step.faulted = false ∧
      (bare [0x31, 0x00]).step.pc.toNat = 0x204 ∧
      (bare [0x41, 0x00]).step.pc.toNat = 0x202) := by
  have hleap : leaping.nextWord? = some 0xBFFF := by decide +kernel
  have hrun : leaping.step.faulted = false := by decide +kernel
  have hempty : leaping.stack.pointer.toNat ≤ 16 := by decide
  obtain ⟨hgoes, hpast⟩ := (next_address_law hleap hempty).1 hrun
  have hpc : leaping.step.pc.toNat = 0x10FE := (hgoes.offset rfl).1
  have hskip : (bare [0x31, 0x00]).nextWord? = some 0x3100 := by decide +kernel
  have hempty' : (bare [0x31, 0x00]).stack.pointer.toNat ≤ 16 := by decide
  have hrun' : (bare [0x31, 0x00]).step.faulted = false := by decide +kernel
  have hopposite : Word.Opposite 0x3100 0x4100 := .inl ⟨rfl, rfl, rfl⟩
  have hother : (bare [0x41, 0x00]).memory.HoldsWord 0x200 0x4100 :=
    ⟨0x41, 0x00, by decide +kernel, by decide +kernel, rfl⟩
  have htaken := ((next_address_law hskip hempty').1 hrun').1.skip (by decide)
  have hpair := ((next_address_law hskip hempty').2 _ _ (.inl hopposite) hother _ rfl).2
  have hnot : (bare [0x41, 0x00]).step.pc.toNat = 0x202 := by
    rcases hpair with ⟨-, hnext⟩ | ⟨hnext, -⟩
    · exact hnext
    · rw [htaken] at hnext
      exact absurd hnext (by decide)
  exact ⟨⟨hleap, hempty, hrun, hpc, hpast (by omega)⟩,
    hskip, hempty', hopposite, hother, hrun', htaken, hnot⟩

end Machine

end Chip8
