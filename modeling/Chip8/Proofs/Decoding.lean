import Chip8.Proofs.Words
import Chip8.Instruction

/-!
# The instruction table

The decoder picks an instruction by nested lookups, family first. This file states the table
that results the other way round, instruction by instruction: `Instruction.Names w i` says with
numbers alone when the word `w` names the instruction `i`, and `Word.Unassigned` says which words
name none. `decode_eq_some_iff` and `decode_eq_none_iff` are the two halves of the decoder's
specification; other files use these and never open the decoder.
-/

set_option autoImplicit false

namespace Chip8

/-- The last digit of the `8XYN` words of an operation. -/
def AluOp.digit : AluOp → Nat
  | set => 0x0
  | or => 0x1
  | and => 0x2
  | xor => 0x3
  | add => 0x4
  | sub => 0x5
  | shiftRight => 0x6
  | subFrom => 0x7
  | shiftLeft => 0xE

/-- The words that name no instruction: `0NNN` other than `00E0` and `00EE`, `5XYN` and `9XYN`
with a last digit other than zero, `8XYN` without an operation, and `EXNN` and `FXNN` with a low
byte that is not in their tables. -/
def Word.Unassigned (w : Word) : Prop :=
  w.toNat / 4096 = 0x0 ∧ w.toNat ≠ 0x00E0 ∧ w.toNat ≠ 0x00EE ∨
  (w.toNat / 4096 = 0x5 ∨ w.toNat / 4096 = 0x9) ∧ w.toNat % 16 ≠ 0 ∨
  w.toNat / 4096 = 0x8 ∧ w.toNat % 16 ∈ [0x8, 0x9, 0xA, 0xB, 0xC, 0xD, 0xF] ∨
  w.toNat / 4096 = 0xE ∧ w.toNat % 256 ∉ [0x9E, 0xA1] ∨
  w.toNat / 4096 = 0xF ∧
    w.toNat % 256 ∉ [0x07, 0x0A, 0x15, 0x18, 0x1E, 0x29, 0x33, 0x55, 0x65]

namespace Instruction

/-- The word `w` has the digit `k` in front and the register `x` behind it. -/
def HasX (w : Word) (k : Nat) (x : Nibble) : Prop :=
  w.toNat / 4096 = k ∧ x.val = w.toNat / 256 % 16

/-- The word `w` has the digit `k` in front and the registers `x` and `y` behind it. -/
def HasXY (w : Word) (k : Nat) (x y : Nibble) : Prop :=
  HasX w k x ∧ y.val = w.toNat / 16 % 16

/-- The word `w` has the digit `k` in front and the address `t` behind it. -/
def HasAddress (w : Word) (k : Nat) (t : UInt16) : Prop :=
  w.toNat / 4096 = k ∧ t.toNat = w.toNat % 4096

/-- The word `w` names an instruction. -/
def Names (w : Word) : Instruction → Prop
  | clear => w.toNat = 0x00E0
  | ret => w.toNat = 0x00EE
  | jump t => HasAddress w 0x1 t
  | call t => HasAddress w 0x2 t
  | skip (.is x b) => HasX w 0x3 x ∧ b.toNat = w.toNat % 256
  | skip (.isNot x b) => HasX w 0x4 x ∧ b.toNat = w.toNat % 256
  | skip (.same x y) => HasXY w 0x5 x y ∧ w.toNat % 16 = 0
  | skip (.differ x y) => HasXY w 0x9 x y ∧ w.toNat % 16 = 0
  | skip (.keyDown x) => HasX w 0xE x ∧ w.toNat % 256 = 0x9E
  | skip (.keyUp x) => HasX w 0xE x ∧ w.toNat % 256 = 0xA1
  | set x b => HasX w 0x6 x ∧ b.toNat = w.toNat % 256
  | add x b => HasX w 0x7 x ∧ b.toNat = w.toNat % 256
  | alu op x y => HasXY w 0x8 x y ∧ w.toNat % 16 = op.digit
  | setIndex t => HasAddress w 0xA t
  | jumpOffset x t => HasAddress w 0xB t ∧ HasX w 0xB x
  | random x mask => HasX w 0xC x ∧ mask.toNat = w.toNat % 256
  | draw x y n => HasXY w 0xD x y ∧ n.val = w.toNat % 16
  | getDelay x => HasX w 0xF x ∧ w.toNat % 256 = 0x07
  | waitKey x => HasX w 0xF x ∧ w.toNat % 256 = 0x0A
  | setDelay x => HasX w 0xF x ∧ w.toNat % 256 = 0x15
  | setSound x => HasX w 0xF x ∧ w.toNat % 256 = 0x18
  | addIndex x => HasX w 0xF x ∧ w.toNat % 256 = 0x1E
  | glyph x => HasX w 0xF x ∧ w.toNat % 256 = 0x29
  | decimal x => HasX w 0xF x ∧ w.toNat % 256 = 0x33
  | store x => HasX w 0xF x ∧ w.toNat % 256 = 0x55
  | load x => HasX w 0xF x ∧ w.toNat % 256 = 0x65

/-! ## What the decoder answers is named -/

/-- The fields of a word are what `Names` compares with. -/
theorem hasXY_fields {w : Word} {k : Nat} (h : w.toNat / 4096 = k) :
    HasXY w k (Fields.ofWord w).x (Fields.ofWord w).y :=
  ⟨⟨h, Fields.ofWord_x w⟩, Fields.ofWord_y w⟩

/-- The lookup of the family `0NNN` answers with an instruction that the word names. -/
theorem names_of_system {w : Word} {i : Instruction} (hop : w.toNat / 4096 = 0x0)
    (h : system? (Fields.ofWord w) = some i) : Names w i := by
  unfold system? at h
  split at h
  · rename_i hx
    rw [Fields.ofWord_x] at hx
    split at h
    all_goals rename_i hnn
    all_goals cases h
    all_goals rw [Fields.ofWord_nn] at hnn
    all_goals simp only [Names]
    all_goals omega
  · cases h

/-- What is decoded from a word with `E` in front is what the word names. -/
theorem names_of_keys {w : Word} {i : Instruction} (hop : w.toNat / 4096 = 0xE)
    (h : keys? (Fields.ofWord w) = some i) : Names w i := by
  unfold keys? at h
  split at h
  all_goals rename_i hnn
  all_goals cases h
  all_goals exact ⟨(hasXY_fields hop).1, (Fields.ofWord_nn w).symm.trans hnn⟩

/-- What is decoded from a word with `F` in front is what the word names. -/
theorem names_of_misc {w : Word} {i : Instruction} (hop : w.toNat / 4096 = 0xF)
    (h : misc? (Fields.ofWord w) = some i) : Names w i := by
  unfold misc? at h
  split at h
  all_goals rename_i hnn
  all_goals cases h
  all_goals exact ⟨(hasXY_fields hop).1, (Fields.ofWord_nn w).symm.trans hnn⟩

/-- An operation is found under its own digit only. -/
theorem ofNibble?_eq_some_iff {n : Nibble} {op : AluOp} :
    AluOp.ofNibble? n = some op ↔ n.val = op.digit := by
  constructor
  · intro h
    unfold AluOp.ofNibble? at h
    split at h
    all_goals rename_i hn
    all_goals cases h
    all_goals exact hn
  · intro h
    cases op
    all_goals simp only [AluOp.digit] at h
    all_goals simp only [AluOp.ofNibble?, h]

/-- The decoder answers with an instruction that the word names. -/
theorem names_of_decode {w : Word} {i : Instruction} (h : decode w = some i) : Names w i := by
  have hlt := w.toNat_lt
  have hop := Fields.ofWord_opcode w
  have hn := Fields.ofWord_n w
  have hnn := Fields.ofWord_nn w
  have hnnn := Fields.ofWord_nnn w
  unfold decode ofFields? at h
  split at h
  case h_1 hk => exact names_of_system (hop.symm.trans hk) h
  case h_2 hk | h_3 hk | h_11 hk =>
    cases h
    exact ⟨hop.symm.trans hk, hnnn⟩
  case h_4 hk | h_5 hk | h_7 hk | h_8 hk | h_13 hk =>
    cases h
    exact ⟨(hasXY_fields (hop.symm.trans hk)).1, hnn⟩
  case h_6 hk | h_10 hk =>
    split at h
    · rename_i hzero
      cases h
      exact ⟨hasXY_fields (hop.symm.trans hk), hn.symm.trans hzero⟩
    · cases h
  case h_9 hk =>
    obtain ⟨op, hdigit, rfl⟩ := Option.map_eq_some_iff.mp h
    exact ⟨hasXY_fields (hop.symm.trans hk),
      hn.symm.trans (ofNibble?_eq_some_iff.mp hdigit)⟩
  case h_12 hk =>
    cases h
    exact ⟨⟨hop.symm.trans hk, hnnn⟩, (hasXY_fields (hop.symm.trans hk)).1⟩
  case h_14 hk =>
    cases h
    exact ⟨hasXY_fields (hop.symm.trans hk), hn⟩
  case h_15 hk => exact names_of_keys (hop.symm.trans hk) h
  case h_16 =>
    -- the last family is what the fifteen other digits leave
    simp only [imp_false] at *
    exact names_of_misc (by omega) h

/-! ## What is named is what the decoder answers -/

/-- A named register is the field of the word. -/
theorem HasX.eq {w : Word} {k : Nat} {x : Nibble} (h : HasX w k x) :
    (Fields.ofWord w).opcode.val = k ∧ x = (Fields.ofWord w).x :=
  ⟨(Fields.ofWord_opcode w).trans h.1, Fin.ext (h.2.trans (Fields.ofWord_x w).symm)⟩

/-- The digits that a word has are the fields that are cut from it. -/
theorem HasXY.eq {w : Word} {k : Nat} {x y : Nibble} (h : HasXY w k x y) :
    (Fields.ofWord w).opcode.val = k ∧ x = (Fields.ofWord w).x ∧ y = (Fields.ofWord w).y :=
  ⟨h.1.eq.1, h.1.eq.2, Fin.ext (h.2.trans (Fields.ofWord_y w).symm)⟩

/-- The address that a word has is the field that is cut from it. -/
theorem HasAddress.eq {w : Word} {k : Nat} {t : UInt16} (h : HasAddress w k t) :
    (Fields.ofWord w).opcode.val = k ∧ t = (Fields.ofWord w).nnn :=
  ⟨(Fields.ofWord_opcode w).trans h.1,
    UInt16.toNat_inj.mp (h.2.trans (Fields.ofWord_nnn w).symm)⟩

/-- The low byte that a word has is the field that is cut from it. -/
theorem eq_nn {w : Word} {b : UInt8} (h : b.toNat = w.toNat % 256) : b = (Fields.ofWord w).nn :=
  UInt8.toNat_inj.mp (h.trans (Fields.ofWord_nn w).symm)

/-- The decoder finds the instruction that a word names. -/
theorem decode_of_names {w : Word} {i : Instruction} (h : Names w i) : decode w = some i := by
  cases i
  case clear | ret =>
    have hop := Fields.ofWord_opcode w
    have hx := Fields.ofWord_x w
    have hnn := Fields.ofWord_nn w
    simp only [Names] at h
    simp only [h, Nat.reduceDiv, Nat.reduceMod] at hop hx hnn
    simp only [decode, ofFields?, hop, system?, hx, hnn, if_true]
  case jump t | call t | setIndex t =>
    obtain ⟨hop, rfl⟩ := HasAddress.eq h
    simp only [decode, ofFields?, hop]
  case skip c =>
    cases c
    case is x b | isNot x b =>
      obtain ⟨hop, rfl⟩ := h.1.eq
      obtain rfl := eq_nn h.2
      simp only [decode, ofFields?, hop]
    case same x y | differ x y =>
      obtain ⟨hop, rfl, rfl⟩ := h.1.eq
      have hn := (Fields.ofWord_n w).trans h.2
      simp only [decode, ofFields?, hop, hn, if_true]
    case keyDown x | keyUp x =>
      obtain ⟨hop, rfl⟩ := h.1.eq
      have hnn := (Fields.ofWord_nn w).trans h.2
      simp only [decode, ofFields?, hop, keys?, hnn]
  case set x b | add x b | random x b =>
    obtain ⟨hop, rfl⟩ := h.1.eq
    obtain rfl := eq_nn h.2
    simp only [decode, ofFields?, hop]
  case alu op x y =>
    obtain ⟨hop, rfl, rfl⟩ := h.1.eq
    have hn := ofNibble?_eq_some_iff.mpr ((Fields.ofWord_n w).trans h.2)
    simp only [decode, ofFields?, hop, hn, Option.map_some]
  case jumpOffset x t =>
    obtain ⟨hop, rfl⟩ := h.1.eq
    obtain ⟨-, rfl⟩ := h.2.eq
    simp only [decode, ofFields?, hop]
  case draw x y n =>
    obtain ⟨hop, rfl, rfl⟩ := h.1.eq
    obtain rfl : n = (Fields.ofWord w).n := Fin.ext (h.2.trans (Fields.ofWord_n w).symm)
    simp only [decode, ofFields?, hop]
  case getDelay x | waitKey x | setDelay x | setSound x | addIndex x | glyph x | decimal x |
      store x | load x =>
    obtain ⟨hop, rfl⟩ := h.1.eq
    have hnn := (Fields.ofWord_nn w).trans h.2
    simp only [decode, ofFields?, hop, misc?, hnn]

/-- The decoder answers with the instruction that a word names. -/
theorem decode_eq_some_iff {w : Word} {i : Instruction} : decode w = some i ↔ Names w i :=
  ⟨names_of_decode, decode_of_names⟩

/-! ## Words without an instruction -/

/-- An unassigned word names no instruction. -/
theorem not_names_of_unassigned {w : Word} (hw : w.Unassigned) (i : Instruction) :
    ¬ Names w i := by
  intro h
  simp only [Word.Unassigned, List.mem_cons, List.not_mem_nil, or_false, not_or] at hw
  cases i
  case skip c =>
    cases c
    all_goals simp only [Names, HasXY, HasX] at h
    all_goals omega
  case alu op x y =>
    cases op
    all_goals simp only [Names, HasXY, HasX, AluOp.digit] at h
    all_goals omega
  all_goals simp only [Names, HasXY, HasX, HasAddress] at h
  all_goals omega

/-- A digit that no operation has is one of seven. -/
theorem mem_of_ne_digit {n : Nat} (hlt : n < 16) (h : ∀ op : AluOp, n ≠ op.digit) :
    n ∈ [0x8, 0x9, 0xA, 0xB, 0xC, 0xD, 0xF] := by
  have h0 : n ≠ 0x0 := h .set
  have h1 : n ≠ 0x1 := h .or
  have h2 : n ≠ 0x2 := h .and
  have h3 : n ≠ 0x3 := h .xor
  have h4 : n ≠ 0x4 := h .add
  have h5 : n ≠ 0x5 := h .sub
  have h6 : n ≠ 0x6 := h .shiftRight
  have h7 : n ≠ 0x7 := h .subFrom
  have hE : n ≠ 0xE := h .shiftLeft
  simp only [List.mem_cons, List.not_mem_nil, or_false]
  omega

/-- A word that names no instruction is unassigned. -/
theorem unassigned_of_not_names {w : Word} (h : ∀ i, ¬ Names w i) : w.Unassigned := by
  have hnn := Fields.ofWord_nn w
  have hnnn := Fields.ofWord_nnn w
  obtain ⟨k, hk⟩ : ∃ k, w.toNat / 4096 = k := ⟨_, rfl⟩
  have hlt : k < 16 := by
    have := w.toNat_lt
    omega
  have hxy := hasXY_fields hk
  have hx := hxy.1
  -- a family that is complete names an instruction, the others tell what is missing
  interval_cases k
  · exact .inl ⟨hk, h clear, h ret⟩
  · exact absurd ⟨hk, hnnn⟩ (h (jump _))
  · exact absurd ⟨hk, hnnn⟩ (h (call _))
  · exact absurd ⟨hx, hnn⟩ (h (skip (.is _ _)))
  · exact absurd ⟨hx, hnn⟩ (h (skip (.isNot _ _)))
  · exact .inr (.inl ⟨.inl hk, fun e => h (skip (.same _ _)) ⟨hxy, e⟩⟩)
  · exact absurd ⟨hx, hnn⟩ (h (set _ _))
  · exact absurd ⟨hx, hnn⟩ (h (add _ _))
  · have hop : ∀ op : AluOp, w.toNat % 16 ≠ op.digit := fun op e => h (alu op _ _) ⟨hxy, e⟩
    refine .inr (.inr (.inl ⟨hk, mem_of_ne_digit (Nat.mod_lt _ (by decide)) hop⟩))
  · exact .inr (.inl ⟨.inr hk, fun e => h (skip (.differ _ _)) ⟨hxy, e⟩⟩)
  · exact absurd ⟨hk, hnnn⟩ (h (setIndex _))
  · exact absurd ⟨⟨hk, hnnn⟩, hx⟩ (h (jumpOffset _ _))
  · exact absurd ⟨hx, hnn⟩ (h (random _ _))
  · exact absurd ⟨hxy, Fields.ofWord_n w⟩ (h (draw _ _ _))
  · refine .inr (.inr (.inr (.inl ⟨hk, ?_⟩)))
    simp only [List.mem_cons, List.not_mem_nil, or_false, not_or]
    exact ⟨fun e => h (skip (.keyDown _)) ⟨hx, e⟩, fun e => h (skip (.keyUp _)) ⟨hx, e⟩⟩
  · refine .inr (.inr (.inr (.inr ⟨hk, ?_⟩)))
    simp only [List.mem_cons, List.not_mem_nil, or_false, not_or]
    exact ⟨fun e => h (getDelay _) ⟨hx, e⟩, fun e => h (waitKey _) ⟨hx, e⟩,
      fun e => h (setDelay _) ⟨hx, e⟩, fun e => h (setSound _) ⟨hx, e⟩,
      fun e => h (addIndex _) ⟨hx, e⟩, fun e => h (glyph _) ⟨hx, e⟩,
      fun e => h (decimal _) ⟨hx, e⟩, fun e => h (store _) ⟨hx, e⟩,
      fun e => h (load _) ⟨hx, e⟩⟩

/-- The decoder refuses exactly the unassigned words. -/
theorem decode_eq_none_iff {w : Word} : decode w = none ↔ w.Unassigned := by
  rw [Option.eq_none_iff_forall_ne_some]
  constructor
  · intro h
    exact unassigned_of_not_names fun i hi => h i (decode_of_names hi)
  · intro hw i hi
    exact not_names_of_unassigned hw i (names_of_decode hi)

end Instruction

end Chip8
