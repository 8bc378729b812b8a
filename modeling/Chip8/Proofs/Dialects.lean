import Chip8.Proofs.Changes
import Chip8.Proofs.Commands
import Chip8.Proofs.KeyPresses
import Chip8.Proofs.Transfers
import Chip8.Proofs.WriteSets

/-!
# Who notices the dialect

A dialect has five switches, and each of them is asked for by a few words only, and by some of these
only on certain machines: a shift of a register into itself is the same in every dialect, and so is a
sprite that lies on the screen. `Machine.Indifferent m w e` says that no switch that the word `w`
asks for tells the dialect of the machine `m` from the dialect `e`. Such a word has the same effect
in both (`effect_speaking`), and hence so has its execution and the step to it. By induction a host
that only has indifferent words executed sees the same machine in both dialects, state by state:
`dialects_agree` is the top.
-/

set_option autoImplicit false

namespace Chip8

/-! ## The switches, one by one -/

/-- An operation comes out the same in two dialects that agree on the switches that it asks for. A
shift does not care which of two equal operands it reads. -/
theorem AluOp.outcome_congr {d e : Dialect} {op : AluOp} {a b : UInt8}
    (hshift : op.isShift = true → d.shiftReadsVY = e.shiftReadsVY ∨ a = b)
    (hlogic : op.isLogic = true → d.logicClearsFlag = e.logicClearsFlag) :
    op.outcome d a b = op.outcome e a b := by
  have hread : (if d.shiftReadsVY && op.isShift then b else a) =
      (if e.shiftReadsVY && op.isShift then b else a) := by
    cases hs : op.isShift with
    | false => simp
    | true =>
      rcases hshift hs with h | h
      · rw [h]
      · simp [h]
  have hclear : (d.logicClearsFlag && op.isLogic) = (e.logicClearsFlag && op.isLogic) := by
    cases hl : op.isLogic with
    | false => simp
    | true => rw [hlogic hl]
  unfold outcome
  rw [hread, hclear]

namespace Sprite

/-- If every bit that comes back at the left is off, rotating is shifting. -/
theorem rotateRight_eq_ushiftRight {n x : Nat} (v : BitVec n) (hx : x < n)
    (h : ∀ i, i < x → v.getLsbD i = false) : v.rotateRight x = v >>> x := by
  apply BitVec.eq_of_getLsbD_eq
  intro i hi
  rw [BitVec.getLsbD_rotateRight, BitVec.getLsbD_ushiftRight, Nat.mod_eq_of_lt hx, Bool.cond_decide]
  split
  · rfl
  · rw [h _ (by omega), BitVec.getLsbD_of_ge v _ (by omega), Bool.and_false]

/-- Clipping does nothing to a row that ends on the screen. -/
theorem row_of_onScreen {x : Nat} (hx : x + 8 ≤ 64) (b : UInt8) : row true x b = row false x b := by
  symm
  apply rotateRight_eq_ushiftRight _ (Nat.lt_of_lt_of_le (by omega) hx)
  intro i hi
  have hlow : i < screenWidth - 8 := Nat.lt_of_lt_of_le hi (Nat.le_sub_of_add_le hx)
  simp only [BitVec.getLsbD_shiftLeft, hlow, decide_true, Bool.not_true, Bool.and_false,
    Bool.false_and]

/-- A sprite that lies on the screen is drawn alike on clipping and wrapping screens. -/
theorem mask_of_onScreen {x y : Nat} {bytes : List UInt8} (hx : x + 8 ≤ 64)
    (hy : y + bytes.length ≤ 32) : mask true x y bytes = mask false x y bytes := by
  unfold mask
  congr 2
  funext r
  by_cases hr : r.val < y
  · -- above the sprite a clipping screen shows nothing, and a wrapping one no byte of the sprite
    have hbelow : bytes.length ≤ (r.val + 32 - y) % 32 := by omega
    simp [hr, List.getElem?_eq_none hbelow]
  · simp only [Bool.true_and, Bool.false_and, hr, decide_false, Bool.false_eq_true, if_false]
    split
    · exact row_of_onScreen hx _
    · rfl

end Sprite

namespace Machine

/-- The machine in another dialect. -/
def speaking (m : Machine) (e : Dialect) : Machine := { m with dialect := e }

/-- The dialect can be changed without a cycle taking notice outside of its instruction. -/
theorem unheeded_speaking (e : Dialect) : Unheeded (fun m => m.speaking e) where
  v := fun _ => rfl
  keypad := fun _ => rfl
  lastKeypad := fun _ => rfl
  pc := fun _ => rfl
  setV := fun _ _ => rfl
  setPc := fun _ _ => rfl
  faulted := fun _ => rfl
  memory := fun _ => rfl
  stack := fun _ => rfl
  index := fun _ => rfl
  trip := fun _ _ _ => rfl
  remember := fun _ _ => rfl
  setKeypad := fun _ _ => rfl
  setMemory := fun _ _ => rfl
  clearFault := fun _ => rfl

/-- The sprite that the word draws lies on the screen: its eight columns and its rows, counted from
where `VX` and `VY` put it. -/
def OnScreen (m : Machine) (w : Word) : Prop :=
  (m.reg (Fields.ofWord w).x).toNat % 64 + 8 ≤ 64 ∧
    (m.reg (Fields.ofWord w).y).toNat % 32 + w.toNat % 16 ≤ 32

/-- The word does not tell the dialect of the machine from the dialect `e`. -/
structure Indifferent (m : Machine) (w : Word) (e : Dialect) : Prop where
  shift : w.toNat / 4096 = 0x8 → w.toNat % 16 = 0x6 ∨ w.toNat % 16 = 0xE →
    m.dialect.shiftReadsVY = e.shiftReadsVY ∨ w.toNat / 256 % 16 = w.toNat / 16 % 16
  logic : w.toNat / 4096 = 0x8 → w.toNat % 16 = 0x1 ∨ w.toNat % 16 = 0x2 ∨ w.toNat % 16 = 0x3 →
    m.dialect.logicClearsFlag = e.logicClearsFlag
  jump : w.toNat / 4096 = 0xB →
    m.dialect.jumpReadsVX = e.jumpReadsVX ∨ w.toNat / 256 % 16 = 0
  sprite : w.toNat / 4096 = 0xD → m.dialect.clipSprites = e.clipSprites ∨ m.OnScreen w
  transfer : w.IsMisc 0x55 ∨ w.IsMisc 0x65 →
    m.dialect.transferMovesIndex = e.transferMovesIndex

end Machine

namespace Instruction

variable {m : Machine} {w : Word} {e : Dialect} {i : Instruction}

/-- An operation on registers gives the same in two dialects if its word does not tell them
apart. -/
theorem outcome_speaking {op : AluOp} {x y : Nibble} (hi : Names w (alu op x y))
    (h : m.Indifferent w e) :
    op.outcome e (m.reg x) (m.reg y) = op.outcome m.dialect (m.reg x) (m.reg y) := by
  obtain ⟨hxy, hdigit⟩ := hi
  symm
  apply AluOp.outcome_congr
  · intro hs
    have hlast : w.toNat % 16 = 0x6 ∨ w.toNat % 16 = 0xE := by
      rw [hdigit]
      cases op
      case shiftRight | shiftLeft => simp [AluOp.digit]
      all_goals cases hs
    apply (h.shift hxy.1.1 hlast).imp_right
    intro hsame
    have hx : x = y := Fin.ext (hxy.1.2.trans (hsame.trans hxy.2.symm))
    rw [hx]
  · intro hl
    apply h.logic hxy.1.1
    rw [hdigit]
    cases op
    case or | and | xor => simp [AluOp.digit]
    all_goals cases hl

/-- A sprite covers the same pixels in two dialects if its word does not tell them apart. -/
theorem mask_speaking {x y n : Nibble} (hi : Names w (draw x y n)) (h : m.Indifferent w e) :
    Sprite.mask e.clipSprites ((m.reg x).toNat % screenWidth) ((m.reg y).toNat % screenHeight)
        (m.memory.slice m.base n) =
      Sprite.mask m.dialect.clipSprites ((m.reg x).toNat % screenWidth)
        ((m.reg y).toNat % screenHeight) (m.memory.slice m.base n) := by
  obtain ⟨hxy, hn⟩ := hi
  rcases h.sprite hxy.1.1 with hclip | hscreen
  · rw [hclip]
  · obtain ⟨-, hx, hy⟩ := hxy.eq
    obtain ⟨hcolumns, hrows⟩ := hscreen
    rw [← hx] at hcolumns
    rw [← hy, ← hn, ← m.memory.length_slice m.base n] at hrows
    have hsame := Sprite.mask_of_onScreen hcolumns hrows
    cases e.clipSprites
    all_goals cases m.dialect.clipSprites
    all_goals simp only [hsame]

/-- An instruction commutes with a change of dialect if its word does not tell the dialects
apart. -/
theorem effect_speaking (hi : Names w i) (h : m.Indifferent w e) :
    i.effect (m.speaking e) = (i.effect m).speaking e := by
  have haside := (Machine.unheeded_speaking e).toAside
  cases i
  case skip c => exact haside.skip m c
  case waitKey x => exact haside.waitKey m x
  case alu op x y =>
    have houtcome := outcome_speaking hi h
    simp only [effect, haside.reg]
    rw [show (m.speaking e).dialect = e from rfl, houtcome]
    exact haside.writeOutcome m x _
  case jumpOffset x t =>
    have hread : (if e.jumpReadsVX then x else offsetRegister) =
        (if m.dialect.jumpReadsVX then x else offsetRegister) := by
      rcases h.jump hi.1.1 with hjump | hzero
      · rw [hjump]
      · have hx : x = offsetRegister := Fin.ext (hi.2.2.trans hzero)
        simp [hx]
    simp only [effect, haside.reg]
    rw [show (m.speaking e).dialect = e from rfl, hread]
    rfl
  case draw x y n =>
    have hmask := mask_speaking hi h
    have hbase : (m.speaking e).base = m.base := rfl
    simp only [effect, Machine.draw, haside.reg, hbase]
    simp only [Machine.speaking, hmask]
    rfl
  case store x =>
    have hmoves := h.transfer (.inl ⟨hi.1.1, hi.2⟩)
    simp only [effect, Machine.moveIndex_eq]
    simp only [Machine.speaking, Machine.writeMemory, hmoves]
    rfl
  case load x =>
    have hmoves := h.transfer (.inr ⟨hi.1.1, hi.2⟩)
    simp only [effect, Machine.moveIndex_eq]
    simp only [Machine.speaking, hmoves]
    rfl
  all_goals rfl

end Instruction

namespace Machine

variable {m : Machine} {w : Word} {e : Dialect}

/-- A word that does not tell two dialects apart is executed alike in both. -/
theorem execute_speaking (h : m.Indifferent w e) :
    (m.speaking e).execute w = (m.execute w).speaking e :=
  (unheeded_speaking e).execute_eq fun _ hi => Instruction.effect_speaking hi h

/-- A step to an indifferent word, or to no word at all, is the same in the other dialect. -/
theorem step_speaking (h : ∀ w, m.nextWord? = some w → m.Indifferent w e) :
    (m.speaking e).step = m.step.speaking e := by
  apply (unheeded_speaking e).step_eq
  intro w hnext i hi
  -- what a word asks for is the same behind the fetch, which moves the program counter only
  have hfetched : m.fetch.2.Indifferent w e :=
    ⟨(h w hnext).shift, (h w hnext).logic, (h w hnext).jump, (h w hnext).sprite,
      (h w hnext).transfer⟩
  exact Instruction.effect_speaking hi hfetched

/-! ## Sequences of commands -/

/-- A command that executes an indifferent word, or none, does the same in the other dialect. -/
theorem after_speaking {c : Command} (hc : c.isSingle = true)
    (h : c = .step → ∀ w, m.nextWord? = some w → m.Indifferent w e) :
    (m.speaking e).after c = (m.after c).speaking e := by
  cases c
  case execute | run | runFrame | runFrames => cases hc
  case step => exact step_speaking (h rfl)
  case tick | reset => rfl
  case setKey | setKeypad | load | clearFault => exact (unheeded_speaking e).after_eq m rfl

/-- Each word that the commands have executed does not tell the dialect from the dialect `e`, when
its turn comes. -/
def StaysIndifferent (m : Machine) (e : Dialect) (cs : List Command) : Prop :=
  ∀ i, cs[i]? = some .step → ∀ w, (m.afterAll (cs.take i)).nextWord? = some w →
    (m.afterAll (cs.take i)).Indifferent w e

/-- Two dialects go together for as long as the words that are executed do not tell them apart. -/
theorem afterAll_speaking {cs : List Command} (hcs : ∀ c ∈ cs, c.isSingle = true)
    (h : m.StaysIndifferent e cs) (i : Nat) :
    (m.speaking e).afterAll (cs.take i) = (m.afterAll (cs.take i)).speaking e := by
  induction i with
  | zero => rfl
  | succ i ih =>
    rw [List.take_add_one, afterAll_append, afterAll_append, ih]
    cases hc : cs[i]? with
    | none => rfl
    | some c =>
      apply after_speaking
      · exact hcs c (List.mem_of_getElem? hc)
      · rintro rfl
        exact h i hc

/-- The last of the commands leads where all of them do. -/
theorem afterAll_speaking_all {cs : List Command} (hcs : ∀ c ∈ cs, c.isSingle = true)
    (h : m.StaysIndifferent e cs) : (m.speaking e).afterAll cs = (m.afterAll cs).speaking e := by
  have hall := afterAll_speaking hcs h cs.length
  rwa [List.take_length] at hall

/-- A run is the same in two dialects if none of its words tells them apart. -/
theorem run_speaking {n : Nat}
    (h : ∀ j, j < n → ∀ w, (m.run j).nextWord? = some w → (m.run j).Indifferent w e) :
    (m.speaking e).run n = (m.run n).speaking e := by
  rw [← afterAll_steps, ← afterAll_steps]
  apply afterAll_speaking_all
  · exact Command.forall_mem_steps rfl
  · intro i hi
    obtain ⟨hlt, -⟩ := List.getElem?_eq_some_iff.mp hi
    rw [Command.steps, List.length_replicate] at hlt
    rw [Command.steps, List.take_replicate, Nat.min_eq_left (Nat.le_of_lt hlt), ← Command.steps,
      afterAll_steps]
    exact h i hlt

/-- Frames are the same in two dialects if none of their words tells them apart. -/
theorem runFrames_speaking {n k : Nat} (h : m.StaysIndifferent e (Command.frames n k)) :
    (m.speaking e).runFrames n k = (m.runFrames n k).speaking e := by
  rw [← afterAll_frames, ← afterAll_frames]
  exact afterAll_speaking_all (Command.forall_mem_frames rfl rfl) h

/-! ## No command changes the dialect -/

/-- A step does not change the dialect. -/
theorem step_dialect (m : Machine) : m.step.dialect = m.dialect := by
  generalize hr : m.step = r
  cases steps_iff.mpr hr
  case halted | pastEnd | refused => rfl
  case done w i hrun hpc hw hi hf => exact (i.effect_keepsHost m.fetch.2).dialect

/-- No word changes the dialect. -/
theorem execute_dialect (m : Machine) (w : Word) : (m.execute w).dialect = m.dialect := by
  generalize hr : m.execute w = r
  cases executes_iff.mpr hr
  case halted | refused => rfl
  case done i hrun hi hf => exact (i.effect_keepsHost m).dialect

/-- A run does not change the dialect. -/
theorem run_dialect (m : Machine) (n : Nat) : (m.run n).dialect = m.dialect := by
  apply run_keeps (P := fun r => r.dialect = m.dialect)
  · exact fun r hr => r.step_dialect.trans hr
  · rfl

/-- Frames do not change the dialect. -/
theorem runFrames_dialect (m : Machine) (n k : Nat) : (m.runFrames n k).dialect = m.dialect := by
  apply runFrames_keeps (P := fun r => r.dialect = m.dialect)
  · exact fun r hr => r.step_dialect.trans hr
  · exact fun r hr => hr
  · rfl

/-- A host has no command that changes the dialect. -/
theorem after_dialect (m : Machine) (c : Command) : (m.after c).dialect = m.dialect := by
  generalize hr : m.after c = r
  cases hr ▸ m.obeys_after c
  case execute word _ => exact m.execute_dialect _
  case step => exact m.step_dialect
  case run a _ => exact m.run_dialect a
  case runFrame a _ => exact m.run_dialect a
  case runFrames a b _ => exact m.runFrames_dialect a b
  all_goals rfl

/-- Loading a file does not change the dialect. -/
theorem loadFile_dialect {r : Machine} {tree : FileTree} {name : String}
    (h : m.loadFile tree name = .ok r) : r.dialect = m.dialect := by
  unfold loadFile at h
  split at h
  · cases h
  · obtain ⟨-, rfl⟩ := load_eq_ok (mapError_eq_ok h)
    rfl

/-- Let `e` be any dialect. A word that does not tell it from the dialect of the machine executes
alike in both: all that comes of it differs in the dialect at most. If that goes for every word that a
sequence of steps, ticks, changes of keys, loads, cleared faults and resets executes, the machine
passes through the same states in both dialects, and so it does in a plain run and in frames. No
command, carried out or refused, and no watched run changes the dialect. -/
theorem dialects_agree (m : Machine) (e : Dialect) :
    (∀ w, m.Indifferent w e → (m.speaking e).execute w = (m.execute w).speaking e) ∧
    (∀ cs : List Command, (∀ c ∈ cs, c.isSingle = true) → m.StaysIndifferent e cs →
      ∀ i, (m.speaking e).afterAll (cs.take i) = (m.afterAll (cs.take i)).speaking e) ∧
    (∀ n, (∀ j, j < n → ∀ w, (m.run j).nextWord? = some w → (m.run j).Indifferent w e) →
      ∀ j, j ≤ n → (m.speaking e).run j = (m.run j).speaking e) ∧
    (∀ n k, m.StaysIndifferent e (Command.frames n k) →
      (m.speaking e).runFrames n k = (m.runFrames n k).speaking e) ∧
    (∀ c, (m.after c).dialect = m.dialect) ∧
    (∀ tree name r, m.loadFile tree name = .ok r → r.dialect = m.dialect) ∧
    (∀ n k, (m.watchFrames n k).final.dialect = m.dialect) := by
  refine ⟨fun w h => execute_speaking h, fun cs hcs h => afterAll_speaking hcs h,
    fun n h j hj => ?_, fun n k h => runFrames_speaking h, m.after_dialect,
    fun tree name r h => loadFile_dialect h, fun n k => ?_⟩
  · exact run_speaking fun i hi => h i (Nat.lt_of_lt_of_le hi hj)
  · rw [watchFrames_final]
    exact m.runFrames_dialect _ _

/-- A machine in front of a sprite in the top left corner and a jump back to it. -/
def redrawing : Machine := { bare [0xD0, 0x01, 0xB2, 0x00] with index := 0x200 }

/-- A dialect that differs from that of the machine in all switches but the one for jumps. -/
def otherwise : Dialect where
  shiftReadsVY := true
  transferMovesIndex := true
  logicClearsFlag := true
  clipSprites := true

/-- A place with one file, an image that clears the screen. -/
def shelf : FileTree := { files := [(["clear"], [0x00, 0xE0])], current := [] }

/-- Neither word of the loop tells the dialects apart as long as `V0` is zero. -/
theorem indifferent_redrawing {r : Machine}
    (h : r.dialect = .classic ∧ r.reg 0 = 0 ∧
      (r.nextWord? = some 0xD001 ∨ r.nextWord? = some 0xB200)) {w : Word}
    (hw : r.nextWord? = some w) : r.Indifferent w otherwise := by
  obtain ⟨hdialect, hzero, h | h⟩ := h
  · obtain rfl : 0xD001 = w := Option.some.inj (h.symm.trans hw)
    have hx : (Fields.ofWord 0xD001).x = 0 := by decide
    have hy : (Fields.ofWord 0xD001).y = 0 := by decide
    have hscreen : r.OnScreen 0xD001 := by
      rw [OnScreen, hx, hy, hzero]
      decide
    exact ⟨nofun, nofun, nofun, fun _ => .inr hscreen, fun hmisc => absurd hmisc (by decide)⟩
  · obtain rfl : 0xB200 = w := Option.some.inj (h.symm.trans hw)
    have hjump : r.dialect.jumpReadsVX = otherwise.jumpReadsVX := by
      rw [hdialect]
      rfl
    exact ⟨nofun, nofun, fun _ => .inl hjump, nofun, fun hmisc => absurd hmisc (by decide)⟩

/-- A round of the loop is the same in both dialects, in a plain run and with a tick behind each
step. -/
theorem dialects_agree_redrawing :
    redrawing.Indifferent 0xD001 otherwise ∧
      (redrawing.speaking otherwise).execute 0xD001 =
        (redrawing.execute 0xD001).speaking otherwise ∧
      (∀ j, j < 2 → ∀ w, (redrawing.run j).nextWord? = some w →
        (redrawing.run j).Indifferent w otherwise) ∧
      (redrawing.speaking otherwise).run 2 = (redrawing.run 2).speaking otherwise ∧
      redrawing.StaysIndifferent otherwise (Command.frames 2 1) ∧
      (redrawing.speaking otherwise).runFrames 2 1 =
        (redrawing.runFrames 2 1).speaking otherwise ∧
      (redrawing.after (.reset ⟨1, 2⟩)).dialect = redrawing.dialect ∧
      ∃ r, redrawing.loadFile shelf "clear" = .ok r ∧ r.dialect = redrawing.dialect := by
  have hrun : ∀ j, j < 2 → ∀ w, (redrawing.run j).nextWord? = some w →
      (redrawing.run j).Indifferent w otherwise := by
    intro j hj w
    apply indifferent_redrawing
    interval_cases j
    all_goals decide +kernel
  have hframes : redrawing.StaysIndifferent otherwise (Command.frames 2 1) := by
    intro i hi w
    have hlt : i < 4 := (List.getElem?_eq_some_iff.mp hi).1
    apply indifferent_redrawing
    clear hi
    interval_cases i
    all_goals decide +kernel
  have hword : redrawing.Indifferent 0xD001 otherwise := hrun 0 (by decide) _ (by decide +kernel)
  have hread : shelf.read "clear" = .ok [0x00, 0xE0] := by decide +kernel
  obtain ⟨r, hr⟩ : ∃ r, redrawing.loadFile shelf "clear" = .ok r := by
    rw [loadFile, hread]
    exact ⟨_, rfl⟩
  obtain ⟨hexecute, -, hruns, hframe, hdialect, hfile, -⟩ := dialects_agree redrawing otherwise
  exact ⟨hword, hexecute _ hword, hrun, hruns 2 hrun 2 (Nat.le_refl 2), hframes,
    hframe 2 1 hframes, hdialect _, r, hr, hfile _ _ r hr⟩

end Machine

end Chip8
