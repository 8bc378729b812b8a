import Chip8.Proofs.Images
import Chip8.Proofs.Sprites
import Chip8.Proofs.Unread

/-!
# The font and its glyphs

The font is put into memory at power-on, and no part of memory is protected from programs. A byte of
memory changes when an image is loaded over it, at a reset, or because `FX33` or `FX55` stores to it
(`stores_of_step_ne`, `stores_of_execute_ne`). Images begin above the font and a reset restores it, so
the font stays as long as no such instruction stores to one of its bytes, whatever the host does in
between (`HoldsFont.afterAll`).

Where the font stands, `FX29` points the index at the glyph of a digit, and `DYZ5` behind it draws the
five rows of that glyph (`execute_glyph_draw`). `font_stays_and_shows` is the top.
-/

set_option autoImplicit false

namespace Chip8

/-- The number of bytes that a word stores to memory, from the index on. -/
def Word.storeSize (w : Word) : Nat :=
  if w.IsMisc 0x33 then 3 else if w.IsMisc 0x55 then w.toNat / 256 % 16 + 1 else 0

/-- Bytes that do not change stay where they stand. -/
theorem Memory.HoldsBytes.congr {m t : Memory} {base : Nat} {bytes : List UInt8}
    (h : m.HoldsBytes base bytes)
    (hsame : ∀ a (ha : a < 4096), base ≤ a → a < base + bytes.length → t[a] = m[a]) :
    t.HoldsBytes base bytes := by
  intro j hj
  have hbyte := h j hj
  obtain ⟨ha, -⟩ := Vector.getElem?_eq_some_iff.mp hbyte
  rw [Vector.getElem?_eq_getElem ha, hsame _ ha (by omega) (by omega),
    ← Vector.getElem?_eq_getElem ha, hbyte]

namespace Machine

variable {m : Machine} {c : Command} {w : Word} {a : Nat}

/-! ## What stays -/

/-- A command completes an instruction that stores to an address. -/
def Stores (m : Machine) (c : Command) (a : Nat) : Prop :=
  ∃ w, m.Completes c w ∧ m.base ≤ a ∧ a < m.base + w.storeSize

/-- A command completes an instruction that stores to a byte of the font. -/
def HitsFont (m : Machine) (c : Command) : Prop := ∃ a, 0x50 ≤ a ∧ a ≤ 0x9F ∧ m.Stores c a

/-- None of a sequence of single commands completes an instruction that stores to the font. -/
def SparesFont (m : Machine) : List Command → Prop
  | [] => True
  | c :: cs => ¬ m.HitsFont c ∧ (m.after c).SparesFont cs

/-- The font stands in its place. -/
def HoldsFont (m : Machine) : Prop := m.memory.HoldsBytes Font.start Font.bytes

/-- A command that executes no word stores nothing. -/
theorem not_hitsFont_of_none (hw : m.word? c = none) : ¬ m.HitsFont c := by
  rintro ⟨a, -, -, w, hcompletes, -⟩
  exact Option.some_ne_none w (hcompletes.1.symm.trans hw)

/-- A word whose span lies before the font or behind it leaves the font alone. -/
theorem not_hitsFont_of_word? (hw : m.word? c = some w)
    (hout : w.storeSize = 0 ∨ 0x9F < m.base ∨ m.base + w.storeSize ≤ 0x50) : ¬ m.HitsFont c := by
  rintro ⟨a, hle, hlt, v, hv, hspan⟩
  obtain rfl := hv.word_eq hw
  omega

/-- An instruction changes bytes of its own span only. -/
theorem span_of_effect_ne {i : Instruction} (hi : Instruction.Names w i) (ha : a < 4096)
    (h : (i.effect m).memory[a] ≠ m.memory[a]) : m.base ≤ a ∧ a < m.base + w.storeSize := by
  unfold Word.storeSize
  rcases Instruction.changed_memory hi ha h with ⟨hw, hspan⟩ | ⟨hw, hspan⟩
  · rw [if_pos hw]
    exact hspan
  · have hother : ¬ w.IsMisc 0x33 := by
      rintro ⟨-, hlow⟩
      rw [hw.2] at hlow
      cases hlow
    rw [if_neg hother, if_pos hw]
    exact hspan

/-- Where a step has changed memory, an instruction was completed that stores there. -/
theorem stores_of_step_ne (ha : a < 4096) (h : m.step.memory[a] ≠ m.memory[a]) :
    m.Stores .step a := by
  generalize hr : m.step = r at h
  cases steps_iff.mpr hr
  case halted | pastEnd | refused => exact absurd rfl h
  case done w i hrun hpc hw hi hf =>
    exact ⟨w, completes_of_step hrun hw hr,
      span_of_effect_ne (m := m.fetch.2) (Instruction.decode_eq_some_iff.mp hi) ha h⟩

/-- Where an executed word has changed memory, the word is one that stores there. -/
theorem stores_of_execute_ne {n : Int} (ha : a < 4096)
    (h : (m.after (.execute n)).memory[a] ≠ m.memory[a]) : m.Stores (.execute n) a := by
  cases hw : m.word? (.execute n) with
  | none =>
    rw [after_execute_of_none hw] at h
    exact absurd rfl h
  | some w =>
    obtain ⟨hrun, hexecute⟩ := after_execute_of_word? hw
    generalize hr : m.execute w = r at hexecute
    rw [hexecute] at h
    cases executes_iff.mpr hr
    case halted | refused => exact absurd rfl h
    case done i _ hi hf =>
      refine ⟨w, ⟨hw, ?_⟩, span_of_effect_ne (Instruction.decode_eq_some_iff.mp hi) ha h⟩
      rw [hexecute]
      exact (m.faulted_effect i).trans hrun

/-- A machine is switched on with the font in its place. -/
theorem holdsFont_powerOn (key : Random.Key) (dialect : Dialect) :
    (powerOn key dialect).HoldsFont :=
  (Memory.zero.overlaid_write (by decide)).inside

/-- The font stays where none of its bytes changes. -/
theorem HoldsFont.of_kept {r : Machine} (h : m.HoldsFont)
    (hkept : ∀ a (ha : a < 4096), 0x50 ≤ a → a ≤ 0x9F → r.memory[a] = m.memory[a]) :
    r.HoldsFont :=
  Memory.HoldsBytes.congr h fun a ha hle hlt => hkept a ha hle (Nat.le_of_lt_succ hlt)

/-- The font stays where a command that does not store to it changes what it stores to only. -/
theorem HoldsFont.of_spared {r : Machine} (h : m.HoldsFont) (hspares : ¬ m.HitsFont c)
    (hstores : ∀ a (ha : a < 4096), r.memory[a] ≠ m.memory[a] → m.Stores c a) : r.HoldsFont := by
  apply h.of_kept
  intro a ha hle hlt
  by_contra hne
  exact hspares ⟨a, hle, hlt, hstores a ha hne⟩

/-- The font survives a single command that does not store to it. -/
theorem HoldsFont.after (h : m.HoldsFont) (hsingle : c.isRun = false) (hspares : ¬ m.HitsFont c) :
    (m.after c).HoldsFont := by
  generalize hr : m.after c = r
  have hobeys : m.Obeys c r := hr ▸ m.obeys_after c
  cases hobeys
  case run | runFrame | runFrames => cases hsingle
  case refused | tick | setKey | setKeypad | clearFault => exact h
  case reset key => exact holdsFont_powerOn key m.dialect
  case load image hsize =>
    apply h.of_kept
    intro a ha hle hlt
    have hbelow : a < 0x200 := by omega
    exact (m.memory.overlaid_image hsize).outside a ha (.inl hbelow)
  case step => exact h.of_spared hspares fun a ha hne => stores_of_step_ne ha hne
  case execute n hn =>
    rw [← hr]
    exact h.of_spared hspares fun a ha hne => stores_of_execute_ne ha hne

/-- The font survives a sequence of single commands that do not store to it. -/
theorem HoldsFont.afterAll {cs : List Command} (h : m.HoldsFont) (hcs : ∀ c ∈ cs, c.isRun = false)
    (hspares : m.SparesFont cs) : (m.afterAll cs).HoldsFont := by
  induction cs generalizing m with
  | nil => exact h
  | cons c cs ih =>
    exact ih (h.after (hcs c List.mem_cons_self) hspares.1)
      (fun d hd => hcs d (List.mem_cons_of_mem c hd)) hspares.2

end Machine

/-! ## What is drawn -/

namespace Font

/-- The rows of the glyph of a digit. -/
def glyph (d : Nat) : List UInt8 := (bytes.drop (5 * d)).take 5

/-- The address of a glyph does not wrap, whatever the byte: five bytes for each digit from `0x50`
on. -/
theorem toNat_address (b : UInt8) : (address b).toNat = 0x50 + 5 * b.toNat := by
  have hb := b.toNat_lt
  rw [address, UInt16.toNat_ofNat_of_lt']
  all_goals simp only [start, glyphSize, UInt16.size]
  all_goals omega

/-- Each of the sixteen glyphs is five bytes high. -/
theorem length_glyph {d : Nat} (h : d ≤ 15) : (glyph d).length = 5 := by
  have hbytes : bytes.length = 80 := rfl
  rw [glyph, List.length_take, List.length_drop, hbytes]
  omega

/-- The glyphs stand one behind the other. -/
theorem holdsBytes_glyph {t : Memory} {d : Nat} (h : t.HoldsBytes start bytes) (hd : d ≤ 15) :
    t.HoldsBytes (0x50 + 5 * d) (glyph d) := by
  have hsplit : bytes = bytes.take (5 * d) ++ (glyph d ++ (bytes.drop (5 * d)).drop 5) := by
    rw [glyph, List.take_append_drop, List.take_append_drop]
  have hbefore : (bytes.take (5 * d)).length = 5 * d := by
    rw [List.length_take]
    exact Nat.min_eq_left (Nat.mul_le_mul_left 5 hd |>.trans (by decide))
  rw [hsplit] at h
  have hglyph := h.of_append_right.of_append_left
  rwa [hbefore] at hglyph

end Font

namespace Machine

variable {m : Machine} {w w' : Word} {x y z : Nibble} {px : Fin screenWidth}
  {py : Fin screenHeight}

/-- The glyph of a digit lights a pixel, with its corner in the column and the row that `VY` and `VZ`
stand for: there are a row and a column of it whose bit is set in the font and which fall on the
pixel, counted on around the edges, or up to them on a clipping screen. -/
def LightsGlyph (m : Machine) (d : Nat) (y z : Nibble) (px : Fin screenWidth)
    (py : Fin screenHeight) : Prop :=
  ∃ r < 5, ∃ c < 8, (Font.bytes[5 * d + r]?.any fun b => b.toNat.testBit (7 - c)) = true ∧
    if m.dialect.clipSprites then
      px.val = (m.reg y).toNat % 64 + c ∧ py.val = (m.reg z).toNat % 32 + r
    else
      px.val = ((m.reg y).toNat % 64 + c) % 64 ∧ py.val = ((m.reg z).toNat % 32 + r) % 32

instance (m : Machine) (d : Nat) (y z : Nibble) (px : Fin screenWidth) (py : Fin screenHeight) :
    Decidable (m.LightsGlyph d y z px py) :=
  inferInstanceAs (Decidable (∃ r < 5, ∃ c < 8, _ ∧ ite _ _ _))

/-- The glyph of a digit, alone on the screen. -/
def glyph (m : Machine) (d : Nat) (y z : Nibble) : Screen :=
  Sprite.mask m.dialect.clipSprites ((m.reg y).toNat % 64) ((m.reg z).toNat % 32) (Font.glyph d)

/-- The machine with the index at the glyph of the digit in `VX`. -/
def atGlyph (m : Machine) (x : Nibble) : Machine := { m with index := Font.address (m.reg x) }

/-- `FX29` points the index to the glyph of `VX` and does nothing else. -/
theorem execute_glyph (hrun : m.faulted = false) (hw : Instruction.Names w (.glyph x)) :
    m.execute w = m.atGlyph x :=
  execute_of_names hrun hw (if_pos m.fits_zero)

/-- The sprites of a machine that points to a glyph begin where the glyph does. -/
theorem base_atGlyph (m : Machine) (x : Nibble) :
    (m.atGlyph x).base = 0x50 + 5 * (m.reg x).toNat := by
  have hx := (m.reg x).toNat_lt
  have hindex : (m.atGlyph x).index.toNat = 0x50 + 5 * (m.reg x).toNat := Font.toNat_address _
  rw [base_of_lt (by omega), hindex]

/-- The glyph of any byte ends inside of memory, so drawing it does not fault. -/
theorem fits_atGlyph (m : Machine) (x : Nibble) :
    (m.atGlyph x).base + (5 : Nibble) ≤ 4096 := by
  have hx := (m.reg x).toNat_lt
  rw [base_atGlyph]
  show 0x50 + 5 * (m.reg x).toNat + 5 ≤ 4096
  omega

/-- The sprite that `DYZ5` reads behind `FX29` is the glyph. -/
theorem sprite_atGlyph (h : m.HoldsFont) (hx : (m.reg x).toNat ≤ 15) :
    (m.atGlyph x).sprite y z 5 = m.glyph (m.reg x).toNat y z := by
  have hrows := (Font.holdsBytes_glyph h hx).slice_eq
  rw [Font.length_glyph hx, ← m.base_atGlyph x] at hrows
  show Sprite.mask _ _ _ ((m.atGlyph x).memory.slice (m.atGlyph x).base 5) = m.glyph _ y z
  exact congrArg _ hrows

/-- The bits that light a pixel behind `FX29` are those of the font. -/
theorem lights_atGlyph_iff (h : m.HoldsFont) (hx : (m.reg x).toNat ≤ 15) :
    (m.atGlyph x).Lights y z 5 px py ↔ m.LightsGlyph (m.reg x).toNat y z px py := by
  have hbyte : ∀ r < 5, (m.atGlyph x).memory[(m.atGlyph x).base + r]? =
      Font.bytes[5 * (m.reg x).toNat + r]? := by
    intro r hr
    have hlt : 5 * (m.reg x).toNat + r < Font.bytes.length := by
      show _ < 80
      omega
    rw [base_atGlyph, List.getElem?_eq_getElem hlt, Nat.add_assoc]
    exact h _ hlt
  refine exists_congr fun r => and_congr_right fun hr => ?_
  rw [hbyte r hr]
  rfl

/-- `FX29` and then `DYZ5` combine the screen with the glyph. -/
theorem execute_glyph_draw (hrun : m.faulted = false) (h : m.HoldsFont)
    (hw : Instruction.Names w (.glyph x)) (hw' : Instruction.Names w' (.draw y z 5))
    (hx : (m.reg x).toNat ≤ 15) :
    (m.execute w).execute w' =
      { m.atGlyph x with screen := m.screen.xor (m.glyph (m.reg x).toNat y z) }.setFlag
        (m.screen.meets (m.glyph (m.reg x).toNat y z)) := by
  rw [execute_glyph hrun hw, execute_draw (m := m.atGlyph x) hrun hw' (m.fits_atGlyph x),
    sprite_atGlyph h hx]
  rfl

/-- The pixels that a digit lights are those of its glyph in the font. -/
theorem pixel_glyph (h : m.HoldsFont) (hx : (m.reg x).toNat ≤ 15) (px : Fin screenWidth)
    (py : Fin screenHeight) :
    (m.glyph (m.reg x).toNat y z).pixel px py =
      decide (m.LightsGlyph (m.reg x).toNat y z px py) := by
  rw [← sprite_atGlyph h hx, pixel_sprite, Bool.eq_iff_iff, decide_eq_true_iff,
    scatter_eq_true_iff_lights (m.fits_atGlyph x), lights_atGlyph_iff h hx]

/-- Load an image into a machine at power-on, with any random source and in any dialect, and let a host
give any commands. If no instruction that a step, a run or a frame of them completes, or that the host
hands over, stores to a byte from `0x50` to `0x9F`, the font stands there at the end. On any running
machine on which the font stands there, `FX29` and `DYZ5` are carried out whenever `VX` is a digit: the
index then points at the glyph, the screen is combined by exclusive or with the five rows of the font
that belong to the digit, cut off or continued at the edges as the dialect has it, the flag is one
exactly if a pixel was on in both, and nothing else changes. -/
theorem font_stays_and_shows :
    (∀ key dialect image r, (powerOn key dialect).load image = .ok r →
      ∀ cs : List Command, r.SparesFont (cs.flatMap Command.unrolled) →
        (r.afterAll cs).memory.HoldsBytes 0x50 Font.bytes) ∧
    (∀ m : Machine, m.faulted = false → m.memory.HoldsBytes 0x50 Font.bytes →
      ∀ w w' (x y z : Nibble), Instruction.Names w (.glyph x) → Instruction.Names w' (.draw y z 5) →
        (m.reg x).toNat ≤ 15 →
        ((m.execute w).execute w').faulted = false ∧
        (∀ px py, ((m.execute w).execute w').screen.pixel px py =
          (m.screen.pixel px py ^^ decide (m.LightsGlyph (m.reg x).toNat y z px py))) ∧
        (m.execute w).execute w' =
          { m with
            index := Font.address (m.reg x)
            screen := m.screen.xor (m.glyph (m.reg x).toNat y z) }.setFlag
              (m.screen.meets (m.glyph (m.reg x).toNat y z))) := by
  refine ⟨fun key dialect image r hload cs hspares => ?_,
    fun m hrun h w w' x y z hw hw' hx => ?_⟩
  · have hloaded : r.HoldsFont := by
      have hafter : (powerOn key dialect).after (.load image) = r := by
        simp only [after, perform, hload, Except.mapError]
      rw [← hafter]
      exact (holdsFont_powerOn key dialect).after rfl (not_hitsFont_of_none rfl)
    rw [← r.afterAll_flatMap_unrolled]
    exact hloaded.afterAll (Command.isRun_flatMap_unrolled cs) hspares
  · have hboth := execute_glyph_draw hrun h hw hw' hx
    refine ⟨?_, fun px py => ?_, hboth⟩
    · rw [hboth]
      exact hrun
    · rw [hboth, ← pixel_glyph h hx]
      exact Screen.pixel_xor _ _ px py

/-- A program that stores eleven right behind the font. -/
def scribble : List UInt8 := [0x60, 0x0B, 0xA0, 0xA0, 0xF0, 0x55]

/-- A machine with the program loaded. -/
def scribbling : Machine :=
  { powerOn ⟨0, 0⟩ .classic with
    memory := (powerOn ⟨0, 0⟩ .classic).memory.write programStart scribble }

/-- A frame of the program, and a key. -/
def interlude : List Command := [.runFrame 3, .setKey 3 true]

/-- The byte behind the font changes, and the font does not. After that `V0` holds eleven, and `F029` and
`D125` draw its glyph in the corner of the blank screen: the top row is three pixels long. -/
theorem font_stays_and_shows_scribbling :
    (powerOn ⟨0, 0⟩ .classic).load scribble = .ok scribbling ∧
      scribbling.SparesFont (interlude.flatMap Command.unrolled) ∧
      (scribbling.afterAll interlude).memory[0xA0] = 11 ∧
      (scribbling.afterAll interlude).memory.HoldsBytes 0x50 Font.bytes ∧
      (((scribbling.afterAll interlude).execute 0xF029).execute 0xD125).faulted = false ∧
      (((scribbling.afterAll interlude).execute 0xF029).execute 0xD125).screen.pixel 2 0 = true ∧
      (((scribbling.afterAll interlude).execute 0xF029).execute 0xD125).screen.pixel 3 0 = false := by
  have hload : (powerOn ⟨0, 0⟩ .classic).load scribble = .ok scribbling := rfl
  have hwords : scribbling.word? .step = some 0x600B ∧
      (scribbling.after .step).word? .step = some 0xA0A0 ∧
      ((scribbling.after .step).after .step).word? .step = some 0xF055 ∧
      ((scribbling.after .step).after .step).base = 0xA0 := by decide +kernel
  have hend : ((scribbling.afterAll interlude).faulted = false ∧
      ((scribbling.afterAll interlude).reg 0).toNat = 11 ∧
      (scribbling.afterAll interlude).screen = .blank ∧
      (scribbling.afterAll interlude).memory[0xA0] = 11) ∧
      (scribbling.afterAll interlude).LightsGlyph 11 1 2 2 0 ∧
      ¬ (scribbling.afterAll interlude).LightsGlyph 11 1 2 3 0 := by decide +kernel
  obtain ⟨hset, hindex, hstore, hbehind⟩ := hwords
  obtain ⟨⟨hrun, hdigit, hblank, hchanged⟩, hon, hoff⟩ := hend
  have hspares : scribbling.SparesFont (interlude.flatMap Command.unrolled) := by
    have hsingle : interlude.flatMap Command.unrolled =
        [.step, .step, .step, .tick, .setKey 3 true] := rfl
    rw [hsingle]
    refine ⟨not_hitsFont_of_word? hset (.inl rfl), not_hitsFont_of_word? hindex (.inl rfl),
      not_hitsFont_of_word? hstore (.inr (.inl ?_)), not_hitsFont_of_none rfl,
      not_hitsFont_of_none rfl, trivial⟩
    rw [hbehind]
    decide
  obtain ⟨hstays, hshows⟩ := font_stays_and_shows
  have hfont := hstays _ _ _ _ hload _ hspares
  obtain ⟨hdone, hpixel, -⟩ := hshows _ hrun hfont 0xF029 0xD125 0 1 2 ⟨⟨rfl, rfl⟩, rfl⟩
    ⟨⟨⟨rfl, rfl⟩, rfl⟩, rfl⟩ (by omega)
  rw [hdigit, hblank] at hpixel
  refine ⟨hload, hspares, hchanged, hfont, hdone, ?_, ?_⟩
  · rw [hpixel, decide_eq_true hon]
    rfl
  · rw [hpixel, decide_eq_false hoff]
    rfl

end Machine

end Chip8
