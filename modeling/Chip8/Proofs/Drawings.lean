import Chip8.Proofs.Sprites

/-!
# Drawings made of sprites

A drawing command points the index at a sprite and draws it. As long as the corner is not read from
`VF`, which every sprite overwrites, a command leaves alone all that later commands take their
sprites from (`sameSprites_sketch`). So a list of commands combines the screen with sprites that can
be read off the machine at the start (`sketchAll_screen`), and what is known of exclusive or is
known of drawings: `drawings_act_by_xor` is the top. The order makes no difference, and a sprite
drawn twice is gone.
-/

set_option autoImplicit false

namespace Chip8

/-- A command that draws `n` rows from `index`, with the corner in `Vx` and `Vy`. The rows lie inside
of memory, and neither register is the flag register. -/
structure Drawing where
  index : UInt16
  x : Nibble
  y : Nibble
  n : Nibble
  x_ne : x ≠ flagRegister
  y_ne : y ≠ flagRegister
  fits : index.toNat % 4096 + n ≤ 4096

namespace Drawing

/-- The word `DXYN` of a command. -/
def word (c : Drawing) : Word := UInt16.ofNat (0xD000 + 0x100 * c.x + 0x10 * c.y + c.n)

/-- The word of a drawing command is `DXYN` with its own digits. -/
theorem names_word (c : Drawing) : Instruction.Names c.word (.draw c.x c.y c.n) := by
  have hx := c.x.isLt
  have hy := c.y.isLt
  have hn := c.n.isLt
  have hword : c.word.toNat = 0xD000 + 0x100 * c.x + 0x10 * c.y + c.n := by
    rw [word, UInt16.toNat_ofNat']
    omega
  refine ⟨⟨⟨?_, ?_⟩, ?_⟩, ?_⟩
  all_goals omega

/-- The sprite of a command on a machine. -/
def spriteOn (c : Drawing) (m : Machine) : Screen :=
  Sprite.fromMemory m.dialect.clipSprites m.memory (m.reg c.x) (m.reg c.y) c.index c.n

end Drawing

namespace Machine

/-- Carries out a drawing command: sets the index and executes the word. -/
def sketch (m : Machine) (c : Drawing) : Machine := { m with index := c.index }.execute c.word

/-- Carries out drawing commands in their order. -/
def sketchAll (m : Machine) (cs : List Drawing) : Machine := cs.foldl sketch m

variable {m r : Machine}

/-- A drawing command sets the index, flips the pixels of its sprite and reports in `VF` whether one
of them was lit. -/
theorem sketch_eq (hrun : m.faulted = false) (c : Drawing) :
    m.sketch c =
      { m with index := c.index, screen := m.screen.xor (c.spriteOn m) }.setFlag
        (m.screen.meets (c.spriteOn m)) :=
  execute_draw (m := { m with index := c.index }) hrun c.names_word c.fits

/-- The two machines show the same sprite for every command, and both run or neither does. -/
structure SameSprites (m r : Machine) : Prop where
  faulted : r.faulted = m.faulted
  memory : r.memory = m.memory
  dialect : r.dialect = m.dialect
  registers : ∀ k, k ≠ flagRegister → r.reg k = m.reg k

/-- The sprite of a drawing command is read from the parts that two such machines share. -/
theorem SameSprites.spriteOn (h : m.SameSprites r) (c : Drawing) : c.spriteOn r = c.spriteOn m := by
  rw [Drawing.spriteOn, Drawing.spriteOn, h.memory, h.dialect, h.registers c.x c.x_ne,
    h.registers c.y c.y_ne]

/-- To show the same sprites carries over from one machine to the next. -/
theorem SameSprites.trans {t : Machine} (h : m.SameSprites r) (h' : r.SameSprites t) :
    m.SameSprites t where
  faulted := h'.faulted.trans h.faulted
  memory := h'.memory.trans h.memory
  dialect := h'.dialect.trans h.dialect
  registers := fun k hk => (h'.registers k hk).trans (h.registers k hk)

/-- Drawing leaves alone what sprites are read from: the flag is neither `VX` nor `VY` of any
command. -/
theorem sameSprites_sketch (hrun : m.faulted = false) (c : Drawing) :
    m.SameSprites (m.sketch c) := by
  rw [sketch_eq hrun]
  exact ⟨rfl, rfl, rfl, fun k hk => reg_setReg_of_ne _ hk _⟩

/-- A list of commands combines the screen with the sprites that the machine shows at the start. -/
theorem sketchAll_screen (hrun : m.faulted = false) (cs : List Drawing) :
    m.SameSprites (m.sketchAll cs) ∧
      (m.sketchAll cs).screen = (cs.map fun c => c.spriteOn m).foldl Screen.xor m.screen := by
  induction cs generalizing m with
  | nil => exact ⟨⟨rfl, rfl, rfl, fun _ _ => rfl⟩, rfl⟩
  | cons c cs ih =>
    have hstep := sameSprites_sketch hrun c
    obtain ⟨hrest, hscreen⟩ := ih (hstep.faulted.trans hrun)
    have hsprites : (cs.map fun d => d.spriteOn (m.sketch c)) = cs.map fun d => d.spriteOn m :=
      List.map_congr_left fun d _ => hstep.spriteOn d
    refine ⟨hstep.trans hrest, hscreen.trans ?_⟩
    rw [hsprites, sketch_eq hrun]
    rfl

/-- The second of two equal commands takes the first one back, and flags whether the first one had
turned a pixel on. -/
theorem sketch_twice (hrun : m.faulted = false) (c : Drawing) :
    ((m.sketch c).sketch c).screen = m.screen ∧
      ((m.sketch c).sketch c).reg flagRegister =
        if ∃ px py, (c.spriteOn m).pixel px py = true ∧ m.screen.pixel px py = false then 1
        else 0 := by
  have hstep := sameSprites_sketch hrun c
  have hscreen : (m.sketch c).screen = m.screen.xor (c.spriteOn m) := by
    rw [sketch_eq hrun]
    rfl
  rw [sketch_eq (hstep.faulted.trans hrun), hstep.spriteOn, hscreen]
  constructor
  · exact m.screen.xor_xor_self _
  · have hturned : (m.screen.xor (c.spriteOn m)).meets (c.spriteOn m) = true ↔
        ∃ px py, (c.spriteOn m).pixel px py = true ∧ m.screen.pixel px py = false := by
      rw [Screen.meets_iff]
      refine exists_congr fun px => exists_congr fun py => ?_
      rw [Screen.pixel_xor, and_comm]
      refine and_congr_right fun hmask => ?_
      simp [hmask]
    rw [reg_setFlag]
    exact if_congr hturned rfl rfl

/-- Let a running machine carry out a list of drawing commands. It keeps running, and its screen is
combined by exclusive or with the sprite of each, which is taken from memory, the dialect and the
registers as they were before the first. Hence a list in another order leads to the same screen.
When after all this any command is carried out twice in a row, the screen is as it was, and the
second time the flag is one exactly if a pixel of the sprite was off before the first. -/
theorem drawings_act_by_xor (hrun : m.faulted = false) (cs : List Drawing) :
    (m.sketchAll cs).faulted = false ∧
    (m.sketchAll cs).screen =
      (cs.map fun c => Sprite.fromMemory m.dialect.clipSprites m.memory (m.reg c.x) (m.reg c.y)
        c.index c.n).foldl Screen.xor m.screen ∧
    (∀ ds : List Drawing, ds.Perm cs → (m.sketchAll ds).screen = (m.sketchAll cs).screen) ∧
    (∀ c : Drawing,
      (m.sketchAll (cs ++ [c, c])).screen = (m.sketchAll cs).screen ∧
      (m.sketchAll (cs ++ [c, c])).reg flagRegister =
        if ∃ px py, (c.spriteOn m).pixel px py = true ∧
          (m.sketchAll cs).screen.pixel px py = false then 1 else 0) := by
  obtain ⟨hsame, hscreen⟩ := sketchAll_screen hrun cs
  have hrun' := hsame.faulted.trans hrun
  refine ⟨hrun', hscreen, fun ds hperm => ?_, fun c => ?_⟩
  · rw [hscreen, (sketchAll_screen hrun ds).2]
    exact (hperm.map _).foldl_eq m.screen
  · have htwice := sketch_twice hrun' c
    rw [hsame.spriteOn] at htwice
    rw [sketchAll, List.foldl_append]
    exact htwice

/-- The glyph of 0 in the top left corner, under an index above memory. -/
def zeroGlyph : Drawing where
  index := 0x1050
  x := 0
  y := 1
  n := 5
  x_ne := by decide
  y_ne := by decide
  fits := by decide

/-- The glyph of 1 at the same place. -/
def oneGlyph : Drawing := { zeroGlyph with index := 0x55, fits := by decide }

/-- A 0 and a 1 over each other look alike in either order; with another 0 drawn twice, of which
some pixels had been off, they look as they did, and the flag is set. -/
theorem drawings_act_by_xor_overlapping :
    (powerOn ⟨0, 0⟩ .classic).faulted = false ∧
      ((powerOn ⟨0, 0⟩ .classic).sketchAll [oneGlyph, zeroGlyph]).screen =
        ((powerOn ⟨0, 0⟩ .classic).sketchAll [zeroGlyph, oneGlyph]).screen ∧
      ((powerOn ⟨0, 0⟩ .classic).sketchAll
          [zeroGlyph, oneGlyph, zeroGlyph, zeroGlyph]).screen =
        ((powerOn ⟨0, 0⟩ .classic).sketchAll [zeroGlyph, oneGlyph]).screen ∧
      ((powerOn ⟨0, 0⟩ .classic).sketchAll
        [zeroGlyph, oneGlyph, zeroGlyph, zeroGlyph]).reg flagRegister = 1 := by
  have hrun : (powerOn ⟨0, 0⟩ .classic).faulted = false := rfl
  obtain ⟨-, -, hperm, htwice⟩ := drawings_act_by_xor hrun [zeroGlyph, oneGlyph]
  obtain ⟨hscreen, hflag⟩ := htwice zeroGlyph
  -- the pixel where both glyphs are on, so that it is off before
  have hoff : (zeroGlyph.spriteOn (powerOn ⟨0, 0⟩ .classic)).pixel 2 0 = true ∧
      ((powerOn ⟨0, 0⟩ .classic).sketchAll [zeroGlyph, oneGlyph]).screen.pixel 2 0 = false := by
    decide +kernel
  exact ⟨hrun, hperm _ (.swap _ _ []), hscreen, hflag.trans (if_pos ⟨2, 0, hoff⟩)⟩

end Machine

end Chip8
