import Chip8.Proofs.Screens
import Chip8.Proofs.WriteSets

/-!
# What a sprite draws

A sprite has a cell for each bit of its bytes, and each cell falls on a pixel of the screen.
`Machine.Lights` says, in the words of the instruction table, which pixels the sprite of an
instruction lights: those that a set bit of memory falls on.

An interpreter may draw cell by cell. It then writes all cells of the widest sprite to a blank
table, one after another, lit or not: rows beyond the height, clamped at the end of memory, and
cells beyond an edge, which land at the opposite one, are written as off. `Sprite.scatter` is that
table. No two cells land on one pixel (`place_eq_iff`), so no cell that is off erases one that is
on, and the table is the sprite (`pixel_mask_slice`).

`execute_draw_pixels` is the top: what `DXYN` does to every pixel, to the flag and to the rest.
-/

set_option autoImplicit false

namespace Chip8

namespace Sprite

/-- The cells of the widest sprite, each with its row and its column. -/
abbrev Cell : Type := Fin 15 × Fin 8

/-- All cells, row by row. -/
def cells : List Cell := (List.finRange 15).product (List.finRange 8)

/-- The pixel that a cell lands on when the corner stands in column `x` and row `y`. -/
def place (x y : Nat) (cell : Cell) : Fin screenWidth × Fin screenHeight :=
  (⟨(x + cell.2) % screenWidth, Nat.mod_lt _ (by decide)⟩,
    ⟨(y + cell.1) % screenHeight, Nat.mod_lt _ (by decide)⟩)

/-- Whether a cell is on, in a sprite of `n` rows: its bit is set, and on a clipping screen it lies
inside of the right and the bottom edge. -/
def inks (clip : Bool) (x y n : Nat) (byte : Nat → UInt8) (cell : Cell) : Bool :=
  decide (cell.1 < n) && (byte cell.1).toNat.testBit (7 - cell.2) &&
    (!clip || decide (x + cell.2 < screenWidth ∧ y + cell.1 < screenHeight))

/-- The table of pixels after all cells are written to it one by one. -/
def scatter (clip : Bool) (x y n : Nat) (byte : Nat → UInt8) :
    Fin screenWidth × Fin screenHeight → Bool :=
  cells.foldl
    (fun pixels cell => Function.update pixels (place x y cell) (inks clip x y n byte cell))
    fun _ => false

/-! ## Writing one by one -/

section Writes

variable {κ ι : Type} [DecidableEq ι] {f : κ → ι} {g : κ → Bool} {ks : List κ}

/-- Updates elsewhere leave an entry alone. -/
theorem foldl_update_of_forall_ne {i : ι} (h : ∀ k ∈ ks, f k ≠ i) (t : ι → Bool) :
    ks.foldl (fun t k => Function.update t (f k) (g k)) t i = t i := by
  induction ks generalizing t with
  | nil => rfl
  | cons k ks ih =>
    have hne : i ≠ f k := (h k List.mem_cons_self).symm
    rw [List.foldl_cons, ih fun l hl => h l (List.mem_cons_of_mem k hl),
      Function.update_of_ne hne]

/-- Updates at distinct places leave each entry with its own value. -/
theorem foldl_update_of_mem (hf : Function.Injective f) {k : κ} (hk : k ∈ ks)
    (t : ι → Bool) : ks.foldl (fun t k => Function.update t (f k) (g k)) t (f k) = g k := by
  induction ks generalizing t with
  | nil => cases hk
  | cons l ks ih =>
    rw [List.foldl_cons]
    by_cases hlater : k ∈ ks
    · exact ih hlater _
    · -- nothing is written to the place of `k` after `k` itself
      obtain rfl : k = l := (List.mem_cons.mp hk).resolve_right hlater
      have hother : ∀ l ∈ ks, f l ≠ f k := fun l hl heq => hlater (hf heq ▸ hl)
      rw [foldl_update_of_forall_ne hother, Function.update_self]

end Writes

/-! ## Where the cells land -/

variable {x y n : Nat} {clip : Bool} {byte : Nat → UInt8}

/-- A cell lands on the pixel from which counting back to the corner leads to the cell. -/
theorem place_eq_iff (hx : x < 64) (hy : y < 32) (cell : Cell) {px : Fin screenWidth}
    {py : Fin screenHeight} :
    place x y cell = (px, py) ↔
      cell.2.val = (px + 64 - x) % 64 ∧ cell.1.val = (py + 32 - y) % 32 := by
  obtain ⟨⟨r, hr⟩, ⟨c, hc⟩⟩ := cell
  have hpx : px.val < 64 := px.isLt
  have hpy : py.val < 32 := py.isLt
  simp only [place, Prod.mk.injEq, Fin.ext_iff, screenWidth, screenHeight]
  omega

/-- A cell falls on a pixel, and inside of the edges of a clipping screen, exactly if the pixel is
its own distance from the corner, counted on around the edges unless the screen clips. -/
theorem falls_iff (cell : Cell) {px : Fin screenWidth} {py : Fin screenHeight} :
    place x y cell = (px, py) ∧ (clip = true → x + cell.2 < 64 ∧ y + cell.1 < 32) ↔
      if clip = true then px.val = x + cell.2 ∧ py.val = y + cell.1
      else px.val = (x + cell.2) % 64 ∧ py.val = (y + cell.1) % 32 := by
  have hpx : px.val < 64 := px.isLt
  have hpy : py.val < 32 := py.isLt
  simp only [place, Prod.mk.injEq, Fin.ext_iff, screenWidth, screenHeight]
  cases clip
  case false =>
    simp only [Bool.false_eq_true, false_implies, and_true, if_false, eq_comm]
  case true =>
    simp only [true_implies, if_true]
    omega

/-- A cell is lit that lies within the height, has its bit set and, with clipping, does not leave
the screen. -/
theorem inks_eq_true_iff {cell : Cell} :
    inks clip x y n byte cell = true ↔ cell.1.val < n ∧
      (byte cell.1).toNat.testBit (7 - cell.2) = true ∧
        (clip = true → x + cell.2 < 64 ∧ y + cell.1 < 32) := by
  cases clip
  all_goals simp [inks, and_assoc]

/-- No two cells land on the same pixel: a sprite is no larger than the screen. -/
theorem place_injective (hx : x < 64) (hy : y < 32) : Function.Injective (place x y) := by
  intro a b hab
  obtain ⟨ha, ha'⟩ := (place_eq_iff hx hy a).mp hab
  obtain ⟨hb, hb'⟩ := (place_eq_iff hx hy b).mp rfl
  exact Prod.ext (Fin.ext (ha'.trans hb'.symm)) (Fin.ext (ha.trans hb.symm))

/-- Every cell is written. -/
theorem mem_cells (cell : Cell) : cell ∈ cells :=
  List.mem_product.mpr ⟨List.mem_finRange _, List.mem_finRange _⟩

/-- The pixel under a cell is what the cell has written. -/
theorem scatter_place (hx : x < 64) (hy : y < 32) (cell : Cell) :
    scatter clip x y n byte (place x y cell) = inks clip x y n byte cell :=
  foldl_update_of_mem (place_injective hx hy) (mem_cells cell) _

/-- A pixel is lit exactly if a cell that is on lands there. -/
theorem scatter_eq_true_iff (hx : x < 64) (hy : y < 32) {p : Fin screenWidth × Fin screenHeight} :
    scatter clip x y n byte p = true ↔
      ∃ cell, place x y cell = p ∧ inks clip x y n byte cell = true := by
  by_cases hp : ∃ cell, place x y cell = p
  · obtain ⟨cell, rfl⟩ := hp
    rw [scatter_place hx hy]
    constructor
    · exact fun hcell => ⟨cell, rfl, hcell⟩
    · rintro ⟨other, hother, hon⟩
      rwa [← place_injective hx hy hother]
  · have hoff : scatter clip x y n byte p = false :=
      foldl_update_of_forall_ne (fun cell _ hcell => hp ⟨cell, hcell⟩) _
    rw [hoff]
    constructor
    · nofun
    · rintro ⟨cell, hcell, -⟩
      exact absurd ⟨cell, hcell⟩ hp

/-- A cell that lands inside of both edges lands right of and below the corner, and conversely. -/
theorem inside_iff (hx : x < 64) (hy : y < 32) (px : Fin screenWidth) (py : Fin screenHeight)
    (hcolumn : (px + 64 - x) % 64 < 8) (hrow : (py + 32 - y) % 32 < 15) :
    x + (px + 64 - x) % 64 < 64 ∧ y + (py + 32 - y) % 32 < 32 ↔ x ≤ px ∧ y ≤ py := by
  have hpx : px.val < 64 := px.isLt
  have hpy : py.val < 32 := py.isLt
  omega

/-- The table in closed form, to compare it with `pixel_mask`. -/
theorem scatter_apply (hx : x < 64) (hy : y < 32) (hn : n ≤ 15) (px : Fin screenWidth)
    (py : Fin screenHeight) :
    scatter clip x y n byte (px, py) =
      ((!clip || decide (x ≤ px ∧ y ≤ py)) && (decide ((py + 32 - y) % 32 < n) &&
        (byte ((py + 32 - y) % 32)).toBitVec.getMsbD ((px + 64 - x) % 64))) := by
  by_cases hcell : (px + 64 - x) % 64 < 8 ∧ (py + 32 - y) % 32 < 15
  · obtain ⟨hcolumn, hrow⟩ := hcell
    have hplace : place x y (⟨_, hrow⟩, ⟨_, hcolumn⟩) = (px, py) :=
      (place_eq_iff hx hy _).mpr ⟨rfl, rfl⟩
    rw [← hplace, scatter_place hx hy]
    simp only [inks, inside_iff hx hy px py hcolumn hrow, getMsbD_toBitVec, hcolumn, decide_true,
      Bool.true_and]
    exact Bool.and_comm _ _
  · -- no cell lands here, and the byte or the bit is beyond the sprite
    have hoff : scatter clip x y n byte (px, py) = false := by
      rw [← Bool.not_eq_true, scatter_eq_true_iff hx hy]
      rintro ⟨cell, hplace, -⟩
      obtain ⟨hcolumn, hrow⟩ := (place_eq_iff hx hy cell).mp hplace
      exact hcell ⟨hcolumn ▸ cell.2.isLt, hrow ▸ cell.1.isLt⟩
    rw [hoff, getMsbD_toBitVec]
    by_cases hcolumn : (px + 64 - x) % 64 < 8
    · have hrow : ¬ (py + 32 - y) % 32 < n := fun hlt => hcell ⟨hcolumn, by omega⟩
      simp [hrow]
    · simp [hcolumn]

/-- The sprite is what writing all its cells one by one leaves. -/
theorem pixel_mask_slice (hx : x < 64) (hy : y < 32) (hn : n ≤ 15) (m : Memory) (base : Nat)
    (px : Fin screenWidth) (py : Fin screenHeight) :
    (mask clip x y (m.slice base n)).pixel px py =
      scatter clip x y n (fun r => m.read (base + r)) (px, py) := by
  rw [pixel_mask clip hx, scatter_apply hx hy hn, Memory.getElem?_slice]
  split
  · simp [*]
  · simp [*]

/-- The sprite of `n` rows from an index, its corner in the column and the row that two bytes
stand for. -/
def fromMemory (clip : Bool) (m : Memory) (vx vy : UInt8) (index : UInt16) (n : Nibble) : Screen :=
  mask clip (vx.toNat % 64) (vy.toNat % 32) (m.slice (index.toNat % 4096) n)

end Sprite

namespace Machine

variable {m : Machine} {w : Word} {x y n : Nibble}

/-- The sprite of `DXYN` lights a pixel: there are a row and a column of it whose bit is set in
memory and which fall on the pixel, counted on around the edges, or up to them on a clipping
screen. -/
def Lights (m : Machine) (x y n : Nibble) (px : Fin screenWidth) (py : Fin screenHeight) : Prop :=
  ∃ r < n.val, ∃ c < 8, (m.memory[m.base + r]?.any fun b => b.toNat.testBit (7 - c)) = true ∧
    if m.dialect.clipSprites then
      px.val = (m.reg x).toNat % 64 + c ∧ py.val = (m.reg y).toNat % 32 + r
    else
      px.val = ((m.reg x).toNat % 64 + c) % 64 ∧ py.val = ((m.reg y).toNat % 32 + r) % 32

instance (m : Machine) (x y n : Nibble) (px : Fin screenWidth) (py : Fin screenHeight) :
    Decidable (m.Lights x y n px py) :=
  inferInstanceAs (Decidable (∃ r < n.val, ∃ c < 8, _ ∧ ite _ _ _))

/-- The corner of a sprite is a column of the screen. -/
theorem column_lt (m : Machine) (x : Nibble) : (m.reg x).toNat % 64 < 64 :=
  Nat.mod_lt _ (Nat.zero_lt_succ 63)

/-- The corner of a sprite is a row of the screen. -/
theorem row_lt (m : Machine) (y : Nibble) : (m.reg y).toNat % 32 < 32 :=
  Nat.mod_lt _ (Nat.zero_lt_succ 31)

/-- The table of pixels that the cells of a sprite leave, whether or not it fits into memory. -/
def scatter (m : Machine) (x y n : Nibble) : Fin screenWidth × Fin screenHeight → Bool :=
  Sprite.scatter m.dialect.clipSprites ((m.reg x).toNat % screenWidth)
    ((m.reg y).toNat % screenHeight) n fun r => m.memory.read (m.base + r)

/-- The cells that leave a pixel on are those whose bits light it. -/
theorem scatter_eq_true_iff_lights (hfits : m.base + n ≤ 4096) {px : Fin screenWidth}
    {py : Fin screenHeight} :
    m.scatter x y n (px, py) = true ↔ m.Lights x y n px py := by
  have hbit : ∀ r < n.val, ∀ c, (m.memory[m.base + r]?.any fun b => b.toNat.testBit (7 - c)) =
      (m.memory.read (m.base + r)).toNat.testBit (7 - c) := by
    intro r hr c
    rw [Memory.read_eq_some _ (by omega), Option.any_some]
  rw [scatter, Sprite.scatter_eq_true_iff (m.column_lt x) (m.row_lt y)]
  constructor
  · rintro ⟨cell, hplace, hon⟩
    obtain ⟨hrow, hset, hinside⟩ := Sprite.inks_eq_true_iff.mp hon
    exact ⟨cell.1, hrow, cell.2, cell.2.isLt, (hbit _ hrow _).trans hset,
      (Sprite.falls_iff cell).mp ⟨hplace, hinside⟩⟩
  · rintro ⟨r, hr, c, hc, hset, hfalls⟩
    have hheight := n.isLt
    have hrow : r < 15 := by omega
    obtain ⟨hplace, hinside⟩ := (Sprite.falls_iff (⟨r, hrow⟩, ⟨c, hc⟩)).mpr hfalls
    exact ⟨_, hplace, Sprite.inks_eq_true_iff.mpr ⟨hr, (hbit r hr c).symm.trans hset, hinside⟩⟩

/-- The sprite of `DXYN`, alone on the screen. -/
def sprite (m : Machine) (x y n : Nibble) : Screen :=
  Sprite.fromMemory m.dialect.clipSprites m.memory (m.reg x) (m.reg y) m.index n

/-- The mask of a sprite covers the pixels that its cells are written to. -/
theorem pixel_sprite (m : Machine) (x y n : Nibble) (px : Fin screenWidth)
    (py : Fin screenHeight) : (m.sprite x y n).pixel px py = m.scatter x y n (px, py) :=
  Sprite.pixel_mask_slice (m.column_lt x) (m.row_lt y) (Nat.le_of_lt_succ n.isLt) m.memory m.base
    px py

/-- `DXYN` flips the pixels of its sprite, reports in `VF` whether one of them was lit, and does
nothing else. -/
theorem execute_draw (hrun : m.faulted = false) (hw : Instruction.Names w (.draw x y n))
    (hfits : m.base + n ≤ 4096) :
    m.execute w = { m with screen := m.screen.xor (m.sprite x y n) }.setFlag
      (m.screen.meets (m.sprite x y n)) := by
  apply execute_of_names hrun hw
  have h : Memory.fits m.base n = true := decide_eq_true hfits
  simp [Instruction.fault?, Instruction.span, h]

/-- A pixel is flipped if the sprite covers it. -/
theorem pixel_execute_draw (hrun : m.faulted = false) (hw : Instruction.Names w (.draw x y n))
    (hfits : m.base + n ≤ 4096) (px : Fin screenWidth) (py : Fin screenHeight) :
    (m.execute w).screen.pixel px py = (m.screen.pixel px py ^^ (m.sprite x y n).pixel px py) := by
  rw [execute_draw hrun hw hfits]
  exact Screen.pixel_xor _ _ px py

/-- The flag is one exactly when the sprite met something on the screen. -/
theorem reg_execute_draw (hrun : m.faulted = false) (hw : Instruction.Names w (.draw x y n))
    (hfits : m.base + n ≤ 4096) :
    (m.execute w).reg flagRegister = if m.screen.meets (m.sprite x y n) then 1 else 0 := by
  rw [execute_draw hrun hw hfits, reg_setFlag]

/-- Let `DXYN` be executed with its sprite inside of memory. Every pixel is combined by exclusive or
with the sprite, whose corner is read from `VX` and `VY` before the flag is written to `VF`; writing
the cells of the widest sprite one by one, the bytes beyond `N` rows clamped at the end of memory,
leaves the same sprite. The flag is one exactly if a pixel was on and is off now, and nothing but
the screen and `VF` changes. -/
theorem execute_draw_pixels (hrun : m.faulted = false) (hw : Instruction.Names w (.draw x y n))
    (hfits : m.base + n ≤ 4096) :
    (∀ px py, (m.execute w).screen.pixel px py =
      (m.screen.pixel px py ^^ decide (m.Lights x y n px py))) ∧
    (∀ px py, m.scatter x y n (px, py) = decide (m.Lights x y n px py)) ∧
    ((m.execute w).reg flagRegister =
      if ∃ px py, m.screen.pixel px py = true ∧ (m.execute w).screen.pixel px py = false then 1
      else 0) ∧
    m.execute w = { m with screen := (m.execute w).screen }.setReg flagRegister
      ((m.execute w).reg flagRegister) := by
  have hscatter : ∀ px py, m.scatter x y n (px, py) = decide (m.Lights x y n px py) := by
    intro px py
    rw [Bool.eq_iff_iff, scatter_eq_true_iff_lights hfits, decide_eq_true_iff]
  refine ⟨fun px py => ?_, hscatter, ?_, ?_⟩
  · rw [pixel_execute_draw hrun hw hfits, pixel_sprite, hscatter]
  · rw [reg_execute_draw hrun hw hfits, execute_draw hrun hw hfits]
    exact if_congr Screen.meets_iff_turned_off rfl rfl
  · rw [reg_execute_draw hrun hw hfits, execute_draw hrun hw hfits]
    rfl

/-- A machine whose sprite starts in the bottom right corner, at a column that it reads from `VF`.
The index is above memory, and the leftmost pixel of the bottom row is on. -/
def cornered : Machine :=
  { bare [0xC0, 0x80] with
    index := 0x1200
    v := Vector.replicate 16 63
    screen := Sprite.mask false 0 31 [0x80] }.setReg flagRegister 127

/-- `DF12` goes around both edges: it turns the leftmost pixel of the bottom row off, for which the
flag is set, and the rightmost one of the top row on. -/
theorem execute_draw_pixels_cornered :
    cornered.faulted = false ∧ Instruction.Names 0xDF12 (.draw 15 1 2) ∧
      cornered.base + 2 ≤ 4096 ∧
      (cornered.Lights 15 1 2 0 31 ∧ (cornered.execute 0xDF12).screen.pixel 0 31 = false) ∧
      (cornered.Lights 15 1 2 63 0 ∧ (cornered.execute 0xDF12).screen.pixel 63 0 = true) ∧
      (¬ cornered.Lights 15 1 2 0 0 ∧ cornered.scatter 15 1 2 (0, 0) = false) ∧
      (cornered.execute 0xDF12).reg flagRegister = 1 ∧
      cornered.execute 0xDF12 =
        { cornered with screen := (cornered.execute 0xDF12).screen }.setReg flagRegister 1 := by
  have hrun : cornered.faulted = false := rfl
  have hw : Instruction.Names 0xDF12 (.draw 15 1 2) := ⟨⟨⟨rfl, rfl⟩, rfl⟩, rfl⟩
  have hfits : cornered.base + 2 ≤ 4096 := by decide
  obtain ⟨hpixel, hscatter, hflag, hrest⟩ := execute_draw_pixels hrun hw hfits
  have hbottom : cornered.Lights 15 1 2 0 31 := by decide +kernel
  have htop : cornered.Lights 15 1 2 63 0 := by decide +kernel
  have hnext : ¬ cornered.Lights 15 1 2 0 0 := by decide +kernel
  have hon : cornered.screen.pixel 0 31 = true := by decide +kernel
  have hgone : (cornered.execute 0xDF12).screen.pixel 0 31 = false := by
    rw [hpixel, hon, decide_eq_true hbottom, Bool.xor_self]
  have hcame : (cornered.execute 0xDF12).screen.pixel 63 0 = true := by
    rw [hpixel, decide_eq_true htop]
    decide +kernel
  have hset : (cornered.execute 0xDF12).reg flagRegister = 1 := by
    rw [hflag, if_pos ⟨0, 31, hon, hgone⟩]
  rw [hset] at hrest
  exact ⟨hrun, hw, hfits, ⟨hbottom, hgone⟩, ⟨htop, hcame⟩,
    ⟨hnext, (hscatter 0 0).trans (decide_eq_false hnext)⟩, hset, hrest⟩

end Machine

end Chip8
