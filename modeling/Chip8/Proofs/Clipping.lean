import Chip8.Proofs.Dialects
import Chip8.Proofs.Sprites

/-!
# Clipped sprites

A clipping screen shows of a sprite what a wrapping one shows right of and below its corner, and
nothing else: what a wrapping screen brings back at the opposite edge lands left of the corner or
above it. `clipping_restricts_wrapping` says so of the whole instruction, with its flag.
-/

set_option autoImplicit false

namespace Chip8

namespace Sprite

variable {x y : Nat} {bytes : List UInt8} {px : Fin screenWidth} {py : Fin screenHeight}

/-- Right of and below the corner both screens show the same. -/
theorem pixel_mask_quadrant (hx : x < 64) (hpx : x ≤ px) (hpy : y ≤ py) :
    (mask true x y bytes).pixel px py = (mask false x y bytes).pixel px py := by
  rw [pixel_mask true hx, pixel_mask false hx]
  simp [hpx, hpy]

/-- Left of the corner and above it a clipping screen shows nothing. -/
theorem pixel_mask_outside (hx : x < 64) (hout : px < x ∨ py < y) :
    (mask true x y bytes).pixel px py = false := by
  rw [pixel_mask true hx]
  have hnot : ¬ (x ≤ px.val ∧ y ≤ py.val) := by omega
  simp [hnot]

/-- What a clipping screen shows, a wrapping one shows. -/
theorem pixel_mask_of_clipped (hx : x < 64) (h : (mask true x y bytes).pixel px py = true) :
    (mask false x y bytes).pixel px py = true := by
  by_cases hin : x ≤ px.val ∧ y ≤ py.val
  · rwa [← pixel_mask_quadrant hx hin.1 hin.2]
  · rw [pixel_mask_outside hx (by omega)] at h
    cases h

end Sprite

namespace Machine

/-- The machine with clipped sprites, or with wrapped ones. -/
def clipping (m : Machine) (clip : Bool) : Machine :=
  m.speaking { m.dialect with clipSprites := clip }

variable {m : Machine} {w : Word} {x y n : Nibble}

/-- The flag byte is one exactly when what it reports is true. -/
theorem ite_flag_eq_one_iff {on : Bool} : (if on then (1 : UInt8) else 0) = 1 ↔ on = true := by
  cases on
  all_goals simp

/-- Let `DXYN` be executed with its sprite inside of memory, once with clipped and once with wrapped
sprites. Right of and below the corner the screens agree pixel by pixel; left of it and above it the
clipping screen is as it was. If clipping sets the flag, so does wrapping. If all columns and rows
of the sprite lie on the screen, the two machines differ in the dialect only. -/
theorem clipping_restricts_wrapping (hrun : m.faulted = false)
    (hw : Instruction.Names w (.draw x y n)) (hfits : m.base + n ≤ 4096) :
    (∀ px py, (m.reg x).toNat % 64 ≤ px.val → (m.reg y).toNat % 32 ≤ py.val →
      ((m.clipping true).execute w).screen.pixel px py =
        ((m.clipping false).execute w).screen.pixel px py) ∧
    (∀ px py, px.val < (m.reg x).toNat % 64 ∨ py.val < (m.reg y).toNat % 32 →
      ((m.clipping true).execute w).screen.pixel px py = m.screen.pixel px py) ∧
    (((m.clipping true).execute w).reg flagRegister = 1 →
      ((m.clipping false).execute w).reg flagRegister = 1) ∧
    ((m.reg x).toNat % 64 + 8 ≤ 64 → (m.reg y).toNat % 32 + n ≤ 32 →
      (m.clipping true).execute w = ((m.clipping false).execute w).clipping true) := by
  have hx := m.column_lt x
  have hpixel : ∀ clip px py, ((m.clipping clip).execute w).screen.pixel px py =
      (m.screen.pixel px py ^^ ((m.clipping clip).sprite x y n).pixel px py) :=
    fun clip px py => pixel_execute_draw (m := m.clipping clip) hrun hw hfits px py
  have hflag : ∀ clip, ((m.clipping clip).execute w).reg flagRegister = 1 ↔
      ∃ px py, m.screen.pixel px py = true ∧
        ((m.clipping clip).sprite x y n).pixel px py = true := by
    intro clip
    rw [reg_execute_draw (m := m.clipping clip) hrun hw hfits, ite_flag_eq_one_iff]
    exact Screen.meets_iff
  refine ⟨fun px py hpx hpy => ?_, fun px py hout => ?_, fun h => ?_, fun hcolumns hrows => ?_⟩
  · rw [hpixel, hpixel]
    exact congrArg _ (Sprite.pixel_mask_quadrant hx hpx hpy)
  · rw [hpixel, show ((m.clipping true).sprite x y n).pixel px py = false from
      Sprite.pixel_mask_outside hx hout, Bool.xor_false]
  · obtain ⟨px, py, hon, hsprite⟩ := (hflag true).mp h
    exact (hflag false).mpr ⟨px, py, hon, Sprite.pixel_mask_of_clipped hx hsprite⟩
  · have hsame : (m.clipping true).sprite x y n = (m.clipping false).sprite x y n :=
      Sprite.mask_of_onScreen hcolumns (by rwa [Memory.length_slice])
    rw [execute_draw (m := m.clipping true) hrun hw hfits,
      execute_draw (m := m.clipping false) hrun hw hfits, hsame]
    rfl

/-- The machine in front of the corner, with the corner's pixel on and no other. -/
def cornerLit : Machine := { cornered with screen := Sprite.mask false 63 31 [0x80] }

/-- The same machine with all registers twenty, which puts the sprite on the screen. -/
def centred : Machine := { cornerLit with v := Vector.replicate 16 20 }

/-- In the corner both ways turn its pixel off and set the flag, and only wrapping turns on what
follows in its row; away from the edges they are the same. -/
theorem clipping_restricts_wrapping_corner :
    cornerLit.faulted = false ∧ Instruction.Names 0xDF12 (.draw 15 1 2) ∧
      cornerLit.base + 2 ≤ 4096 ∧
      ((cornerLit.clipping true).execute 0xDF12).screen.pixel 63 31 =
        ((cornerLit.clipping false).execute 0xDF12).screen.pixel 63 31 ∧
      ((cornerLit.clipping true).execute 0xDF12).screen.pixel 0 31 = false ∧
      ((cornerLit.clipping false).execute 0xDF12).screen.pixel 0 31 = true ∧
      ((cornerLit.clipping true).execute 0xDF12).reg flagRegister = 1 ∧
      ((cornerLit.clipping false).execute 0xDF12).reg flagRegister = 1 ∧
      centred.faulted = false ∧ centred.base + 2 ≤ 4096 ∧
      (centred.clipping true).execute 0xDF12 =
        ((centred.clipping false).execute 0xDF12).clipping true := by
  have hrun : cornerLit.faulted = false := rfl
  have hrun' : centred.faulted = false := rfl
  have hw : Instruction.Names 0xDF12 (.draw 15 1 2) := ⟨⟨⟨rfl, rfl⟩, rfl⟩, rfl⟩
  have hfits : cornerLit.base + 2 ≤ 4096 := by decide
  have hfits' : centred.base + 2 ≤ 4096 := by decide
  have hcorner : (cornerLit.reg 15).toNat % 64 = 63 ∧ (cornerLit.reg 1).toNat % 32 = 31 := by decide
  have hcentre : (centred.reg 15).toNat % 64 = 20 ∧ (centred.reg 1).toNat % 32 = 20 := by decide
  obtain ⟨hinside, houtside, hflag, -⟩ := clipping_restricts_wrapping hrun hw hfits
  obtain ⟨-, -, -, hsame⟩ := clipping_restricts_wrapping hrun' hw hfits'
  have hclipped : ((cornerLit.clipping true).execute 0xDF12).reg flagRegister = 1 := by
    decide +kernel
  have hoff : cornerLit.screen.pixel 0 31 = false := by decide +kernel
  refine ⟨hrun, hw, hfits, hinside 63 31 ?_ ?_, (houtside 0 31 ?_).trans hoff, by decide +kernel,
    hclipped, hflag hclipped, hrun', hfits', hsame ?_ ?_⟩
  · rw [hcorner.1]
    exact Nat.le_refl 63
  · rw [hcorner.2]
    exact Nat.le_refl 31
  · rw [hcorner.1]
    exact .inl (Nat.zero_lt_succ 62)
  · rw [hcentre.1]
    decide
  · rw [hcentre.2]
    decide

end Machine

end Chip8
