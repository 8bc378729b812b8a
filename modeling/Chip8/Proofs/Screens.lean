import Chip8.Proofs.Words
import Chip8.Sprite

/-!
# Screens, pixel by pixel

A screen is determined by its pixels, and everything that is said elsewhere about screens is said
about these. Under exclusive or the screens are a commutative group in which every screen undoes
itself: `List.foldl` of it does not depend on the order, and `xor_xor_self` takes a screen back.

A sprite is placed on a screen by turning or shifting rows. `Sprite.pixel_mask` is the top of the
second half: it gives each pixel in closed form, by counting back from the pixel to the corner of
the sprite, in rows and in columns alike.
-/

set_option autoImplicit false

namespace Chip8

namespace Screen

variable {s t : Screen}

/-- Screens that agree on every pixel are the same. -/
theorem ext_pixel (h : ∀ x y, s.pixel x y = t.pixel x y) : s = t := by
  obtain ⟨rows⟩ := s
  obtain ⟨rows'⟩ := t
  congr 1
  apply Vector.ext
  intro y hy
  apply BitVec.eq_of_getMsbD_eq
  intro x hx
  exact h ⟨x, hx⟩ ⟨y, hy⟩

/-- Drawing flips the pixels that are lit in the sprite. -/
@[simp]
theorem pixel_xor (s t : Screen) (x : Fin screenWidth) (y : Fin screenHeight) :
    (s.xor t).pixel x y = (s.pixel x y ^^ t.pixel x y) := by
  simp [xor, pixel]

instance : Std.Commutative Screen.xor where
  comm s t := ext_pixel fun x y => by simp [Bool.xor_comm]

instance : Std.Associative Screen.xor where
  assoc s t u := ext_pixel fun x y => by simp

/-- Drawing twice takes back the drawing. -/
theorem xor_xor_self (s t : Screen) : (s.xor t).xor t = s := ext_pixel fun x y => by simp

/-- A row that is not blank has a pixel that is on. -/
theorem exists_getMsbD {n : Nat} {v : BitVec n} (h : v ≠ 0) : ∃ i : Fin n, v.getMsbD i = true := by
  by_contra hnone
  apply h
  apply BitVec.eq_of_getMsbD_eq
  intro i hi
  rw [BitVec.ofNat_eq_ofNat, BitVec.getMsbD_zero, ← Bool.not_eq_true]
  exact fun hbit => hnone ⟨⟨i, hi⟩, hbit⟩

/-- Screens meet where a pixel is lit on both. -/
theorem meets_iff : s.meets t = true ↔ ∃ x y, s.pixel x y = true ∧ t.pixel x y = true := by
  simp only [meets, Vector.any_eq_true, Vector.getElem_zipWith, bne_iff_ne]
  constructor
  · rintro ⟨y, hy, hrow⟩
    obtain ⟨x, hx⟩ := exists_getMsbD hrow
    rw [BitVec.getMsbD_and, Bool.and_eq_true] at hx
    exact ⟨x, ⟨y, hy⟩, hx⟩
  · rintro ⟨x, y, hs, ht⟩
    refine ⟨y, y.isLt, fun hzero => ?_⟩
    have hon : (s.rows[y] &&& t.rows[y]).getMsbD x = true := by
      rw [BitVec.getMsbD_and]
      exact Bool.and_eq_true_iff.mpr ⟨hs, ht⟩
    have hoff : (s.rows[y] &&& t.rows[y]).getMsbD x = false := by
      rw [show s.rows[y] &&& t.rows[y] = 0 from hzero]
      exact BitVec.getMsbD_zero
    rw [hon] at hoff
    cases hoff

/-- Two screens meet where combining them turns a pixel off. -/
theorem meets_iff_turned_off :
    s.meets t = true ↔ ∃ x y, s.pixel x y = true ∧ (s.xor t).pixel x y = false := by
  simp only [meets_iff, pixel_xor]
  refine exists_congr fun x => exists_congr fun y => and_congr_right fun hs => ?_
  simp [hs]

end Screen

namespace Sprite

variable {x p : Nat}

/-- The bits of a byte, counted from the left; behind the eighth there are none. -/
theorem getMsbD_toBitVec (b : UInt8) (c : Nat) :
    b.toBitVec.getMsbD c = (decide (c < 8) && b.toNat.testBit (7 - c)) := by
  rw [BitVec.getMsbD_eq_getLsbD]
  rfl

/-- A byte that is moved to the left edge has its bits in the first eight columns. -/
theorem getMsbD_leftmost (b : UInt8) (i : Nat) :
    (b.toBitVec.setWidth screenWidth <<< (screenWidth - 8)).getMsbD i = b.toBitVec.getMsbD i := by
  have hback : i + (screenWidth - 8) + 8 - screenWidth = i := Nat.add_sub_cancel i screenWidth
  rw [BitVec.getMsbD_shiftLeft, BitVec.getMsbD_setWidth, hback]
  simp

/-- A row that is turned to the right by `x` comes in again on the left. -/
theorem getMsbD_turned (v : BitVec 64) (hx : x < 64) (hp : p < 64) :
    (v.rotateRight x).getMsbD p = v.getMsbD ((p + 64 - x) % 64) := by
  rw [BitVec.getMsbD_rotateRight, Nat.mod_eq_of_lt hx, decide_eq_true hp, Bool.true_and]
  split
  · rw [Nat.add_comm p]
  · have hinside : (p + 64 - x) % 64 = p - x := by omega
    rw [hinside]

/-- A row that is shifted to the right by `x` is the turned row, less the part that comes in
again. -/
theorem getMsbD_shifted (v : BitVec 64) (hp : p < 64) :
    (v >>> x).getMsbD p = (decide (x ≤ p) && v.getMsbD ((p + 64 - x) % 64)) := by
  rw [BitVec.getMsbD_ushiftRight, decide_eq_true hp, Bool.true_and]
  by_cases hle : x ≤ p
  · have hinside : (p + 64 - x) % 64 = p - x := by omega
    simp [hinside, hle]
  · simp [hle, Nat.lt_of_not_le hle]

/-- A row is the byte, counted from its own leftmost column; a clipping screen shows nothing to the
left of that. -/
theorem getMsbD_row (clip : Bool) (hx : x < 64) (hp : p < 64) (b : UInt8) :
    (row clip x b).getMsbD p =
      ((!clip || decide (x ≤ p)) && b.toBitVec.getMsbD ((p + 64 - x) % 64)) := by
  rw [← getMsbD_leftmost]
  cases clip
  case false => exact getMsbD_turned _ hx hp
  case true => exact getMsbD_shifted _ hp

/-- A pixel of a sprite is the bit that counting back to its corner leads to, in rows and in
columns; a clipping screen shows nothing above and to the left of the corner. -/
theorem pixel_mask {y : Nat} (clip : Bool) (hx : x < 64) (bytes : List UInt8)
    (px : Fin screenWidth) (py : Fin screenHeight) :
    (mask clip x y bytes).pixel px py =
      ((!clip || decide (x ≤ px ∧ y ≤ py)) && (bytes[(py + 32 - y) % 32]?).any fun b =>
        b.toBitVec.getMsbD ((px + 64 - x) % 64)) := by
  have hrow := getMsbD_row clip hx px.isLt
  simp only [mask, Screen.pixel, Fin.getElem_fin, Vector.getElem_ofFn]
  generalize (py.val + 32 - y) % 32 = r
  cases clip
  case false =>
    cases bytes[r]? with
    | none => simp
    | some b => simp [hrow]
  case true =>
    by_cases hle : y ≤ py.val
    · cases bytes[r]? with
      | none => simp
      | some b => simp [hrow, hle, Nat.not_lt.mpr hle]
    · simp [hle, Nat.lt_of_not_le hle]

end Sprite

end Chip8
