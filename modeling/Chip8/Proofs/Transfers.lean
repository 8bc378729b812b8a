import Chip8.Proofs.Effects

/-!
# Bytes that are moved at once

What a block of bytes does to memory, address by address: `Memory.getElem_write` says which byte
stands at an address behind a write, and `Memory.slice_congr` that a slice depends on the bytes of
its own span.

An interpreter may also move whole arrays, sixteen lanes for the registers and fifteen rows for a
sprite, whatever the instruction asks for. It then gathers bytes that nobody wants, clamped at the
end of memory, and masks them out again. `effectByLanes_eq` is the top of the second half: no such
byte shows in the effect of any instruction.
-/

set_option autoImplicit false

namespace Chip8

namespace Memory

/-- The byte that a write of `bytes` from `base` on puts at an address, if it reaches there. -/
def stored (base : Nat) (bytes : List UInt8) (a : Nat) : Option UInt8 :=
  if base ≤ a then bytes[a - base]? else none

/-- A write puts nothing below its base. -/
theorem stored_of_lt {base a : Nat} (h : a < base) (bytes : List UInt8) :
    stored base bytes a = none := if_neg (Nat.not_le.mpr h)

/-- A write puts nothing behind its last byte. -/
theorem stored_of_ge {base a : Nat} {bytes : List UInt8} (h : base + bytes.length ≤ a) :
    stored base bytes a = none := by
  unfold stored
  split
  · apply List.getElem?_eq_none
    omega
  · rfl

/-- From its base on, a write puts its bytes in their order. -/
theorem stored_of_le {base a : Nat} (h : base ≤ a) (bytes : List UInt8) :
    stored base bytes a = bytes[a - base]? := if_pos h

/-- A write puts its own bytes at the addresses that it reaches and leaves the others alone. -/
theorem getElem_write (m : Memory) (base : Nat) (bytes : List UInt8) {a : Nat} (ha : a < 4096) :
    (m.write base bytes)[a] = (stored base bytes a).getD m[a] := by
  induction bytes generalizing m base with
  | nil =>
    have hnone : stored base [] a = none := by
      unfold stored
      split <;> rfl
    rw [hnone]
    rfl
  | cons b bs ih =>
    rw [write, ih, Vector.getElem_setIfInBounds ha]
    rcases Nat.lt_trichotomy a base with hlt | rfl | hlt
    · rw [stored_of_lt (by omega), stored_of_lt hlt, if_neg (by omega)]
    · rw [stored_of_lt (Nat.lt_succ_self a), stored_of_le le_rfl]
      simp
    · -- past the first byte, the rest of the write decides
      have hsub : a - base = a - (base + 1) + 1 := by omega
      rw [stored_of_le hlt, stored_of_le (Nat.le_of_lt hlt), hsub, List.getElem?_cons_succ,
        if_neg (Nat.ne_of_lt hlt)]

/-- A byte that a write changes lies in its span. -/
theorem span_of_write_ne {m : Memory} {base : Nat} {bytes : List UInt8} {a : Nat} (ha : a < 4096)
    (h : (m.write base bytes)[a] ≠ m[a]) : base ≤ a ∧ a < base + bytes.length := by
  rw [getElem_write m base bytes ha] at h
  by_contra hout
  rcases Nat.lt_or_ge a base with hlt | hle
  · exact h (by rw [stored_of_lt hlt, Option.getD_none])
  · exact h (by rw [stored_of_ge (by omega), Option.getD_none])

/-- An address inside of memory is not masked. -/
theorem read_eq_getElem (m : Memory) {a : Nat} (ha : a < 4096) : m.read a = m[a] := by
  have h := m.read_eq_some ha
  rw [Vector.getElem?_eq_getElem ha] at h
  exact (Option.some.inj h).symm

/-- A slice has as many bytes as were asked for. -/
theorem length_slice (m : Memory) (base count : Nat) : (m.slice base count).length = count := by
  simp [slice]

/-- The bytes of a slice are read one behind the other, each address masked by itself. -/
theorem getElem?_slice (m : Memory) (base count k : Nat) :
    (m.slice base count)[k]? = if k < count then some (m.read (base + k)) else none := by
  split
  · rename_i hk
    simp [slice, hk]
  · rename_i hk
    simpa [slice] using Nat.le_of_not_lt hk

/-- A slice that does not wrap depends on its own addresses only. -/
theorem slice_congr {m t : Memory} {base count : Nat} (hfits : base + count ≤ 4096)
    (h : ∀ a (ha : a < 4096), base ≤ a → a < base + count → t[a] = m[a]) :
    t.slice base count = m.slice base count := by
  apply List.map_congr_left
  intro k hk
  have hlt : k < count := List.mem_range.mp hk
  rw [read_eq_getElem t (by omega), read_eq_getElem m (by omega)]
  apply h
  all_goals omega

end Memory

/-! ## Whole arrays -/

namespace Machine

/-- The sixteen bytes that a store of whole arrays writes back: the registers up to `VX`, and behind
them what it has gathered from memory. -/
def storeLanes (m : Machine) (x : Nibble) : List UInt8 :=
  (List.finRange 16).map fun k => if k ≤ x then m.reg k else m.memory.read (m.base + k)

/-- The sixteen registers after a load of whole arrays: the bytes gathered, masked by `VX`. -/
def loadLanes (m : Machine) (x : Nibble) : Registers :=
  Vector.ofFn fun k => if k ≤ x then m.memory.read (m.base + k) else m.reg k

/-- The fifteen rows of a sprite of whole arrays: the bytes gathered, masked by the height. -/
def spriteLanes (m : Machine) (n : Nibble) : List UInt8 :=
  (List.range 15).map fun r => if r < n.val then m.memory.read (m.base + r) else 0

/-- The lanes up to `VX` hold registers, those behind it what memory held before. -/
theorem getElem?_storeLanes (m : Machine) (x : Nibble) (k : Nat) (hk : k < 16) :
    (m.storeLanes x)[k]? =
      some (if k ≤ x.val then m.v[k] else m.memory.read (m.base + k)) := by
  rw [storeLanes, List.getElem?_map, List.getElem?_eq_getElem (by simpa using hk), Option.map_some]
  simp only [List.getElem_finRange, Fin.le_iff_val_le_val, reg, Vector.get_eq_getElem, Fin.val_cast]

/-- All sixteen lanes are written back, whatever `VX` is. -/
theorem length_storeLanes (m : Machine) (x : Nibble) : (m.storeLanes x).length = 16 := by
  simp [storeLanes]

/-- The bytes behind the registers asked for are written back as they stood. -/
theorem write_storeLanes (m : Machine) (x : Nibble) :
    m.memory.write m.base (m.storeLanes x) =
      m.memory.write m.base (m.v.toList.take (x + 1)) := by
  have hx := x.isLt
  apply Vector.ext
  intro a ha
  rw [Memory.getElem_write _ _ _ ha, Memory.getElem_write _ _ _ ha]
  rcases Nat.lt_or_ge a m.base with hlt | hle
  · rw [Memory.stored_of_lt hlt, Memory.stored_of_lt hlt]
  · rw [Memory.stored_of_le hle, Memory.stored_of_le hle]
    by_cases hlane : a - m.base < 16
    · have hback : m.base + (a - m.base) = a := by omega
      rw [m.getElem?_storeLanes x _ hlane]
      by_cases hreg : a - m.base ≤ x.val
      · rw [if_pos hreg, List.getElem?_take_of_lt (by omega)]
        simp [hlane]
      · rw [if_neg hreg, hback, Memory.read_eq_getElem _ ha, List.getElem?_take_eq_none (by omega)]
        rfl
    · rw [List.getElem?_eq_none (by rw [length_storeLanes]; omega),
        List.getElem?_eq_none (by simp; omega)]

/-- Sixteen lanes masked by `VX` are the registers of a load that stops at `VX`. -/
theorem loadLanes_eq (m : Machine) (x : Nibble) :
    m.loadLanes x = loadRegisters m.v (m.memory.slice m.base (x + 1)) := by
  apply Vector.ext
  intro k hk
  simp only [loadLanes, loadRegisters, Vector.getElem_ofFn, List.getD_eq_getElem?_getD,
    Memory.getElem?_slice, Fin.le_iff_val_le_val, Nat.lt_succ_iff, reg]
  split
  · rfl
  · rfl

/-- A row without a bit covers no pixel, so the rows below a sprite may be drawn as well. -/
theorem row_zero (clip : Bool) (x : Nat) : Sprite.row clip x 0 = 0 := by
  cases clip
  case true => simp [Sprite.row]
  case false =>
    apply BitVec.eq_of_getLsbD_eq
    intro i hi
    simp [Sprite.row, BitVec.getLsbD_rotateRight]

/-- The rows masked out are blank, as are the rows of the screen that no row of the sprite falls
on. -/
theorem mask_spriteLanes (m : Machine) (clip : Bool) (x y : Nat) (n : Nibble) :
    Sprite.mask clip x y (m.spriteLanes n) = Sprite.mask clip x y (m.memory.slice m.base n) := by
  have hn := n.isLt
  unfold Sprite.mask
  congr 2
  funext r
  split
  · rfl
  · generalize (r.val + screenHeight - y) % screenHeight = k
    rw [Memory.getElem?_slice]
    by_cases hk : k < n.val
    · simp [spriteLanes, hk, show k < 15 by omega]
    · by_cases hlane : k < 15
      · simp [spriteLanes, hk, hlane, row_zero]
      · simp [spriteLanes, hk, hlane]

end Machine

namespace Instruction

/-- The effect of an instruction as whole arrays have it: a sprite gathers fifteen rows, a transfer of
registers sixteen lanes. -/
def effectByLanes (m : Machine) : Instruction → Machine
  | draw x y n =>
    let sprite := Sprite.mask m.dialect.clipSprites ((m.reg x).toNat % screenWidth)
      ((m.reg y).toNat % screenHeight) (m.spriteLanes n)
    { m with screen := m.screen.xor sprite }.setFlag (m.screen.meets sprite)
  | store x => (m.writeMemory (m.storeLanes x)).moveIndex (x + 1)
  | load x => { m with v := m.loadLanes x }.moveIndex (x + 1)
  | i => i.effect m

/-- What is gathered beyond the span of an instruction does not show in its effect. -/
theorem effectByLanes_eq (m : Machine) (i : Instruction) : i.effectByLanes m = i.effect m := by
  cases i
  case draw x y n =>
    simp only [effectByLanes, effect, Machine.draw, m.mask_spriteLanes]
  case store x =>
    simp only [effectByLanes, effect, Machine.writeMemory, m.write_storeLanes]
  case load x =>
    simp only [effectByLanes, effect, m.loadLanes_eq]
  all_goals rfl

end Instruction

end Chip8
