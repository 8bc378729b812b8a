import Mathlib
import Chip8.Memory

/-!
# Words as numbers

The parts of a word, read off its number: digits are quotients and remainders by powers of
sixteen, and the word of two bytes is the number that they write in base 256. Everything that
is said elsewhere about words is said about numbers, through the equations of this file.

`Memory.HoldsWord` says that a word stands in memory at an address; fetching is described by
it, since it does not depend on what reads past the end of memory answer.
-/

set_option autoImplicit false

namespace Chip8

namespace Word

/-- A digit of a word is a quotient by a power of two, cut to four bits. -/
theorem nibble_val (w : Word) (i : Nat) : (w.nibble i).val = w.toNat / 2 ^ (4 * i) % 16 := by
  simp only [nibble, Nat.shiftRight_eq_div_pow]

/-- The low byte of a word is its remainder modulo 256. -/
theorem low_toNat (w : Word) : w.low.toNat = w.toNat % 256 := by
  simp [low]

/-- The address in a word is its remainder by 4096. -/
theorem address_toNat (w : Word) : w.address.toNat = w.toNat % 4096 := by
  have hmask : (4095 : Nat) = 2 ^ 12 - 1 := rfl
  simp only [address, UInt16.toNat_and, UInt16.reduceToNat]
  rw [hmask, Nat.and_two_pow_sub_one_eq_mod]

/-- Two bytes make the number that they write in base 256. -/
theorem ofBytes_toNat (high low : UInt8) :
    (ofBytes high low).toNat = 256 * high.toNat + low.toNat := by
  have hhigh := high.toNat_lt
  have hlow := low.toNat_lt
  have hshift : high.toNat <<< 8 < 65536 := by
    rw [Nat.shiftLeft_eq]
    omega
  simp only [ofBytes, UInt16.toNat_or, UInt16.toNat_shiftLeft, UInt8.toNat_toUInt16,
    UInt16.reduceToNat, Nat.reduceMod, Nat.reducePow]
  rw [Nat.mod_eq_of_lt hshift, ← Nat.shiftLeft_add_eq_or_of_lt hlow, Nat.shiftLeft_eq]
  omega

/-- The word of an integer is its remainder by 65536. -/
theorem ofInt_toNat (n : Int) : ((ofInt n).toNat : Int) = n % 65536 := by
  rw [ofInt, UInt16.ofInt, UInt16.toNat_ofNat']
  omega

end Word

namespace Fields

/-- The opcode is the first hexadecimal digit of a word. -/
theorem ofWord_opcode (w : Word) : (ofWord w).opcode.val = w.toNat / 4096 := by
  have hlt := w.toNat_lt
  simp only [ofWord, Word.nibble_val]
  omega

/-- The register `X` is the second hexadecimal digit of a word. -/
theorem ofWord_x (w : Word) : (ofWord w).x.val = w.toNat / 256 % 16 := by
  simp only [ofWord, Word.nibble_val]
  rfl

/-- The register `Y` is the third hexadecimal digit of a word. -/
theorem ofWord_y (w : Word) : (ofWord w).y.val = w.toNat / 16 % 16 := by
  simp only [ofWord, Word.nibble_val]
  rfl

/-- The number `N` is the last hexadecimal digit of a word. -/
theorem ofWord_n (w : Word) : (ofWord w).n.val = w.toNat % 16 := by
  simp only [ofWord, Word.nibble_val]
  omega

/-- The byte `NN` is the last two hexadecimal digits of a word. -/
theorem ofWord_nn (w : Word) : (ofWord w).nn.toNat = w.toNat % 256 := Word.low_toNat w

/-- The address `NNN` is the last three hexadecimal digits of a word. -/
theorem ofWord_nnn (w : Word) : (ofWord w).nnn.toNat = w.toNat % 4096 := Word.address_toNat w

end Fields

namespace Memory

/-- The bytes at `a` and `a + 1` lie inside memory and write the word `w`, high byte first. -/
def HoldsWord (m : Memory) (a : Nat) (w : Word) : Prop :=
  ∃ high low : UInt8, m[a]? = some high ∧ m[a + 1]? = some low ∧
    w.toNat = 256 * high.toNat + low.toNat

/-- A read inside memory gives the byte that stands there. -/
theorem read_eq_some (m : Memory) {a : Nat} (h : a < 4096) : m[a]? = some (m.read a) := by
  have hmin : min a (4096 - 1) = a := by omega
  simp only [read, Vector.get_eq_getElem, hmin]
  exact Vector.getElem?_eq_getElem h

/-- One word at most stands at an address. -/
theorem HoldsWord.unique {m : Memory} {a : Nat} {v w : Word} (hv : m.HoldsWord a v)
    (hw : m.HoldsWord a w) : v = w := by
  obtain ⟨high, low, hhigh, hlow, hnum⟩ := hv
  obtain ⟨high', low', hhigh', hlow', hnum'⟩ := hw
  obtain rfl : high = high' := Option.some.inj (hhigh.symm.trans hhigh')
  obtain rfl : low = low' := Option.some.inj (hlow.symm.trans hlow')
  exact UInt16.toNat_inj.mp (hnum.trans hnum'.symm)

/-- A word stands at an address that is not the last. -/
theorem HoldsWord.le {m : Memory} {a : Nat} {w : Word} (h : m.HoldsWord a w) : a ≤ 4094 := by
  obtain ⟨high, low, -, hlow, -⟩ := h
  obtain ⟨hlt, -⟩ := Vector.getElem?_eq_some_iff.mp hlow
  exact Nat.le_of_lt_succ (Nat.lt_of_succ_lt_succ hlt)

/-- At every address but the last the word that is fetched stands in memory. -/
theorem holdsWord_word (m : Memory) {a : UInt16} (h : a.toNat ≤ 4094) :
    m.HoldsWord a.toNat (m.word a) := by
  have hnext : (a + 1).toNat = a.toNat + 1 := by
    rw [UInt16.toNat_add, UInt16.toNat_one]
    omega
  refine ⟨m.read a.toNat, m.read (a.toNat + 1), read_eq_some m (by omega),
    read_eq_some m (by omega), ?_⟩
  rw [word, Word.ofBytes_toNat, hnext]

end Memory

end Chip8
