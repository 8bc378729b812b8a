import Chip8.Proofs.RegisterStreams
import Chip8.Proofs.Commands

/-!
# Loading images

An image is laid over memory from where images begin, and `Memory.Overlaid` says what memory is then.
It says everything: what a block is laid over and the block determine the memory (`Overlaid.eq`), so
two loads in a row come to one load of whatever the second leaves of the first (`Overlaid.over`).

A program is a list of words, written high byte first (`Word.image`). Each of its words stands in the
image at twice its position (`HoldsBytes.word`), and is fetched from there. `load_and_fetch` is the
top, for images of every length up to the last byte of memory.
-/

set_option autoImplicit false

namespace Chip8

namespace Memory

variable {m t u : Memory} {base : Nat} {xs ys : List UInt8}

/-- The same block over the same memory makes the same memory. -/
theorem Overlaid.eq (h : m.Overlaid t base xs) (h' : m.Overlaid u base xs) : t = u := by
  apply Vector.ext
  intro a ha
  by_cases hin : base ≤ a ∧ a < base + xs.length
  · obtain ⟨j, rfl⟩ := Nat.exists_eq_add_of_le hin.1
    have hj : j < xs.length := by omega
    have hbyte := (h.inside j hj).trans (h'.inside j hj).symm
    rw [Vector.getElem?_eq_getElem ha, Vector.getElem?_eq_getElem ha] at hbyte
    exact Option.some.inj hbyte
  · have hout : a < base ∨ base + xs.length ≤ a := by omega
    rw [h.outside a ha hout, h'.outside a ha hout]

/-- Of a block that another one is laid over, the bytes behind the other one stay. -/
theorem Overlaid.over (h : m.Overlaid t base xs) (h' : t.Overlaid u base ys) :
    m.Overlaid u base (ys ++ xs.drop ys.length) where
  inside := by
    intro j hj
    rw [List.length_append, List.length_drop] at hj
    by_cases hlt : j < ys.length
    · rw [h'.inside j hlt, List.getElem_append_left hlt]
    · have hbyte := h.inside j (by omega)
      obtain ⟨ha, -⟩ := Vector.getElem?_eq_some_iff.mp hbyte
      have hback : ys.length + (j - ys.length) = j := by omega
      rw [Vector.getElem?_eq_getElem ha, h'.outside _ ha (by omega), ← Vector.getElem?_eq_getElem ha,
        hbyte, List.getElem_append_right (Nat.le_of_not_lt hlt), List.getElem_drop]
      simp only [hback]
  outside := by
    intro a ha hout
    rw [List.length_append, List.length_drop] at hout
    rw [h'.outside a ha (by omega), h.outside a ha (by omega)]

end Memory

/-! ## Programs -/

namespace Word

/-- The bytes of a word, high byte first. -/
def bytes (w : Word) : List UInt8 := [(w >>> 8).toUInt8, w.low]

/-- The image of a program: the bytes of its words, one word behind the other. -/
def image (ws : List Word) : List UInt8 := ws.flatMap bytes

/-- A word takes two bytes of an image. -/
theorem length_image (ws : List Word) : (image ws).length = 2 * ws.length := by
  induction ws with
  | nil => rfl
  | cons w ws ih =>
    rw [image, List.flatMap_cons, List.length_append, List.length_cons, ← image, ih]
    simp only [bytes, List.length_cons, List.length_nil]
    omega

end Word

namespace Memory

variable {t : Memory} {base : Nat}

/-- A word stands where its two bytes stand. -/
theorem HoldsBytes.holdsWord {w : Word} (h : t.HoldsBytes base w.bytes) : t.HoldsWord base w := by
  have hlt := w.toNat_lt
  refine ⟨(w >>> 8).toUInt8, w.low, h 0 Nat.two_pos, h 1 Nat.one_lt_two, ?_⟩
  rw [Word.low_toNat, UInt16.toNat_toUInt8, UInt16.toNat_shiftRight, Nat.shiftRight_eq_div_pow]
  simp only [UInt16.reduceToNat, Nat.reduceMod, Nat.reducePow]
  omega

/-- The words of a program stand behind one another. -/
theorem HoldsBytes.word {ws : List Word} (h : t.HoldsBytes base (Word.image ws)) {k : Nat}
    (hk : k < ws.length) : t.HoldsWord (base + 2 * k) ws[k] := by
  induction ws generalizing base k with
  | nil => cases hk
  | cons w ws ih =>
    rw [Word.image, List.flatMap_cons] at h
    cases k with
    | zero => exact h.of_append_left.holdsWord
    | succ k =>
      have hrest := ih h.of_append_right (Nat.lt_of_succ_lt_succ hk)
      have hnext : base + 2 * (k + 1) = base + w.bytes.length + 2 * k := by
        simp only [Word.bytes, List.length_cons, List.length_nil]
        omega
      rw [hnext]
      exact hrest

/-- An image of the largest size ends where memory ends. -/
theorem overlaid_image (m : Memory) {d : List UInt8} (h : d.length ≤ 3584) :
    m.Overlaid (m.write 0x200 d) 0x200 d :=
  m.overlaid_write (Nat.add_le_add_left h 0x200)

end Memory

/-! ## Loading -/

namespace Machine

variable {m : Machine}

/-- An image is refused for its size only. -/
theorem load_eq_error_iff {d : List UInt8} {e : Oversize} :
    m.load d = .error e ↔ 3584 < d.length ∧ e = ⟨d.length⟩ := by
  unfold load
  split
  · rename_i hle
    exact iff_of_false nofun fun h => absurd h.1 (Nat.not_lt_of_le hle)
  · rename_i hle
    rw [Except.error.injEq, eq_comm]
    exact (and_iff_right (Nat.lt_of_not_le hle)).symm

/-- An image that fits is laid over memory, and nothing else changes. -/
theorem exists_load {d : List UInt8} (h : d.length ≤ 3584) :
    ∃ r, m.load d = .ok r ∧ r = { m with memory := r.memory } ∧
      m.memory.Overlaid r.memory 0x200 d :=
  ⟨_, if_pos h, rfl, m.memory.overlaid_image h⟩

/-- Two images in a row are one image, in which the second stands over the first. -/
theorem load_load {c d : List UInt8} (hc : c.length ≤ 3584) (hd : d.length ≤ 3584) :
    ∃ q r, m.load c = .ok q ∧ q.load d = .ok r ∧ m.load (d ++ c.drop d.length) = .ok r := by
  have hboth : (d ++ c.drop d.length).length ≤ 3584 := by
    rw [List.length_append, List.length_drop]
    omega
  obtain ⟨q, hq, hqm, hfirst⟩ := exists_load (m := m) hc
  obtain ⟨r, hr, hrq, hsecond⟩ := exists_load (m := q) hd
  obtain ⟨s, hs, hsm, honce⟩ := exists_load (m := m) hboth
  have hmemory : s.memory = r.memory := honce.eq (hfirst.over hsecond)
  have hsame : s = r := by
    rw [hrq, hqm, hsm, hmemory]
  exact ⟨q, r, hq, hr, hs.trans (congrArg _ hsame)⟩

/-- The word of a program that the program counter stands at is fetched. -/
theorem fetch_of_holdsWord {a : UInt16} {w : Word} (hw : m.memory.HoldsWord a.toNat w) :
    { m with pc := a }.fetch = (w, { m with pc := a + 2 }) := by
  have hword : m.memory.word a = w := (m.memory.holdsWord_word hw.le).unique hw
  rw [fetch, hword]

/-- An image is refused exactly if it has more than 3584 bytes, and then there is no new machine and
the host goes on with the one it had. Any other image stands in memory from `0x200` on, with every
other byte, of the font or of an older image, and every other part of the machine as it was. So an
image that is loaded over another leaves the end of the other if that was longer. When the image of
at most 1792 words is loaded, fetching at the place of each word gives the word and moves the program
counter to the next, without wrapping. -/
theorem load_and_fetch (m : Machine) :
    (∀ d, (∀ e, m.load d = .error e ↔ 3584 < d.length ∧ e = ⟨d.length⟩) ∧
      (3584 < d.length → m.after (.load d) = m)) ∧
    (∀ d, d.length ≤ 3584 →
      ∃ r, m.load d = .ok r ∧ r = { m with memory := r.memory } ∧
        m.memory.Overlaid r.memory 0x200 d) ∧
    (∀ c d, c.length ≤ 3584 → d.length ≤ 3584 →
      ∃ q r, m.load c = .ok q ∧ q.load d = .ok r ∧ m.load (d ++ c.drop d.length) = .ok r) ∧
    (∀ ws : List Word, ws.length ≤ 1792 →
      ∃ r, m.load (Word.image ws) = .ok r ∧
        ∀ k (hk : k < ws.length) (a : UInt16), a.toNat = 0x200 + 2 * k →
          { r with pc := a }.fetch = (ws[k], { r with pc := a + 2 }) ∧
          (a + 2).toNat = 0x200 + 2 * k + 2) := by
  refine ⟨fun d => ⟨fun e => load_eq_error_iff, fun hbig => ?_⟩, fun d => exists_load,
    fun c d => load_load, fun ws hws => ?_⟩
  · have hrefused : m.load d = .error ⟨d.length⟩ := load_eq_error_iff.mpr ⟨hbig, rfl⟩
    simp only [after, perform, hrefused, Except.mapError]
  · have hsize : (Word.image ws).length ≤ 3584 := by
      rw [Word.length_image]
      omega
    obtain ⟨r, hr, -, hover⟩ := exists_load (m := m) hsize
    refine ⟨r, hr, fun k hk a ha => ⟨?_, ?_⟩⟩
    · apply fetch_of_holdsWord
      rw [ha]
      exact hover.inside.word hk
    · rw [Instruction.toNat_add_two (by omega), ha]

/-- A machine that has run off the end of memory. -/
def stranded : Machine := { powerOn ⟨0, 0⟩ .classic with pc := 0x1000 }.step

/-- An image of a byte too many is refused. Two bytes over five leave three of them. The last of 1792
words is fetched from the end of memory. -/
theorem load_and_fetch_fullImage :
    (3584 < (List.replicate 3585 (7 : UInt8)).length ∧
      stranded.load (List.replicate 3585 7) = .error ⟨3585⟩ ∧
      stranded.after (.load (List.replicate 3585 7)) = stranded) ∧
    (∃ q r, stranded.load [1, 2, 3, 4, 5] = .ok q ∧ q.load [9, 8] = .ok r ∧
      stranded.load [9, 8, 3, 4, 5] = .ok r ∧ r = { stranded with memory := r.memory } ∧
      stranded.memory.Overlaid r.memory 0x200 [9, 8, 3, 4, 5]) ∧
    (∃ r, stranded.load (Word.image (List.replicate 1792 0x1234)) = .ok r ∧
      { r with pc := 0xFFE }.fetch = (0x1234, { r with pc := 0x1000 })) := by
  obtain ⟨hrefused, hfits, htwice, hprograms⟩ := load_and_fetch stranded
  have hlength : (List.replicate 3585 (7 : UInt8)).length = 3585 := List.length_replicate
  have hbig : 3584 < (List.replicate 3585 (7 : UInt8)).length := by omega
  have herror : stranded.load (List.replicate 3585 7) = .error ⟨3585⟩ :=
    ((hrefused _).1 _).mpr ⟨hbig, by rw [hlength]⟩
  have hfive : [1, 2, 3, 4, (5 : UInt8)].length ≤ 3584 := by simp
  have hleft : [9, 8, 3, 4, (5 : UInt8)].length ≤ 3584 := by simp
  obtain ⟨q, r, hq, hr, honce⟩ := htwice [1, 2, 3, 4, 5] [9, 8] hfive (by simp)
  obtain ⟨s, hs, hsame, hover⟩ := hfits _ hleft
  obtain rfl : r = s := Except.ok.inj (honce.symm.trans hs)
  have hcount : (List.replicate 1792 (0x1234 : Word)).length = 1792 := List.length_replicate
  obtain ⟨t, ht, hwords⟩ := hprograms (List.replicate 1792 0x1234) (Nat.le_of_eq hcount)
  obtain ⟨hlast, -⟩ := hwords 1791 (by omega) 0xFFE rfl
  rw [List.getElem_replicate] at hlast
  exact ⟨⟨hbig, herror, (hrefused _).2 hbig⟩, ⟨q, r, hq, hr, honce, hsame, hover⟩, t, ht, hlast⟩

end Machine

end Chip8
