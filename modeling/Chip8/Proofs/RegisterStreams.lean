import Chip8.Proofs.IndexTransfers

/-!
# Streams of registers

In dialects where transfers move the index, one `FX55` after another lays down blocks of registers
without a gap, and one `FX65` after another takes them up again. `Machine.Streamed` is what a store
keeps: memory from the old index on is the stream of the blocks so far, and the index stands behind
it. `Machine.Rewound` is the same for the way back, where memory stays as it is. In the other
dialects the index stays, and a block can be taken up before the next one is laid down over it.
`blocks_round_trip` says of each way that all registers come back.
-/

set_option autoImplicit false

namespace Chip8

namespace Memory

variable {m t u : Memory} {base : Nat} {xs ys : List UInt8}

/-- Memory that holds two streams in a row holds the first. -/
theorem HoldsBytes.of_append_left (h : t.HoldsBytes base (xs ++ ys)) : t.HoldsBytes base xs := by
  intro j hj
  have hlt : j < (xs ++ ys).length := by
    rw [List.length_append]
    omega
  rw [h j hlt, List.getElem_append_left hj]

/-- Memory that holds two streams in a row holds the second where the first ends. -/
theorem HoldsBytes.of_append_right (h : t.HoldsBytes base (xs ++ ys)) :
    t.HoldsBytes (base + xs.length) ys := by
  intro j hj
  have hlt : xs.length + j < (xs ++ ys).length := by
    rw [List.length_append]
    omega
  have hbyte := h _ hlt
  rw [List.getElem_append_right (Nat.le_add_right _ _)] at hbyte
  simpa only [Nat.add_assoc, Nat.add_sub_cancel_left] using hbyte

/-- Bytes that memory holds are read back from it. -/
theorem HoldsBytes.slice_eq (h : t.HoldsBytes base xs) : t.slice base xs.length = xs := by
  apply List.ext_getElem?
  intro k
  rw [getElem?_slice]
  split
  · rename_i hk
    have hbyte := h k hk
    obtain ⟨hlt, -⟩ := Vector.getElem?_eq_some_iff.mp hbyte
    rw [read_eq_some _ hlt] at hbyte
    rw [hbyte, List.getElem?_eq_getElem hk]
  · rename_i hk
    exact (List.getElem?_eq_none (Nat.le_of_not_lt hk)).symm

/-- Nothing is laid over memory by an empty stream. -/
theorem overlaid_nil (m : Memory) (base : Nat) : m.Overlaid m base [] where
  inside := nofun
  outside := fun _ _ _ => rfl

/-- Two blocks that are laid down one behind the other are one block. -/
theorem Overlaid.append (h : m.Overlaid t base xs) (h' : t.Overlaid u (base + xs.length) ys) :
    m.Overlaid u base (xs ++ ys) where
  inside := by
    intro j hj
    rw [List.length_append] at hj
    by_cases hlt : j < xs.length
    · have hbyte := h.inside j hlt
      obtain ⟨ha, -⟩ := Vector.getElem?_eq_some_iff.mp hbyte
      rw [Vector.getElem?_eq_getElem ha, h'.outside _ ha (.inl (by omega)),
        ← Vector.getElem?_eq_getElem ha, hbyte, List.getElem_append_left hlt]
    · have hbyte := h'.inside (j - xs.length) (by omega)
      have hadd : base + xs.length + (j - xs.length) = base + j := by omega
      rw [hadd] at hbyte
      rw [hbyte, List.getElem_append_right (Nat.le_of_not_lt hlt)]
  outside := by
    intro a ha hout
    rw [List.length_append] at hout
    rw [h'.outside a ha (by omega), h.outside a ha (by omega)]

end Memory

/-- The word `FXNN`. -/
def Word.misc (x : Nibble) (low : Nat) : Word := UInt16.ofNat (0xF000 + 0x100 * x + low)

/-- The words `FXNN` have their register and their low byte in place. -/
theorem Word.hasX_misc (x : Nibble) {low : Nat} (h : low < 256) :
    Instruction.HasX (misc x low) 0xF x ∧ (misc x low).toNat % 256 = low := by
  have hx := x.isLt
  have hword : (misc x low).toNat = 0xF000 + 0x100 * x + low := by
    rw [misc, UInt16.toNat_ofNat']
    omega
  refine ⟨⟨?_, ?_⟩, ?_⟩
  all_goals omega

/-- A block of registers that goes to memory and comes back. -/
structure Block where
  /-- The last register of the block; the first one is `V0`. -/
  x : Nibble
  /-- The registers when the block is stored. -/
  saved : Registers
  /-- The registers that the block is loaded over. -/
  found : Registers

namespace Block

/-- The number of bytes of a block. -/
def size (b : Block) : Nat := b.x + 1

/-- The bytes of a block. -/
def bytes (b : Block) : List UInt8 := b.saved.toList.take b.size

/-- The block has come back: its registers are as they were saved, and those above it as they were
found. -/
def Restored (b : Block) (r : Machine) : Prop :=
  ∀ k, r.reg k = if k ≤ b.x then b.saved.get k else b.found.get k

/-- The number of bytes of blocks together. -/
def total (bs : List Block) : Nat := (bs.map size).sum

/-- The bytes of blocks, one block behind the other. -/
def stream (bs : List Block) : List UInt8 := bs.flatMap bytes

/-- A block has at least the register `V0`. -/
theorem size_pos (b : Block) : 0 < b.size := Nat.succ_pos _

/-- A block is stored as one byte for each of its registers. -/
theorem length_bytes (b : Block) : b.bytes.length = b.size := by
  simp [bytes, size]

/-- A stream of blocks is as long as the blocks together. -/
theorem length_stream (bs : List Block) : (stream bs).length = total bs := by
  simp only [stream, total, List.length_flatMap, length_bytes]

/-- One more block adds its size. -/
theorem total_concat (bs : List Block) (b : Block) : total (bs ++ [b]) = total bs + b.size := by
  simp [total]

/-- One more block adds its bytes behind the others. -/
theorem stream_concat (bs : List Block) (b : Block) :
    stream (bs ++ [b]) = stream bs ++ b.bytes := by
  simp [stream]

/-- The first of some blocks are no longer than all of them. -/
theorem total_mono {as bs : List Block} (h : as <+: bs) : total as ≤ total bs := by
  obtain ⟨cs, rfl⟩ := h
  simp [total]

end Block

namespace Machine

variable {m r s : Machine} {b : Block} {bs : List Block} {bytes : List UInt8}

/-- Stores a block: sets all registers and executes `FX55`. -/
def storeBlock (m : Machine) (b : Block) : Machine :=
  { m with v := b.saved }.execute (Word.misc b.x 0x55)

/-- Loads a block: sets all registers and executes `FX65`. -/
def loadBlock (m : Machine) (b : Block) : Machine :=
  { m with v := b.found }.execute (Word.misc b.x 0x65)

/-- Stores blocks one after the other. -/
def storeBlocks (m : Machine) (bs : List Block) : Machine := bs.foldl storeBlock m

/-- Loads blocks one after the other. -/
def loadBlocks (m : Machine) (bs : List Block) : Machine := bs.foldl loadBlock m

/-- Stores each block and loads it at once. -/
def passBlocks (m : Machine) (bs : List Block) : Machine :=
  bs.foldl (fun m b => (m.storeBlock b).loadBlock b) m

/-- The last of some blocks is stored after the others. -/
theorem storeBlocks_concat (m : Machine) (bs : List Block) (b : Block) :
    m.storeBlocks (bs ++ [b]) = (m.storeBlocks bs).storeBlock b := List.foldl_concat _ _ _ _

/-- The last of some blocks is loaded after the others. -/
theorem loadBlocks_concat (m : Machine) (bs : List Block) (b : Block) :
    m.loadBlocks (bs ++ [b]) = (m.loadBlocks bs).loadBlock b := List.foldl_concat _ _ _ _

/-- The last of some blocks is stored and loaded after the others have been. -/
theorem passBlocks_concat (m : Machine) (bs : List Block) (b : Block) :
    m.passBlocks (bs ++ [b]) = ((m.passBlocks bs).storeBlock b).loadBlock b :=
  List.foldl_concat _ _ _ _

/-- Storing a block that fits sets its registers, writes their bytes and moves the index where the
dialect does. -/
theorem storeBlock_eq (hrun : m.faulted = false) (hfits : m.base + b.size ≤ 4096) :
    m.storeBlock b =
      { m with
        v := b.saved
        memory := m.memory.write m.base b.bytes
        index := m.indexPast b.size } :=
  execute_store (m := { m with v := b.saved }) hrun (Word.hasX_misc b.x (by decide)) hfits

/-- Loading a block that fits reads its registers from memory and moves the index where the dialect
does. -/
theorem loadBlock_eq (hrun : m.faulted = false) (hfits : m.base + b.size ≤ 4096) :
    m.loadBlock b =
      { m with
        v := loadRegisters b.found (m.memory.slice m.base b.size)
        index := m.indexPast b.size } :=
  execute_load (m := { m with v := b.found }) hrun (Word.hasX_misc b.x (by decide)) hfits

/-- A block comes back when its bytes stand where the index points. -/
theorem restored_loadBlock (hrun : m.faulted = false) (hfits : m.base + b.size ≤ 4096)
    (hbytes : m.memory.HoldsBytes m.base b.bytes) : b.Restored (m.loadBlock b) := by
  intro k
  rw [loadBlock_eq hrun hfits, ← b.length_bytes, hbytes.slice_eq, reg, reg_loadRegisters,
    Block.bytes]
  by_cases hk : k ≤ b.x
  · have hlt : k.val < b.size := Nat.lt_succ_of_le hk
    rw [if_pos hk, List.getElem?_take_of_lt hlt]
    simp [Vector.get_eq_getElem]
  · have hle : b.size ≤ k.val := Nat.lt_of_not_le hk
    rw [if_neg hk, List.getElem?_take_eq_none hle, Option.getD_none]

/-! ## With an index that moves -/

/-- From `m` to `r` bytes were laid down from the index on, and the index was moved past them. -/
structure Streamed (m r : Machine) (bytes : List UInt8) : Prop where
  faulted : r.faulted = false
  dialect : r.dialect = m.dialect
  index : r.index.toNat = m.index.toNat + bytes.length
  memory : m.memory.Overlaid r.memory m.index.toNat bytes

/-- One more block is laid down behind the others. -/
theorem Streamed.storeBlock (h : m.Streamed r bytes)
    (hmoves : m.dialect.transferMovesIndex = true)
    (hfits : m.index.toNat + (bytes.length + b.size) ≤ 4096) :
    m.Streamed (r.storeBlock b) (bytes ++ b.bytes) := by
  have hpos := b.size_pos
  have hindex := h.index
  -- a block has a byte at least, so the index is inside memory before it and its low bits are all
  have hbase : r.base = m.index.toNat + bytes.length := (base_of_lt (by omega)).trans hindex
  have hlen := b.length_bytes
  rw [storeBlock_eq h.faulted (by omega)]
  refine ⟨h.faulted, h.dialect, ?_, h.memory.append ?_⟩
  · show (r.indexPast b.size).toNat = _
    rw [r.toNat_indexPast (by omega), h.dialect, if_pos hmoves, List.length_append]
    omega
  · rw [← hbase]
    exact r.memory.overlaid_write (by omega)

/-- Blocks that are stored one after the other lie in memory as one stream, with the index behind
it. -/
theorem streamed_storeBlocks (hrun : m.faulted = false)
    (hmoves : m.dialect.transferMovesIndex = true)
    (hfits : m.index.toNat + Block.total bs ≤ 4096) :
    m.Streamed (m.storeBlocks bs) (Block.stream bs) := by
  -- from the last block on: it is laid down behind the stream of those before it
  induction bs using List.reverseRecOn with
  | nil => exact ⟨hrun, rfl, rfl, m.memory.overlaid_nil _⟩
  | append_singleton bs b ih =>
    rw [Block.total_concat] at hfits
    rw [Block.stream_concat, storeBlocks_concat]
    exact (ih (by omega)).storeBlock hmoves (by rw [Block.length_stream]; exact hfits)

/-- From `s` to `r` the index was moved past a number of bytes, and memory left alone. -/
structure Rewound (s r : Machine) (count : Nat) : Prop where
  faulted : r.faulted = false
  dialect : r.dialect = s.dialect
  index : r.index.toNat = s.index.toNat + count
  memory : r.memory = s.memory

/-- Each block that is loaded moves the index past its bytes and leaves memory alone. -/
theorem Rewound.loadBlock {count : Nat} (h : s.Rewound r count)
    (hmoves : s.dialect.transferMovesIndex = true)
    (hfits : s.index.toNat + (count + b.size) ≤ 4096) :
    s.Rewound (r.loadBlock b) (count + b.size) := by
  have hpos := b.size_pos
  have hindex := h.index
  have hbase : r.base = s.index.toNat + count := (base_of_lt (by omega)).trans hindex
  rw [loadBlock_eq h.faulted (by omega)]
  refine ⟨h.faulted, h.dialect, ?_, h.memory⟩
  show (r.indexPast b.size).toNat = _
  rw [r.toNat_indexPast (by omega), h.dialect, if_pos hmoves]
  omega

/-- Blocks that are loaded one after the other move the index past all of their bytes and leave
memory alone. -/
theorem rewound_loadBlocks (hrun : s.faulted = false)
    (hmoves : s.dialect.transferMovesIndex = true)
    (hfits : s.index.toNat + Block.total bs ≤ 4096) :
    s.Rewound (s.loadBlocks bs) (Block.total bs) := by
  induction bs using List.reverseRecOn with
  | nil => exact ⟨hrun, rfl, rfl, rfl⟩
  | append_singleton bs b ih =>
    rw [Block.total_concat] at hfits ⊢
    rw [loadBlocks_concat]
    exact (ih (by omega)).loadBlock hmoves hfits

/-- With the index back at the start of a stream, each block comes back in its turn. -/
theorem restored_loadBlocks (hrun : s.faulted = false)
    (hmoves : s.dialect.transferMovesIndex = true)
    (hstream : s.memory.HoldsBytes s.index.toNat (Block.stream bs))
    (hfits : s.index.toNat + Block.total bs ≤ 4096) {as : List Block} (has : as ++ [b] <+: bs) :
    b.Restored (s.loadBlocks (as ++ [b])) := by
  have hle := Block.total_mono has
  rw [Block.total_concat] at hle
  have hpos := b.size_pos
  have hbefore : s.Rewound (s.loadBlocks as) (Block.total as) :=
    rewound_loadBlocks hrun hmoves (by omega)
  have hindex := hbefore.index
  have hbase : (s.loadBlocks as).base = s.index.toNat + (Block.stream as).length := by
    rw [base_of_lt (by omega), hindex, Block.length_stream]
  -- the block stands between those before it and those behind it
  have hbytes : (s.loadBlocks as).memory.HoldsBytes (s.loadBlocks as).base b.bytes := by
    obtain ⟨cs, rfl⟩ := has
    have hsplit : Block.stream (as ++ [b] ++ cs) =
        Block.stream as ++ (b.bytes ++ Block.stream cs) := by simp [Block.stream]
    rw [hsplit] at hstream
    rw [hbase, hbefore.memory]
    exact hstream.of_append_right.of_append_left
  rw [Block.length_stream] at hbase
  rw [loadBlocks_concat]
  exact restored_loadBlock hbefore.faulted (by omega) hbytes

/-! ## With an index that stays -/

/-- The machine `r` runs and has the index and the dialect of `m`. -/
structure Stayed (m r : Machine) : Prop where
  faulted : r.faulted = false
  dialect : r.dialect = m.dialect
  index : r.index = m.index

/-- An index that stays twice stays. -/
theorem Stayed.trans {t : Machine} (h : m.Stayed r) (h' : r.Stayed t) : m.Stayed t :=
  ⟨h'.faulted, h'.dialect.trans h.dialect, h'.index.trans h.index⟩

/-- Storing a block leaves the index where the dialect does not move it. -/
theorem stayed_storeBlock (hrun : m.faulted = false)
    (hstays : m.dialect.transferMovesIndex = false) (hfits : m.base + b.size ≤ 4096) :
    m.Stayed (m.storeBlock b) := by
  rw [storeBlock_eq hrun hfits]
  exact ⟨hrun, rfl, by simp [indexPast, hstays]⟩

/-- Loading a block leaves the index where the dialect does not move it. -/
theorem stayed_loadBlock (hrun : m.faulted = false)
    (hstays : m.dialect.transferMovesIndex = false) (hfits : m.base + b.size ≤ 4096) :
    m.Stayed (m.loadBlock b) := by
  rw [loadBlock_eq hrun hfits]
  exact ⟨hrun, rfl, by simp [indexPast, hstays]⟩

/-- A block that is loaded as soon as it is stored comes back, and the index stays. -/
theorem stayed_passBlock (hrun : m.faulted = false)
    (hstays : m.dialect.transferMovesIndex = false) (hfits : m.base + b.size ≤ 4096) :
    m.Stayed ((m.storeBlock b).loadBlock b) ∧ b.Restored ((m.storeBlock b).loadBlock b) := by
  have hstored := stayed_storeBlock hrun hstays hfits
  have hbase : (m.storeBlock b).base = m.base := by rw [base, base, hstored.index]
  have hfits' : (m.storeBlock b).base + b.size ≤ 4096 := by
    rw [hbase]
    exact hfits
  have hbytes : (m.storeBlock b).memory.HoldsBytes (m.storeBlock b).base b.bytes := by
    rw [hbase, storeBlock_eq hrun hfits]
    exact (m.memory.overlaid_write (by rw [b.length_bytes]; exact hfits)).inside
  exact ⟨hstored.trans (stayed_loadBlock hstored.faulted (by rw [hstored.dialect, hstays]) hfits'),
    restored_loadBlock hstored.faulted hfits' hbytes⟩

/-- Blocks that are stored and loaded in turn leave the index where the dialect does not move it. -/
theorem stayed_passBlocks (hrun : m.faulted = false)
    (hstays : m.dialect.transferMovesIndex = false)
    (hfits : ∀ b ∈ bs, m.base + b.size ≤ 4096) : m.Stayed (m.passBlocks bs) := by
  induction bs using List.reverseRecOn with
  | nil => exact ⟨hrun, rfl, rfl⟩
  | append_singleton bs b ih =>
    have hbefore := ih fun c hc => hfits c (by simp [hc])
    have hbase : (m.passBlocks bs).base = m.base := by rw [base, base, hbefore.index]
    have hlast := hfits b (by simp)
    rw [passBlocks_concat]
    exact hbefore.trans (stayed_passBlock hbefore.faulted (by rw [hbefore.dialect, hstays])
      (by rw [hbase]; exact hlast)).1

/-- Take blocks of registers, and a running machine with room for all of them from its index on, in
a dialect where transfers move the index. Storing one block after another never faults, leaves the
index behind their bytes, and these in memory one block behind the other, with every other byte as
before. With the index set back, loading one block after another over any registers never faults,
brings each block back in its turn and no other register, and leaves the index behind the bytes
again. In the other dialects no store and no load moves the index, and each block that is loaded as
soon as it is stored comes back. -/
theorem blocks_round_trip (hrun : m.faulted = false) (bs : List Block) :
    (m.dialect.transferMovesIndex = true → m.index.toNat + Block.total bs ≤ 4096 →
      (∀ as, as <+: bs → (m.storeBlocks as).faulted = false) ∧
      (m.storeBlocks bs).index.toNat = m.index.toNat + Block.total bs ∧
      m.memory.Overlaid (m.storeBlocks bs).memory m.index.toNat (Block.stream bs) ∧
      (∀ as b, as ++ [b] <+: bs →
        ({ m.storeBlocks bs with index := m.index }.loadBlocks (as ++ [b])).faulted = false ∧
        b.Restored ({ m.storeBlocks bs with index := m.index }.loadBlocks (as ++ [b]))) ∧
      ({ m.storeBlocks bs with index := m.index }.loadBlocks bs).index =
        (m.storeBlocks bs).index) ∧
    (m.dialect.transferMovesIndex = false → (∀ b ∈ bs, m.base + b.size ≤ 4096) →
      ∀ as b, as ++ [b] <+: bs →
        (((m.passBlocks as).storeBlock b).faulted = false ∧
          ((m.passBlocks as).storeBlock b).index = m.index) ∧
        (m.passBlocks (as ++ [b])).faulted = false ∧
        (m.passBlocks (as ++ [b])).index = m.index ∧
        b.Restored (m.passBlocks (as ++ [b]))) := by
  constructor
  · intro hmoves hfits
    have hroom : ∀ as, as <+: bs → m.index.toNat + Block.total as ≤ 4096 := by
      intro as has
      have hle := Block.total_mono has
      omega
    have hstored := streamed_storeBlocks hrun hmoves hfits
    have hindex := hstored.index
    rw [Block.length_stream] at hindex
    -- setting the index back leaves the latch and the dialect as the stores did
    have hrun' : ({ m.storeBlocks bs with index := m.index } : Machine).faulted = false :=
      hstored.faulted
    have hmoves' : (m.storeBlocks bs).dialect.transferMovesIndex = true := by
      rw [← hmoves, ← hstored.dialect]
    refine ⟨fun as has => (streamed_storeBlocks hrun hmoves (hroom as has)).faulted, hindex,
      hstored.memory, fun as b has => ⟨?_, ?_⟩, ?_⟩
    · exact (rewound_loadBlocks hrun' hmoves' (hroom _ has)).faulted
    · exact restored_loadBlocks hrun' hmoves' hstored.memory.inside hfits has
    · apply UInt16.toNat_inj.mp
      rw [(rewound_loadBlocks hrun' hmoves' hfits).index, hindex]
  · intro hstays hfits as b has
    obtain ⟨cs, rfl⟩ := has
    have hbefore : m.Stayed (m.passBlocks as) :=
      stayed_passBlocks hrun hstays fun c hc => hfits c (by simp [hc])
    have hstays' : (m.passBlocks as).dialect.transferMovesIndex = false := by
      rw [hbefore.dialect, hstays]
    have hfits' : (m.passBlocks as).base + b.size ≤ 4096 := by
      have hlast := hfits b (by simp)
      rw [base, hbefore.index]
      exact hlast
    have hstored := hbefore.trans (stayed_storeBlock hbefore.faulted hstays' hfits')
    obtain ⟨hpassed, hrestored⟩ := stayed_passBlock hbefore.faulted hstays' hfits'
    have hpassed' := hbefore.trans hpassed
    rw [passBlocks_concat]
    exact ⟨⟨hstored.faulted, hstored.index⟩, hpassed'.faulted, hpassed'.index, hrestored⟩

/-- A machine whose index stands seven bytes before the end of memory. -/
def sevenLeft (d : Dialect) : Machine := { powerOn ⟨0, 0⟩ d with index := 0xFF9 }

/-- A block of three registers and one of four. -/
def threeAndFour : List Block :=
  [⟨⟨2, by decide⟩, Vector.replicate 16 3, Vector.replicate 16 0xAA⟩,
    ⟨⟨3, by decide⟩, Vector.replicate 16 4, Vector.replicate 16 0xBB⟩]

/-- In a dialect where transfers move the index, the two blocks fill memory to its last byte, and
the second one comes back from there. In another one the second block is laid down over the first.
-/
theorem blocks_round_trip_sevenLeft :
    ((sevenLeft .cosmac).faulted = false ∧
      (sevenLeft .cosmac).dialect.transferMovesIndex = true ∧
      (sevenLeft .cosmac).index.toNat + Block.total threeAndFour ≤ 4096 ∧
      ((sevenLeft .cosmac).storeBlocks threeAndFour).index.toNat = 0x1000 ∧
      (sevenLeft .cosmac).memory.Overlaid ((sevenLeft .cosmac).storeBlocks threeAndFour).memory
        0xFF9 [3, 3, 3, 4, 4, 4, 4] ∧
      ({ (sevenLeft .cosmac).storeBlocks threeAndFour with index := 0xFF9 }.loadBlocks
        threeAndFour).reg 3 = 4 ∧
      ({ (sevenLeft .cosmac).storeBlocks threeAndFour with index := 0xFF9 }.loadBlocks
        threeAndFour).reg 4 = 0xBB) ∧
    ((sevenLeft .classic).faulted = false ∧
      (sevenLeft .classic).dialect.transferMovesIndex = false ∧
      (∀ b ∈ threeAndFour, (sevenLeft .classic).base + b.size ≤ 4096) ∧
      ((sevenLeft .classic).passBlocks threeAndFour).index = 0xFF9 ∧
      ((sevenLeft .classic).passBlocks threeAndFour).reg 3 = 4) := by
  have hrun : ∀ d, (sevenLeft d).faulted = false := fun _ => rfl
  have hfits : (sevenLeft .cosmac).index.toNat + Block.total threeAndFour ≤ 4096 := by decide
  have hsingle : ∀ b ∈ threeAndFour, (sevenLeft .classic).base + b.size ≤ 4096 := by decide
  obtain ⟨-, hindex, hstream, hback, -⟩ :=
    (blocks_round_trip (hrun .cosmac) threeAndFour).1 rfl hfits
  obtain ⟨-, hcome⟩ := hback (threeAndFour.take 1) _ (List.prefix_refl threeAndFour)
  obtain ⟨-, -, hstay, hcome'⟩ := (blocks_round_trip (hrun .classic) threeAndFour).2 rfl hsingle
    (threeAndFour.take 1) _ (List.prefix_refl threeAndFour)
  exact ⟨⟨hrun _, rfl, hfits, hindex, hstream, hcome 3, hcome 4⟩,
    ⟨hrun _, rfl, hsingle, hstay, hcome' 3⟩⟩

end Machine

end Chip8
