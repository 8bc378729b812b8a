import Chip8.Proofs.FaultCauses
import Chip8.Proofs.WriteSets

/-!
# Transfers from the index on

`FX33`, `FX55` and `FX65` move bytes between the registers and memory, from the address that the low
twelve bits of the index stand for. What they leave of memory is said by `Memory.Overlaid`: a block
of bytes in its place and every other byte as before. `execute_transfers` is their whole effect, up
to the last byte of memory and for an index of any size, and what becomes of a span that reaches
past the end.
-/

set_option autoImplicit false

namespace Chip8

namespace Memory

/-- The bytes stand in memory from `base` on. -/
def HoldsBytes (t : Memory) (base : Nat) (bytes : List UInt8) : Prop :=
  ∀ j (hj : j < bytes.length), t[base + j]? = some bytes[j]

/-- The memory `t` holds `bytes` from `base` on, and is `m` everywhere else. -/
structure Overlaid (m t : Memory) (base : Nat) (bytes : List UInt8) : Prop where
  inside : t.HoldsBytes base bytes
  outside : ∀ a (ha : a < 4096), a < base ∨ base + bytes.length ≤ a → t[a] = m[a]

/-- A write that ends inside of memory lays its bytes over it. -/
theorem overlaid_write (m : Memory) {base : Nat} {bytes : List UInt8}
    (h : base + bytes.length ≤ 4096) : m.Overlaid (m.write base bytes) base bytes where
  inside := by
    intro j hj
    have hlt : base + j < 4096 := by omega
    rw [Vector.getElem?_eq_getElem hlt, getElem_write _ _ _ hlt,
      stored_of_le (Nat.le_add_right base j), Nat.add_sub_cancel_left,
      List.getElem?_eq_getElem hj, Option.getD_some]
  outside := by
    intro a ha hout
    rw [getElem_write _ _ _ ha]
    rcases hout with hlt | hle
    · rw [stored_of_lt hlt, Option.getD_none]
    · rw [stored_of_ge hle, Option.getD_none]

end Memory

namespace Instruction

/-- The instructions that move bytes between the registers and memory. -/
def isTransfer : Instruction → Bool
  | decimal _ | store _ | load _ => true
  | _ => false

variable {m : Machine} {i : Instruction}

/-- A transfer faults exactly if its span does not fit into memory. -/
theorem fault?_of_isTransfer (hi : i.isTransfer = true) :
    i.fault? m = if m.base + i.span ≤ 4096 then none else some .memory := by
  have hfits : (Memory.fits m.base i.span = true) = (m.base + i.span ≤ 4096) := decide_eq_true_eq
  cases i
  case decimal | store | load => simp only [fault?, hfits]
  all_goals cases hi

/-- What a transfer moves depends on the address that the index stands for only. -/
theorem effect_index (hi : i.isTransfer = true) {a : UInt16}
    (ha : a.toNat % 4096 = m.index.toNat % 4096) :
    (i.effect { m with index := a }).memory = (i.effect m).memory ∧
      (i.effect { m with index := a }).v = (i.effect m).v := by
  have hbase : ({ m with index := a } : Machine).base = m.base := ha
  constructor
  · simp only [effect_memory, hbase]
    cases i
    case decimal | store | load => rfl
    all_goals cases hi
  · cases i
    case decimal => rfl
    case store | load => simp only [effect, Machine.moveIndex_eq, Machine.writeMemory, hbase]
    all_goals cases hi

end Instruction

/-- The decimal digits of a byte are digits and write its value. -/
theorem decimalDigits_eq (b : UInt8) :
    ∃ d₂ d₁ d₀ : UInt8, decimalDigits b = [d₂, d₁, d₀] ∧
      d₂.toNat ≤ 9 ∧ d₁.toNat ≤ 9 ∧ d₀.toNat ≤ 9 ∧
      100 * d₂.toNat + 10 * d₁.toNat + d₀.toNat = b.toNat := by
  have hb := b.toNat_lt
  refine ⟨_, _, _, rfl, ?_⟩
  simp only [UInt8.toNat_div, UInt8.toNat_mod, UInt8.reduceToNat]
  omega

namespace Machine

variable {m : Machine} {w : Word} {i : Instruction} {x : Nibble}

/-- An index inside of memory is not masked. -/
theorem base_of_lt (h : m.index.toNat < 4096) : m.base = m.index.toNat := Nat.mod_eq_of_lt h

/-- The index behind a transfer of `count` bytes. -/
def indexPast (m : Machine) (count : Nat) : UInt16 :=
  if m.dialect.transferMovesIndex then m.index + UInt16.ofNat count else m.index

/-- The index moves past a transfer modulo `2^16` where the dialect moves it. -/
theorem toNat_indexPast (m : Machine) {count : Nat} (h : count < 65536) :
    (m.indexPast count).toNat =
      if m.dialect.transferMovesIndex then (m.index.toNat + count) % 65536
      else m.index.toNat := by
  unfold indexPast
  split
  · rw [UInt16.toNat_add, UInt16.toNat_ofNat_of_lt' h]
  · rfl

/-- A running machine carries a transfer out or latches the memory fault. -/
theorem execute_transfer (hrun : m.faulted = false) (hw : Instruction.Names w i)
    (hi : i.isTransfer = true) :
    m.execute w = if m.base + i.span ≤ 4096 then i.effect m else m.trip .memory w := by
  have hfault := Instruction.fault?_of_isTransfer (m := m) hi
  split
  · rename_i hfits
    rw [if_pos hfits] at hfault
    exact execute_of_names hrun hw hfault
  · rename_i hout
    rw [if_neg hout, ← fault?_of_decode (Instruction.decode_of_names hw)] at hfault
    exact executes_iff.mp (.refused hrun hfault)

/-- `FX33` stores three decimal digits from the masked index on and does nothing else. -/
theorem execute_decimal (hrun : m.faulted = false) (hw : Instruction.Names w (.decimal x))
    (hfits : m.base + 3 ≤ 4096) :
    m.execute w = { m with memory := m.memory.write m.base (decimalDigits (m.reg x)) } :=
  (execute_transfer hrun hw rfl).trans (if_pos hfits)

/-- `FX55` stores the registers up to `VX` from the masked index on and moves the index where the
dialect does. -/
theorem execute_store (hrun : m.faulted = false) (hw : Instruction.Names w (.store x))
    (hfits : m.base + (x + 1) ≤ 4096) :
    m.execute w =
      { m with
        memory := m.memory.write m.base (m.v.toList.take (x + 1))
        index := m.indexPast (x + 1) } := by
  rw [execute_transfer hrun hw rfl, Instruction.span, if_pos hfits, Instruction.effect,
    moveIndex_eq]
  rfl

/-- `FX65` loads the registers up to `VX` from the masked index on and moves the index where the
dialect does. -/
theorem execute_load (hrun : m.faulted = false) (hw : Instruction.Names w (.load x))
    (hfits : m.base + (x + 1) ≤ 4096) :
    m.execute w =
      { m with
        v := loadRegisters m.v (m.memory.slice m.base (x + 1))
        index := m.indexPast (x + 1) } := by
  rw [execute_transfer hrun hw rfl, Instruction.span, if_pos hfits, Instruction.effect,
    moveIndex_eq]
  rfl

/-- A register that is loaded takes its byte, and the others keep theirs. -/
theorem reg_loadRegisters (v : Registers) (bytes : List UInt8) (k : Nibble) :
    (loadRegisters v bytes).get k = (bytes[k.val]?).getD (v.get k) := by
  simp [loadRegisters, Vector.get_eq_getElem, List.getD_eq_getElem?_getD]

/-- Let a running machine execute `FX33`, `FX55` or `FX65`, and let `b` be the low twelve bits of
its index. When the span from `b` on lies inside memory, `FX33` stores three decimal digits that
write `VX`, `FX55` the registers up to `VX`, and `FX65` loads these; no other byte and no other
register changes, and nothing else but the index, which the latter two move past the span in
dialects that do so. When the span does not fit, the memory fault is latched and nothing else
changes. An index with the same low twelve bits moves the same bytes. -/
theorem execute_transfers (hrun : m.faulted = false) {b : Nat}
    (hb : (m.index &&& 0xFFF).toNat = b) :
    (∀ w x, Instruction.Names w (.decimal x) → b + 3 ≤ 4096 →
      (m.execute w).faulted = false ∧
      m.execute w = { m with memory := (m.execute w).memory } ∧
      ∃ d₂ d₁ d₀ : UInt8, d₂.toNat ≤ 9 ∧ d₁.toNat ≤ 9 ∧ d₀.toNat ≤ 9 ∧
        100 * d₂.toNat + 10 * d₁.toNat + d₀.toNat = (m.reg x).toNat ∧
        m.memory.Overlaid (m.execute w).memory b [d₂, d₁, d₀]) ∧
    (∀ w x, Instruction.Names w (.store x) → b + (x + 1) ≤ 4096 →
      (m.execute w).faulted = false ∧
      m.execute w =
        { m with memory := (m.execute w).memory, index := (m.execute w).index } ∧
      ((m.execute w).index.toNat =
        if m.dialect.transferMovesIndex then (m.index.toNat + (x + 1)) % 65536
        else m.index.toNat) ∧
      m.memory.Overlaid (m.execute w).memory b (m.v.toList.take (x + 1))) ∧
    (∀ w x, Instruction.Names w (.load x) → b + (x + 1) ≤ 4096 →
      (m.execute w).faulted = false ∧
      m.execute w = { m with v := (m.execute w).v, index := (m.execute w).index } ∧
      ((m.execute w).index.toNat =
        if m.dialect.transferMovesIndex then (m.index.toNat + (x + 1)) % 65536
        else m.index.toNat) ∧
      (∀ k, k ≤ x → m.memory[b + k.val]? = some ((m.execute w).reg k)) ∧
      (∀ k, x < k → (m.execute w).reg k = m.reg k)) ∧
    (∀ w i, Instruction.Names w i → i.isTransfer = true →
      (4096 < b + i.span →
        (m.execute w).fault = 4 ∧ (m.execute w).faultWord = w ∧ m.SameButLatch (m.execute w)) ∧
      ∀ a : UInt16, a.toNat % 4096 = m.index.toNat % 4096 →
        ({ m with index := a }.execute w).memory = (m.execute w).memory ∧
        ({ m with index := a }.execute w).v = (m.execute w).v) := by
  rw [← base_eq] at hb
  subst hb
  refine ⟨?_, ?_, ?_, fun w i hw hi => ⟨fun hout => ?_, fun a ha => ?_⟩⟩
  · intro w x hw hfits
    obtain ⟨d₂, d₁, d₀, hdigits, h₂, h₁, h₀, hsum⟩ := decimalDigits_eq (m.reg x)
    rw [execute_decimal hrun hw hfits, hdigits]
    exact ⟨hrun, rfl, d₂, d₁, d₀, h₂, h₁, h₀, hsum, m.memory.overlaid_write hfits⟩
  · intro w x hw hfits
    -- the index takes a span of at most sixteen
    have hx := x.isLt
    have hlen : (m.v.toList.take (x + 1)).length = x + 1 := by simp
    rw [execute_store hrun hw hfits]
    exact ⟨hrun, rfl, m.toNat_indexPast (by omega),
      m.memory.overlaid_write (by rw [hlen]; exact hfits)⟩
  · intro w x hw hfits
    have hx := x.isLt
    rw [execute_load hrun hw hfits]
    refine ⟨hrun, rfl, m.toNat_indexPast (by omega), fun k hk => ?_, fun k hk => ?_⟩
    · have hk' : k.val < x + 1 := Nat.lt_succ_of_le hk
      rw [Memory.read_eq_some _ (by omega), reg, reg_loadRegisters, Memory.getElem?_slice,
        if_pos hk', Option.getD_some]
    · have hk' : ¬ k.val < x + 1 := Nat.not_lt.mpr hk
      rw [reg, reg_loadRegisters, Memory.getElem?_slice, if_neg hk', Option.getD_none, reg]
  · rw [execute_transfer hrun hw hi, if_neg (Nat.not_le.mpr hout)]
    exact ⟨rfl, rfl, m.sameButLatch_trip _ _⟩
  · have hbase : ({ m with index := a } : Machine).base = m.base := ha
    rw [execute_transfer hrun hw hi, execute_transfer (m := { m with index := a }) hrun hw hi,
      hbase]
    split
    · exact Instruction.effect_index hi ha
    · exact ⟨rfl, rfl⟩

/-- A machine whose index stands three bytes before its own end, which is three bytes before the end
of memory too, in a dialect where transfers move it. -/
def lastThree : Machine :=
  { powerOn ⟨0, 0⟩ .cosmac with index := 0xFFFD, v := Vector.ofFn fun k => .ofNat (k.val + 250) }

/-- `F433` stores 2, 5 and 4 in the last bytes of memory. `F255` stores three registers there and
takes the index around to zero, and `F365` asks for a byte too many. -/
theorem execute_transfers_lastThree :
    lastThree.faulted = false ∧ (lastThree.index &&& 0xFFF).toNat = 0xFFD ∧
      (Instruction.Names 0xF433 (.decimal 4) ∧
        lastThree.memory.Overlaid (lastThree.execute 0xF433).memory 0xFFD [2, 5, 4]) ∧
      (Instruction.Names 0xF255 (.store 2) ∧
        lastThree.memory.Overlaid (lastThree.execute 0xF255).memory 0xFFD [250, 251, 252] ∧
        (lastThree.execute 0xF255).index.toNat = 0) ∧
      (Instruction.Names 0xF265 (.load 2) ∧ (lastThree.execute 0xF265).reg 2 = 0 ∧
        (lastThree.execute 0xF265).reg 3 = lastThree.reg 3) ∧
      (Instruction.Names 0xF365 (.load 3) ∧ (lastThree.execute 0xF365).fault = 4) ∧
      ({ lastThree with index := 0x1FFD }.execute 0xF255).memory =
        (lastThree.execute 0xF255).memory := by
  have hrun : lastThree.faulted = false := rfl
  have hbase : (lastThree.index &&& 0xFFF).toNat = 0xFFD := by decide
  have hdecimal : Instruction.Names 0xF433 (.decimal 4) := ⟨⟨rfl, rfl⟩, rfl⟩
  have hstore : Instruction.Names 0xF255 (.store 2) := ⟨⟨rfl, rfl⟩, rfl⟩
  have hload : Instruction.Names 0xF265 (.load 2) := ⟨⟨rfl, rfl⟩, rfl⟩
  have hlong : Instruction.Names 0xF365 (.load 3) := ⟨⟨rfl, rfl⟩, rfl⟩
  obtain ⟨hdecimals, hstores, hloads, hall⟩ := execute_transfers hrun hbase
  obtain ⟨-, -, d₂, d₁, d₀, h₂, h₁, h₀, hsum, hdigits⟩ := hdecimals _ _ hdecimal (by decide)
  obtain ⟨-, -, hindex, hstored⟩ := hstores _ _ hstore (by decide)
  obtain ⟨-, -, -, hloaded, hkept⟩ := hloads _ _ hload (by decide)
  have hvalue : (lastThree.reg 4).toNat = 254 := by decide
  obtain rfl : d₂ = 2 := UInt8.toNat_inj.mp (by simp only [UInt8.reduceToNat]; omega)
  obtain rfl : d₁ = 5 := UInt8.toNat_inj.mp (by simp only [UInt8.reduceToNat] at *; omega)
  obtain rfl : d₀ = 4 := UInt8.toNat_inj.mp (by simp only [UInt8.reduceToNat] at *; omega)
  have hlast : lastThree.memory[0xFFF]? = some 0 := by decide +kernel
  refine ⟨hrun, hbase, ⟨hdecimal, hdigits⟩, ⟨hstore, hstored, hindex⟩,
    ⟨hload, Option.some.inj ((hloaded 2 (by decide)).symm.trans hlast), hkept 3 (by decide)⟩,
    ⟨hlong, ((hall _ _ hlong rfl).1 (by decide)).1⟩, ((hall _ _ hstore rfl).2 0x1FFD rfl).1⟩

end Machine

end Chip8
