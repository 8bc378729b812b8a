import Chip8.Proofs.Changes
import Chip8.Proofs.FaultCauses
import Chip8.Proofs.WriteSets

/-!
# What an instruction reads of memory

Of all instructions only two read memory, apart from the word itself: `DXYN` the rows of its sprite
and `FX65` the bytes that it loads. `Machine.Reads m w a` says that the address `a` lies in the span
that the word `w` reads. Two machines that differ in memory only, and agree on that span, act alike:
`SameWrites` says that they differ in memory only afterwards, too, and that the same bytes were
stored at the same addresses. `reads_suffice` is the top. It speaks of every word and every machine,
so of spans that reach past the end of memory as well: the word is then refused on both machines.

An interpreter that moves whole arrays reads more than that. It gathers fifteen rows or sixteen lanes
for every transfer, clamped at the end of memory, and rolls back what turns out to be out of bounds.
`execute_eq_byLanes` says that it executes every word as the machine does.
-/

set_option autoImplicit false

namespace Chip8

namespace Machine

/-- The machine with another memory. -/
def withMemory (m : Machine) (t : Memory) : Machine := { m with memory := t }

/-- The address lies in the span that the word reads: the rows of a sprite, or the bytes that go
to registers. -/
def Reads (m : Machine) (w : Word) (a : Nat) : Prop :=
  w.toNat / 4096 = 0xD ∧ m.base ≤ a ∧ a < m.base + w.toNat % 16 ∨
  w.IsMisc 0x65 ∧ m.base ≤ a ∧ a < m.base + (w.toNat / 256 % 16 + 1)

/-- The machine `r` came from `m`, and `r'` from `m` with the memory `t`, by the same writes: they
agree in all but memory, and at each address either neither has stored a byte or both have stored
the same one. -/
def SameWrites (m : Machine) (t : Memory) (r r' : Machine) : Prop :=
  r' = r.withMemory r'.memory ∧
    ∃ stored : Nat → Option UInt8, ∀ a (ha : a < 4096),
      r.memory[a] = (stored a).getD m.memory[a] ∧ r'.memory[a] = (stored a).getD t[a]

variable {m r : Machine} {t : Memory} {w : Word}

/-- Nothing is stored by what leaves memory alone. -/
theorem SameWrites.of_kept (h : r.memory = m.memory) : m.SameWrites t r (r.withMemory t) := by
  refine ⟨rfl, fun _ => none, fun a ha => ⟨?_, rfl⟩⟩
  simp [h]

/-- The same bytes, written to two memories at the same place, are the same writes. -/
theorem SameWrites.of_write {base : Nat} {bytes : List UInt8}
    (h : r.memory = m.memory.write base bytes) :
    m.SameWrites t r (r.withMemory (t.write base bytes)) := by
  refine ⟨rfl, Memory.stored base bytes, fun a ha => ⟨?_, ?_⟩⟩
  · simp only [h]
    exact Memory.getElem_write _ _ _ ha
  · exact Memory.getElem_write _ _ _ ha

/-- Other bytes in memory have nothing to do with registers, keys and the program counter. -/
theorem aside_withMemory (t : Memory) : Aside (fun m => m.withMemory t) where
  v := fun _ => rfl
  keypad := fun _ => rfl
  lastKeypad := fun _ => rfl
  pc := fun _ => rfl
  setV := fun _ _ => rfl
  setPc := fun _ _ => rfl

end Machine

namespace Instruction

variable {m : Machine} {t : Memory} {w : Word} {i : Instruction}

/-- Whether an instruction faults does not depend on memory. -/
theorem fault?_withMemory (m : Machine) (t : Memory) (i : Instruction) :
    i.fault? (m.withMemory t) = i.fault? m := by
  cases i
  all_goals rfl

/-- With the same bytes in its span, an instruction has the same effect and stores the same bytes. -/
theorem effect_withMemory (hi : Names w i) (hf : i.fault? m = none)
    (h : ∀ a (ha : a < 4096), m.Reads w a → t[a] = m.memory[a]) :
    i.effect (m.withMemory t) = (i.effect m).withMemory (t.write m.base (i.stores m)) := by
  have haside := Machine.aside_withMemory t
  have hfits : ¬ 4096 < m.base + i.span := by
    rw [← fault?_eq_memory_iff, hf]
    exact nofun
  cases i
  case skip c => exact haside.skip m c
  case alu op x y => exact haside.writeOutcome m x _
  case waitKey x => exact haside.waitKey m x
  case draw x y n =>
    have hn : n.val = w.toNat % 16 := hi.2
    have hrows : t.slice m.base n = m.memory.slice m.base n := by
      apply Memory.slice_congr (Nat.le_of_not_lt hfits)
      intro a ha hle hlt
      exact h a ha (.inl ⟨hi.1.1.1, hle, hn ▸ hlt⟩)
    have hbase : (m.withMemory t).base = m.base := rfl
    simp only [effect, Machine.draw, hbase]
    simp only [Machine.withMemory, hrows]
    rfl
  case load x =>
    have hx : x.val = w.toNat / 256 % 16 := hi.1.2
    have hbytes : t.slice m.base (x + 1) = m.memory.slice m.base (x + 1) := by
      apply Memory.slice_congr (Nat.le_of_not_lt hfits)
      intro a ha hle hlt
      exact h a ha (.inr ⟨⟨hi.1.1, hi.2⟩, hle, hx ▸ hlt⟩)
    have hbase : (m.withMemory t).base = m.base := rfl
    simp only [effect, Machine.moveIndex_eq, hbase]
    simp only [Machine.withMemory, hbytes]
    rfl
  case store x =>
    rw [effect, effect, Machine.moveIndex_eq, Machine.moveIndex_eq]
    rfl
  all_goals rfl

end Instruction

namespace Memory

/-- A word stands in every memory that has the same two bytes at its address. -/
theorem HoldsWord.congr {m t : Memory} {a : Nat} {w : Word} (h : m.HoldsWord a w)
    (hagree : ∀ b (hb : b < 4096), b = a ∨ b = a + 1 → t[b] = m[b]) : t.HoldsWord a w := by
  have hnext : a + 1 < 4096 := Nat.succ_lt_succ (Nat.lt_succ_of_le h.le)
  have hlt : a < 4096 := Nat.lt_of_succ_lt hnext
  obtain ⟨high, low, hhigh, hlow, hnum⟩ := h
  refine ⟨high, low, ?_, ?_, hnum⟩
  · rw [← hhigh, Vector.getElem?_eq_getElem hlt, Vector.getElem?_eq_getElem hlt,
      hagree a hlt (.inl rfl)]
  · rw [← hlow, Vector.getElem?_eq_getElem hnext, Vector.getElem?_eq_getElem hnext,
      hagree (a + 1) hnext (.inr rfl)]

end Memory

namespace Machine

variable {m : Machine} {t : Memory} {w : Word}

/-- Whether a word faults does not depend on what is in memory. -/
theorem fault?_withMemory (m : Machine) (t : Memory) (w : Word) :
    (m.withMemory t).fault? w = m.fault? w := by
  unfold fault?
  cases Instruction.decode w with
  | none => rfl
  | some i => exact i.fault?_withMemory m t

/-- A word makes the same writes to two memories that agree where it reads. -/
theorem execute_sameWrites (h : ∀ a (ha : a < 4096), m.Reads w a → t[a] = m.memory[a]) :
    m.SameWrites t (m.execute w) ((m.withMemory t).execute w) := by
  generalize hr : m.execute w = r
  cases executes_iff.mpr hr
  case halted hhalt =>
    have hother : (m.withMemory t).Executes w (m.withMemory t) := .halted hhalt
    rw [executes_iff.mp hother]
    exact .of_kept rfl
  case refused f hrun hf =>
    have hother : (m.withMemory t).Executes w ((m.trip f w).withMemory t) :=
      .refused hrun ((m.fault?_withMemory t w).trans hf)
    rw [executes_iff.mp hother]
    exact .of_kept rfl
  case done i hrun hi hf =>
    have hother : (m.withMemory t).Executes w (i.effect (m.withMemory t)) :=
      .done hrun hi ((i.fault?_withMemory m t).trans hf)
    rw [executes_iff.mp hother,
      Instruction.effect_withMemory (Instruction.decode_eq_some_iff.mp hi) hf h]
    exact .of_write (Instruction.effect_memory m i)

/-- A step makes the same writes to two memories that agree on the next word and where it reads. -/
theorem step_sameWrites
    (h : ∀ a (ha : a < 4096), (a = m.pc.toNat ∨ a = m.pc.toNat + 1 ∨
      ∃ w, m.memory.HoldsWord m.pc.toNat w ∧ m.Reads w a) → t[a] = m.memory[a]) :
    m.SameWrites t m.step (m.withMemory t).step := by
  have hfetched : ∀ w, m.memory.HoldsWord m.pc.toNat w → t.HoldsWord m.pc.toNat w := by
    intro w hw
    apply hw.congr
    intro b hb hor
    exact h b hb (hor.imp_right .inl)
  generalize hr : m.step = r
  cases steps_iff.mpr hr
  case halted hhalt =>
    have hother : (m.withMemory t).Steps (m.withMemory t) := .halted hhalt
    rw [steps_iff.mp hother]
    exact .of_kept rfl
  case pastEnd hrun hpc =>
    have hother : (m.withMemory t).Steps ((m.trip .memory 0).withMemory t) := .pastEnd hrun hpc
    rw [steps_iff.mp hother]
    exact .of_kept rfl
  case refused w f hrun hpc hw hf =>
    have hother : (m.withMemory t).Steps ((m.trip f w).withMemory t) :=
      .refused hrun hpc (hfetched w hw) ((m.fault?_withMemory t w).trans hf)
    rw [steps_iff.mp hother]
    exact .of_kept rfl
  case done w i hrun hpc hw hi hf =>
    have hother : (m.withMemory t).Steps
        ((i.effect (m.fetch.2.withMemory t)).remember m.keypad) :=
      .done hrun hpc (hfetched w hw) hi ((i.fault?_withMemory m t).trans hf)
    rw [← Instruction.fault?_fetch] at hf
    have heffect := Instruction.effect_withMemory (m := m.fetch.2) (t := t)
      (Instruction.decode_eq_some_iff.mp hi) hf
      (fun a ha hreads => h a ha (.inr (.inr ⟨w, hw, hreads⟩)))
    rw [steps_iff.mp hother, heffect]
    exact .of_write (Instruction.effect_memory m.fetch.2 i)

/-- The full result of a word as whole arrays have it, with the fault that it raises flagged. -/
def flaggedByLanes (m : Machine) (w : Word) : Machine :=
  match Instruction.decode w with
  | none => { m with fault := Fault.decode.code }
  | some i =>
    match i.fault? m with
    | none => i.effectByLanes m
    | some f => { i.effectByLanes m with fault := f.code }

/-- Moving whole arrays and rolling back comes to the same as moving the span and checking first. -/
theorem execute_eq_byLanes (m : Machine) (w : Word) :
    m.execute w = m.commit (m.flaggedByLanes w) w := by
  have hflagged : m.flaggedByLanes w = m.flagged w := by
    unfold flaggedByLanes flagged
    cases Instruction.decode w with
    | none => rfl
    | some i =>
      cases hf : i.fault? m with
      | none => simp only [hf, i.effectByLanes_eq m]
      | some f => simp only [hf, i.effectByLanes_eq m]
  rw [execute_eq_commit, hflagged]

/-- Let two machines differ in memory only. When their memories agree on the span that a word reads
(the rows of a sprite for `DXYN`, the bytes that are loaded for `FX65`, nothing for any other word),
executing the word makes them differ in memory only, in faults and the latched word they agree, and
at each address either both keep their byte or both store the same one. The same goes for a step when
they agree on the two bytes at the program counter as well. Gathering fifteen rows or sixteen lanes
from the index, clamped at the end of memory, makes no difference to any of this. -/
theorem reads_suffice (m : Machine) (t : Memory) :
    (∀ n : Int, (∀ a (ha : a < 4096), m.Reads (Word.ofInt n) a → t[a] = m.memory[a]) →
      m.SameWrites t (m.executeInt n) ((m.withMemory t).executeInt n)) ∧
    ((∀ a (ha : a < 4096), (a = m.pc.toNat ∨ a = m.pc.toNat + 1 ∨
        ∃ w, m.memory.HoldsWord m.pc.toNat w ∧ m.Reads w a) → t[a] = m.memory[a]) →
      m.SameWrites t m.step (m.withMemory t).step) ∧
    (∀ w, m.execute w = m.commit (m.flaggedByLanes w) w) := by
  refine ⟨fun n h => ?_, step_sameWrites, m.execute_eq_byLanes⟩
  exact execute_sameWrites h

/-- A machine in front of `F265` whose index stands three bytes before the end of memory. -/
def loadingLast : Machine := { bare [0xF2, 0x65] with index := 0xFFD }

/-- Its memory with another byte in front of the three. -/
def otherMemory : Memory := loadingLast.memory.set 0xFFC 9

/-- The byte is in no lane that counts: executing the word on the other memory, and stepping to it,
loads the same registers and stores nothing, while sixteen lanes would reach past the end. -/
theorem reads_suffice_loadingLast :
    (∀ a (ha : a < 4096), loadingLast.Reads (Word.ofInt 0xF265) a →
      otherMemory[a] = loadingLast.memory[a]) ∧
    loadingLast.SameWrites otherMemory (loadingLast.executeInt 0xF265)
      ((loadingLast.withMemory otherMemory).executeInt 0xF265) ∧
    (∀ a (ha : a < 4096), (a = loadingLast.pc.toNat ∨ a = loadingLast.pc.toNat + 1 ∨
      ∃ w, loadingLast.memory.HoldsWord loadingLast.pc.toNat w ∧ loadingLast.Reads w a) →
        otherMemory[a] = loadingLast.memory[a]) ∧
    loadingLast.SameWrites otherMemory loadingLast.step (loadingLast.withMemory otherMemory).step ∧
    loadingLast.execute 0xF265 = loadingLast.commit (loadingLast.flaggedByLanes 0xF265) 0xF265 := by
  have hbase : loadingLast.base = 0xFFD := by decide
  have hpc : loadingLast.pc.toNat = 0x200 := by decide
  have hother : ∀ a (ha : a < 4096), a ≠ 0xFFC → otherMemory[a] = loadingLast.memory[a] := by
    intro a ha hne
    exact Vector.getElem_set_ne (by decide) ha hne.symm
  have hreads : ∀ w a, loadingLast.Reads w a → a ≠ 0xFFC := by
    rintro w a (⟨-, hle, -⟩ | ⟨-, hle, -⟩)
    all_goals omega
  have hexecute : ∀ a (ha : a < 4096), loadingLast.Reads (Word.ofInt 0xF265) a →
      otherMemory[a] = loadingLast.memory[a] := by
    intro a ha h
    exact hother a ha (hreads _ a h)
  have hstep : ∀ a (ha : a < 4096), (a = loadingLast.pc.toNat ∨ a = loadingLast.pc.toNat + 1 ∨
      ∃ w, loadingLast.memory.HoldsWord loadingLast.pc.toNat w ∧ loadingLast.Reads w a) →
        otherMemory[a] = loadingLast.memory[a] := by
    rintro a ha (h | h | ⟨w, -, h⟩)
    · exact hother a ha (by omega)
    · exact hother a ha (by omega)
    · exact hother a ha (hreads w a h)
  obtain ⟨hexecutes, hsteps, hlanes⟩ := reads_suffice loadingLast otherMemory
  exact ⟨hexecute, hexecutes 0xF265 hexecute, hstep, hsteps hstep, hlanes 0xF265⟩

end Machine

end Chip8
