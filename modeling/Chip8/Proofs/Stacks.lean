import Chip8.Proofs.Words
import Chip8.CallStack

/-!
# The call stack as a list

`CallStack.Holds s xs` says that the stack `s` holds the addresses `xs`, from the bottom to the
top, with every free slot cleared. A push appends to the list, a pop takes its last entry, and
the list determines the stack. Arguments about return addresses are arguments about lists after
that; slots and the pointer do not occur in them.
-/

set_option autoImplicit false

namespace Chip8.CallStack

/-- The stack `s` holds the addresses `xs` from the bottom to the top, and all else is zero. -/
structure Holds (s : CallStack) (xs : List UInt16) : Prop where
  length_le : xs.length ≤ 16
  pointer_eq : s.pointer.toNat = xs.length
  slots_eq : ∀ k (hk : k < 16), s.slots[k] = xs.getD k 0

/-- An empty stack holds no addresses. -/
theorem holds_empty : empty.Holds [] where
  length_le := Nat.zero_le _
  pointer_eq := rfl
  slots_eq := by
    intro k hk
    rw [List.getD_nil]
    exact Vector.getElem_replicate hk

/-- A stack whose slots are zero from the pointer on holds those below the pointer. -/
theorem holds_take {s : CallStack} (hle : s.pointer.toNat ≤ 16)
    (hzero : ∀ k (hk : k < 16), s.pointer.toNat ≤ k → s.slots[k] = 0) :
    s.Holds (s.slots.toList.take s.pointer.toNat) where
  length_le := by simp
  pointer_eq := by simp [hle]
  slots_eq := by
    intro k hk
    by_cases hlt : k < s.pointer.toNat
    · simp [List.getD_eq_getElem?_getD, List.getElem?_take_of_lt hlt, hk]
    · rw [hzero k hk (Nat.le_of_not_lt hlt)]
      simp [List.getD_eq_getElem?_getD, hlt]

/-- A slot inside the stack is read as it stands. -/
theorem slot_eq (s : CallStack) {k : Nat} (hk : k < 16) : s.slot k = s.slots[k] := by
  have hmin : min k (stackSize - 1) = k := Nat.min_eq_left (Nat.le_of_lt_succ hk)
  simp only [slot, Vector.get_eq_getElem, hmin]

/-- Appending an address changes the entry behind the last one only. -/
theorem getD_append_singleton (xs : List UInt16) (a : UInt16) (k : Nat) :
    (xs ++ [a]).getD k 0 = if xs.length = k then a else xs.getD k 0 := by
  split
  · rename_i heq
    subst heq
    simp
  · rename_i hne
    rcases Nat.lt_or_gt_of_ne hne with hlt | hlt
    · have hlong : (xs ++ [a]).length ≤ k := by simpa using hlt
      rw [List.getD_eq_default _ _ hlong, List.getD_eq_default _ _ (Nat.le_of_lt hlt)]
    · simp [List.getD_eq_getElem?_getD, List.getElem?_append_left hlt]

/-- Below a pointer that is not zero there is a slot. -/
theorem toNat_pred {p : UInt8} (h : p ≠ 0) : (p - 1).toNat + 1 = p.toNat := by
  have hpos : 0 < p.toNat := by
    rw [Nat.pos_iff_ne_zero]
    exact fun hzero => h (UInt8.toNat_inj.mp hzero)
  have hle : (1 : UInt8) ≤ p := by
    rw [UInt8.le_iff_toNat_le, UInt8.toNat_one]
    exact hpos
  rw [UInt8.toNat_sub_of_le _ _ hle, UInt8.toNat_one]
  exact Nat.succ_pred_eq_of_pos hpos

/-- A write to a slot inside the stack is a write to the vector of slots. -/
theorem setIfInBounds_eq_set {s : CallStack} {k : Nat} (h : k < 16) (a : UInt16) :
    s.slots.setIfInBounds k a = s.slots.set k a h := by
  apply Vector.ext
  intro j hj
  rw [Vector.getElem_setIfInBounds hj, Vector.getElem_set h hj]

namespace Holds

variable {s t : CallStack} {xs : List UInt16} {a : UInt16}

/-- The list determines the stack. -/
theorem unique (hs : s.Holds xs) (ht : t.Holds xs) : s = t := by
  have hslots : s.slots = t.slots := by
    apply Vector.ext
    intro k hk
    rw [hs.slots_eq k hk, ht.slots_eq k hk]
  have hpointer : s.pointer = t.pointer :=
    UInt8.toNat_inj.mp (hs.pointer_eq.trans ht.pointer_eq.symm)
  cases s
  cases t
  simp_all

/-- The slots from the pointer on are clear. -/
theorem slot_eq_zero (h : s.Holds xs) {k : Nat} (hk : k < 16) (hle : s.pointer.toNat ≤ k) :
    s.slots[k] = 0 := by
  rw [h.pointer_eq] at hle
  rw [h.slots_eq k hk, List.getD_eq_default _ _ hle]

/-- A slot holds an entry of the list or zero. -/
theorem slot_mem_or (h : s.Holds xs) {k : Nat} (hk : k < 16) :
    s.slots[k] ∈ xs ∨ s.slots[k] = 0 := by
  rw [h.slots_eq k hk]
  by_cases hlt : k < xs.length
  · rw [List.getD_eq_getElem _ _ hlt]
    exact .inl (List.getElem_mem hlt)
  · rw [List.getD_eq_default _ _ (Nat.le_of_not_lt hlt)]
    exact .inr rfl

/-- A stack is full that holds sixteen addresses. -/
theorem isFull_iff (h : s.Holds xs) : s.isFull = true ↔ xs.length = 16 := by
  have hle := h.length_le
  have hfull : s.isFull = true ↔ 16 ≤ s.pointer.toNat := decide_eq_true_iff
  rw [hfull, h.pointer_eq]
  omega

/-- The pointer is at zero exactly when the stack holds nothing. -/
theorem pointer_eq_zero_iff (h : s.Holds xs) : s.pointer = 0 ↔ xs = [] := by
  rw [← UInt8.toNat_inj, h.pointer_eq, ← List.length_eq_zero_iff]
  rfl

/-- A push appends its address. -/
theorem push (h : s.Holds xs) (hlt : xs.length < 16) (a : UInt16) :
    ∃ t, s.push? a = some t ∧ t.Holds (xs ++ [a]) := by
  have hptr := h.pointer_eq
  have hfull : ¬ s.isFull = true := by
    rw [h.isFull_iff]
    omega
  unfold push?
  rw [if_neg hfull]
  refine ⟨_, rfl, ?_, ?_, ?_⟩
  · simp only [List.length_append, List.length_singleton]
    omega
  · simp only [UInt8.toNat_add, UInt8.toNat_one, List.length_append, List.length_singleton]
    omega
  · intro k hk
    rw [Vector.getElem_setIfInBounds hk, hptr, getD_append_singleton, h.slots_eq k hk]

/-- A pop from a stack that is not empty takes the last address. -/
theorem pop (h : s.Holds (xs ++ [a])) :
    s.pop.underflow = false ∧ s.pop.address = a ∧ s.pop.rest.Holds xs := by
  have hlen := h.length_le
  have hptr := h.pointer_eq
  simp only [List.length_append, List.length_singleton] at hlen hptr
  have hne : s.pointer ≠ 0 := by
    rw [ne_eq, h.pointer_eq_zero_iff]
    simp
  have htop : (s.pointer - 1).toNat = xs.length := by
    have hpred := toNat_pred hne
    omega
  simp only [CallStack.pop, if_neg hne]
  refine ⟨decide_eq_false hne, ?_, ?_, htop, ?_⟩
  · rw [htop, s.slot_eq (by omega), h.slots_eq _ (by omega), getD_append_singleton, if_pos rfl]
  · omega
  · -- the slot of the address taken is cleared, and the list has nothing there either
    intro k hk
    rw [Vector.getElem_setIfInBounds hk, htop, h.slots_eq k hk, getD_append_singleton]
    split
    · rename_i heq
      rw [List.getD_eq_default _ _ (Nat.le_of_eq heq)]
    · rfl

end Holds

end Chip8.CallStack
