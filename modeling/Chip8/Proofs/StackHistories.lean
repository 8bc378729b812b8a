import Chip8.Proofs.Stacks

/-!
# The call stack under any operations

Pushes and pops in any order, as operations with answers. `CallStack.listed` carries them out on a
list of at most sixteen addresses, which is all that a call stack is meant to be; `CallStack.act`
carries them out on slots and a pointer. One operation keeps the slots and the list together and
gives the same answer (`Holds.act`), so a sequence of operations does (`Holds.follow`), and
`operations_follow_list` is this from the empty stack on.

A pop clears a slot even when there is nothing to take, and a push may work out a slot even when
none is free (`pushClamped`). That neither shows is due to the free slots being zero.
-/

set_option autoImplicit false

namespace Chip8.CallStack

/-- An operation on return addresses. -/
inductive Op where
  | push (address : UInt16)
  | pop
deriving DecidableEq, Repr

/-- What is reported of an operation. -/
inductive Answer where
  | pushed
  | popped (address : UInt16)
  | overflow
  | underflow
deriving DecidableEq, Repr

/-- Whether the operation could not be carried out. -/
def Answer.isError : Answer → Bool
  | overflow | underflow => true
  | _ => false

/-- An operation on the stack. -/
def act (s : CallStack) : Op → CallStack × Answer
  | .push a =>
    match s.push? a with
    | some t => (t, .pushed)
    | none => (s, .overflow)
  | .pop => (s.pop.rest, if s.pop.underflow then .underflow else .popped s.pop.address)

/-- An operation on a list of at most sixteen addresses, the last of them on top. -/
def listed (xs : List UInt16) : Op → List UInt16 × Answer
  | .push a => if xs.length < 16 then (xs ++ [a], .pushed) else (xs, .overflow)
  | .pop =>
    match xs.getLast? with
    | some a => (xs.dropLast, .popped a)
    | none => (xs, .underflow)

/-- Carries out operations one after another and collects the answers. -/
def follow {σ : Type} (act : σ → Op → σ × Answer) (s : σ) : List Op → σ × List Answer
  | [] => (s, [])
  | op :: ops =>
    let (t, answer) := act s op
    let (last, answers) := follow act t ops
    (last, answer :: answers)

/-- What a push answers that always works out a slot. -/
structure Pushed where
  overflow : Bool
  rest : CallStack

/-- A push that always writes, to the last slot if none is free, and then keeps the slots from
before if the stack was full. -/
def pushClamped (s : CallStack) (a : UInt16) : Pushed :=
  let written := s.slots.setIfInBounds (min s.pointer.toNat (stackSize - 1)) a
  { overflow := s.isFull
    rest :=
      { slots := if s.isFull then s.slots else written
        pointer := if s.isFull then s.pointer else s.pointer + 1 } }

/-- A push that writes first comes to the same as one that looks first. -/
theorem act_push_eq (s : CallStack) (a : UInt16) :
    s.act (.push a) =
      ((s.pushClamped a).rest, if (s.pushClamped a).overflow then .overflow else .pushed) := by
  unfold act push? pushClamped
  cases hfull : s.isFull with
  | true => rfl
  | false =>
    have hlt : s.pointer.toNat < 16 := by simpa [isFull] using hfull
    have hslot : min s.pointer.toNat (stackSize - 1) = s.pointer.toNat :=
      Nat.min_eq_left (Nat.le_of_lt_succ hlt)
    simp only [hslot, Bool.false_eq_true, if_false]

/-! ## The list -/

section

variable {xs : List UInt16} {a : UInt16} {op : Op}

/-- A push overflows exactly at sixteen addresses. -/
theorem listed_push_eq_overflow_iff (hle : xs.length ≤ 16) :
    (listed xs (.push a)).2 = .overflow ↔ xs.length = 16 := by
  simp only [listed]
  split
  · exact iff_of_false nofun (by omega)
  · exact iff_of_true rfl (by omega)

/-- A pop underflows exactly where there is no address. -/
theorem listed_pop_eq_underflow_iff : (listed xs .pop).2 = .underflow ↔ xs = [] := by
  rcases List.eq_nil_or_concat' xs with rfl | ⟨ys, a, rfl⟩
  · exact iff_of_true rfl rfl
  · simp [listed]

/-- An operation that errs leaves the addresses alone. -/
theorem listed_of_isError (h : (listed xs op).2.isError = true) : (listed xs op).1 = xs := by
  cases op with
  | push a =>
    by_cases hlt : xs.length < 16
    · simp [listed, hlt, Answer.isError] at h
    · simp only [listed, if_neg hlt]
  | pop =>
    cases hlast : xs.getLast? with
    | none => simp only [listed, hlast]
    | some a => simp [listed, hlast, Answer.isError] at h

end

/-! ## The stack and the list -/

namespace Holds

variable {s t : CallStack} {xs : List UInt16}

/-- A full stack reports the overflow and stays as it is. -/
theorem act_push_of_full (h : s.Holds xs) (hfull : xs.length = 16) (a : UInt16) :
    s.act (.push a) = (s, .overflow) := by
  have hnone : s.push? a = none := if_pos (h.isFull_iff.mpr hfull)
  simp only [act, hnone]

/-- An empty stack reports the underflow and stays as it is. -/
theorem act_pop_of_empty (h : s.Holds []) : s.act .pop = (s, .underflow) := by
  have hzero : s.pointer = 0 := h.pointer_eq_zero_iff.mpr rfl
  -- the first slot is cleared once more, and was zero
  have hrest : s.pop.rest.Holds [] := by
    simp only [CallStack.pop, if_pos hzero]
    refine ⟨h.length_le, rfl, fun k hk => ?_⟩
    rw [Vector.getElem_setIfInBounds hk, h.slots_eq k hk, List.getD_nil]
    exact ite_self 0
  have hunder : s.pop.underflow = true := decide_eq_true hzero
  simp only [act, hunder, if_true, hrest.unique h]

/-- One operation does to the stack what it does to the list, with the same answer. -/
theorem act (h : s.Holds xs) (op : Op) :
    (s.act op).1.Holds (listed xs op).1 ∧ (s.act op).2 = (listed xs op).2 := by
  cases op with
  | push a =>
    by_cases hlt : xs.length < 16
    · obtain ⟨t, ht, hholds⟩ := h.push hlt a
      rw [listed, if_pos hlt]
      simp only [CallStack.act, ht]
      exact ⟨hholds, trivial⟩
    · have hfull : xs.length = 16 := Nat.le_antisymm h.length_le (Nat.le_of_not_lt hlt)
      rw [h.act_push_of_full hfull, listed, if_neg hlt]
      exact ⟨h, rfl⟩
  | pop =>
    rcases List.eq_nil_or_concat' xs with rfl | ⟨ys, a, rfl⟩
    · rw [h.act_pop_of_empty]
      exact ⟨h, rfl⟩
    · obtain ⟨hunder, haddress, hrest⟩ := h.pop
      simp only [CallStack.act, hunder, haddress, listed, List.getLast?_concat,
        List.dropLast_concat]
      exact ⟨hrest, rfl⟩

/-- The stack answers a whole history as the list of addresses does, and holds that list at the
end. -/
theorem follow (h : s.Holds xs) (ops : List Op) :
    (follow CallStack.act s ops).1.Holds (CallStack.follow listed xs ops).1 ∧
      (CallStack.follow CallStack.act s ops).2 = (CallStack.follow listed xs ops).2 := by
  induction ops generalizing s xs with
  | nil => exact ⟨h, rfl⟩
  | cons op ops ih =>
    obtain ⟨hnext, hanswer⟩ := h.act op
    obtain ⟨hlast, hanswers⟩ := ih hnext
    exact ⟨hlast, congrArg₂ List.cons hanswer hanswers⟩

/-- What cannot be carried out leaves the stack as it is. -/
theorem act_of_isError (h : s.Holds xs) {op : Op} (herror : (s.act op).2.isError = true) :
    (s.act op).1 = s := by
  obtain ⟨hnext, hanswer⟩ := h.act op
  rw [hanswer] at herror
  rw [listed_of_isError herror] at hnext
  exact hnext.unique h

end Holds

/-- After any sequence of operations on the empty stack, the stack holds the list that the same
operations make of the empty list, and its free slots are zero; the answers are those of the list.
So an overflow is reported exactly for a push on sixteen addresses and an underflow exactly for a
pop from none. Either leaves the stack as it is, slots and pointer, and this also for a push that
always works out a slot and writes to it. -/
theorem operations_follow_list (ops : List Op) :
    let stack := (follow act empty ops).1
    let addresses := (follow listed [] ops).1
    stack.Holds addresses ∧
      (follow act empty ops).2 = (follow listed [] ops).2 ∧
      (∀ a, (stack.act (.push a)).2 = .overflow ↔ addresses.length = 16) ∧
      ((stack.act .pop).2 = .underflow ↔ addresses = []) ∧
      (∀ op, (stack.act op).2.isError = true → (stack.act op).1 = stack) ∧
      ∀ a, stack.act (.push a) =
        ((stack.pushClamped a).rest,
          if (stack.pushClamped a).overflow then .overflow else .pushed) := by
  intro stack addresses
  obtain ⟨hholds, hanswers⟩ := holds_empty.follow ops
  refine ⟨hholds, hanswers, fun a => ?_, ?_, fun op => hholds.act_of_isError, stack.act_push_eq⟩
  · rw [(hholds.act (.push a)).2]
    exact listed_push_eq_overflow_iff hholds.length_le
  · rw [(hholds.act .pop).2]
    exact listed_pop_eq_underflow_iff

/-- Seventeen pushes, a pop and a push again. -/
def overfull : List Op := (List.range 17).map (fun k => .push (.ofNat k)) ++ [.pop, .push 0xFFFF]

/-- The last of the seventeen addresses is refused, and the pop takes the one before it; the stack
is full again at the end, so another push is refused and leaves it as it is. -/
theorem operations_follow_list_overfull :
    (follow act empty overfull).1.Holds ((List.range 15).map .ofNat ++ [0xFFFF]) ∧
      (follow act empty overfull).2 =
        List.replicate 16 .pushed ++ [.overflow, .popped 15, .pushed] ∧
      ((follow act empty overfull).1.act (.push 3)).2.isError = true ∧
      ((follow act empty overfull).1.act (.push 3)).1 = (follow act empty overfull).1 := by
  obtain ⟨hholds, hanswers, hfull, -, hsame, -⟩ := operations_follow_list overfull
  have hlist : (follow listed [] overfull).1 = (List.range 15).map .ofNat ++ [0xFFFF] := by decide
  have hover : ((follow act empty overfull).1.act (.push 3)).2 = .overflow :=
    (hfull 3).mpr (by rw [hlist]; rfl)
  have herror : ((follow act empty overfull).1.act (.push 3)).2.isError = true := by
    rw [hover]
    rfl
  rw [hlist] at hholds
  exact ⟨hholds, hanswers.trans (by decide), herror, hsame _ herror⟩

end Chip8.CallStack
