import Chip8.Instruction.Routing
import Mathlib.Order.Bounds.Basic

/-!
# What routing tables hold

A code stands for a value of the field if it is that value or, below zero, counts to it from the end
(`StandsFor`). Codes are entered one after the other, each over what stands there, so a value holds
the greatest of the positions of its codes and, if it has none, what it held before: `Entered` says
this of any number of codes, by induction on them, and `Routes` of a whole table.

`table_law` is the top. A size below zero is refused for itself. Where there is room for the table
(`HasRoom`) and the number of codes fits in an entry, no entry is cut, and the codes decide. The signed
64-bit numbers are no restriction on codes that fit the table, but on those that do not: a code beyond
them is not named when it is refused, and one among the largest of 64 bits can even pass for a value of
the table, as `table_takes_out_of_range` shows.
-/

set_option autoImplicit false

namespace Chip8.Routing

variable {n : Nat} {c : Int} {cs codes : List Int} {t u : List Int32}

/-- In a table of `n` values the code stands for the value `p`, counted from the front or from the
end. -/
def StandsFor (n : Nat) (c : Int) (p : Nat) : Prop := c = p ∨ c = p - n

/-- The code stands for one of `n` values. -/
def InRange (n : Nat) (c : Int) : Prop := -n ≤ c ∧ c < n

instance (n : Nat) (c : Int) : Decidable (InRange n c) := inferInstanceAs (Decidable (_ ∧ _))

/-- A code is read as the position below `n` that it stands for. -/
theorem value?_eq_some_iff {p : Nat} : value? n c = some p ↔ p < n ∧ StandsFor n c p := by
  unfold value? StandsFor
  split
  · rename_i hrange
    rw [Option.some.injEq]
    by_cases hpos : 0 ≤ c
    · rw [Int.emod_eq_of_lt hpos hrange.2]
      omega
    · rw [← Int.add_emod_right, Int.emod_eq_of_lt (by omega) (by omega)]
      omega
  · rename_i hrange
    exact iff_of_false nofun (by omega)

/-- A code has no reading exactly when it is out of range. -/
theorem value?_eq_none_iff : value? n c = none ↔ ¬ InRange n c := by
  unfold value? InRange
  split
  · exact iff_of_false nofun (not_not.mpr ‹_›)
  · exact iff_of_true rfl ‹_›

/-- A code in range is read as some position. -/
theorem exists_value? (h : InRange n c) : ∃ p, value? n c = some p :=
  Option.ne_none_iff_exists'.mp fun hnone => value?_eq_none_iff.mp hnone h

/-! ## Positions -/

/-- The positions of the codes that stand for a value. -/
def positions (n : Nat) (codes : List Int) (p : Nat) : Set Nat :=
  {i | ∃ c, codes[i]? = some c ∧ StandsFor n c p}

section Positions

variable {p i : Nat}

/-- The first of some codes is one for `p` exactly when it stands for `p`. -/
theorem zero_mem_positions : 0 ∈ positions n (c :: cs) p ↔ StandsFor n c p := by
  simp [positions]

/-- Behind the first code, positions are those of the rest, moved on by one. -/
theorem succ_mem_positions : i + 1 ∈ positions n (c :: cs) p ↔ i ∈ positions n cs p := by
  simp [positions]

/-- A code that comes first does not count if there is a later one. -/
theorem isGreatest_positions_cons (h : IsGreatest (positions n cs p) i) :
    IsGreatest (positions n (c :: cs) p) (i + 1) := by
  refine ⟨succ_mem_positions.mpr h.1, fun j hj => ?_⟩
  cases j with
  | zero => exact Nat.zero_le _
  | succ j => exact Nat.succ_le_succ (h.2 (succ_mem_positions.mp hj))

/-- If no code behind the first stands for `p`, but the first does, its position is the last. -/
theorem isGreatest_positions_zero (h : positions n cs p = ∅) (hc : StandsFor n c p) :
    IsGreatest (positions n (c :: cs) p) 0 := by
  refine ⟨zero_mem_positions.mpr hc, fun j hj => ?_⟩
  cases j with
  | zero => exact Nat.le_refl 0
  | succ j => exact absurd (succ_mem_positions.mp hj) (Set.eq_empty_iff_forall_notMem.mp h j)

/-- If neither the first code nor one behind it stands for `p`, there is no position for `p`. -/
theorem positions_cons_eq_empty (h : positions n cs p = ∅) (hc : ¬ StandsFor n c p) :
    positions n (c :: cs) p = ∅ := by
  refine Set.eq_empty_iff_forall_notMem.mpr fun j hj => ?_
  cases j with
  | zero => exact hc (zero_mem_positions.mp hj)
  | succ j => exact Set.eq_empty_iff_forall_notMem.mp h j (succ_mem_positions.mp hj)

end Positions

/-! ## Entering codes -/

/-- The table `u` is `t` after some codes have been entered, the first one under position `k`. -/
structure Entered (k : Nat) (cs : List Int) (t u : List Int32) : Prop where
  length_eq : u.length = t.length
  entry (p : Nat) (hp : p < t.length) :
    (∃ i, IsGreatest (positions t.length cs p) i ∧ u[p]? = some (.ofNat (k + i))) ∨
      positions t.length cs p = ∅ ∧ u[p]? = t[p]?

/-- No codes leave the table as it is. -/
theorem Entered.nil (k : Nat) (t : List Int32) : Entered k [] t t where
  length_eq := rfl
  entry p _ := .inr ⟨by simp [positions], rfl⟩

/-- What stands under a code that is entered first is covered by the later ones or stays. -/
theorem Entered.cons {k q : Nat} (hq : value? t.length c = some q)
    (h : Entered (k + 1) cs (t.set q (.ofNat k)) u) : Entered k (c :: cs) t u := by
  obtain ⟨hlt, hstands⟩ := value?_eq_some_iff.mp hq
  have hlength : (t.set q (.ofNat k)).length = t.length := List.length_set
  refine ⟨h.length_eq.trans hlength, fun p hp => ?_⟩
  have hentry := h.entry p (hlength ▸ hp)
  rw [hlength] at hentry
  obtain ⟨i, hi, hu⟩ | ⟨hnone, hu⟩ := hentry
  · exact .inl ⟨i + 1, isGreatest_positions_cons hi, by rw [hu, Nat.add_assoc, Nat.add_comm 1 i]⟩
  · by_cases hpq : q = p
    · subst hpq
      exact .inl ⟨0, isGreatest_positions_zero hnone hstands,
        by rw [hu, List.getElem?_set_self hlt, Nat.add_zero]⟩
    · have hother : ¬ StandsFor t.length c p := fun hcp => by
        have hp' := value?_eq_some_iff.mpr ⟨hp, hcp⟩
        exact hpq (Option.some.inj (hq.symm.trans hp'))
      exact .inr ⟨positions_cons_eq_empty hnone hother, by rw [hu, List.getElem?_set_ne hpq]⟩

/-- Codes that all stand for values are entered. -/
theorem exists_entered (k : Nat) (t : List Int32) (h : ∀ c ∈ cs, InRange t.length c) :
    ∃ u, enter t k cs = .ok u ∧ Entered k cs t u := by
  induction cs generalizing k t with
  | nil => exact ⟨t, rfl, .nil k t⟩
  | cons c cs ih =>
    obtain ⟨hc, hcs⟩ := List.forall_mem_cons.mp h
    obtain ⟨q, hq⟩ := exists_value? hc
    have hlength : (t.set q (.ofNat k)).length = t.length := List.length_set
    obtain ⟨u, hu, hentered⟩ := ih (k + 1) (t.set q (.ofNat k)) (by rwa [hlength])
    exact ⟨u, by rw [enter, hq]; exact hu, .cons hq hentered⟩

/-- The first code that stands for no value is named. -/
theorem enter_eq_error (k : Nat) (t : List Int32) {before after : List Int}
    (hbefore : ∀ b ∈ before, InRange t.length b) (hc : ¬ InRange t.length c) :
    enter t k (before ++ c :: after) = .error (.outOfRange c t.length) := by
  induction before generalizing k t with
  | nil => rw [List.nil_append, enter, value?_eq_none_iff.mpr hc]
  | cons b before ih =>
    obtain ⟨hb, hrest⟩ := List.forall_mem_cons.mp hbefore
    obtain ⟨q, hq⟩ := exists_value? hb
    have hlength : (t.set q (.ofNat k)).length = t.length := List.length_set
    rw [List.cons_append, enter, hq]
    simp only
    rw [ih (k + 1) (t.set q (.ofNat k)) (by rwa [hlength]) (by rwa [hlength]), hlength]

/-! ## Whole tables -/

/-- The table holds for each of `n` values the last position of a code that stands for it, and the
number of codes if there is none. -/
structure Routes (n : Nat) (codes : List Int) (t : List Int32) : Prop where
  length_eq : t.length = n
  entry (p : Nat) (hp : p < n) (i : Nat) :
    t[p]?.map Int32.toInt = some (i : Int) ↔
      IsGreatest (positions n codes p) i ∨ positions n codes p = ∅ ∧ i = codes.length

/-- A position of a code is one of the list. -/
theorem lt_length_of_mem_positions {p i : Nat} (h : i ∈ positions n codes p) :
    i < codes.length := by
  obtain ⟨c, hi, -⟩ := h
  exact (List.getElem?_eq_some_iff.mp hi).1

/-- An entry that is not cut is read back. -/
theorem map_toInt_eq_some_iff {j i : Nat} (hj : j < 0x80000000) :
    (some (Int32.ofNat j)).map Int32.toInt = some (i : Int) ↔ j = i := by
  rw [Option.map_some, Int32.toInt_ofNat_of_lt hj, Option.some.injEq, Int.ofNat_inj]

/-- A table into which the codes have been entered routes them, if no entry is cut. -/
theorem Entered.routes (h : Entered 0 codes (List.replicate n (.ofNat codes.length)) t)
    (hcount : codes.length < 0x80000000) : Routes n codes t := by
  obtain ⟨hlength, hentry⟩ := h
  rw [List.length_replicate] at hlength hentry
  refine ⟨hlength, fun p hp i => ?_⟩
  obtain ⟨j, hj, ht⟩ | ⟨hnone, ht⟩ := hentry p hp
  · rw [ht, Nat.zero_add,
      map_toInt_eq_some_iff (Nat.lt_trans (lt_length_of_mem_positions hj.1) hcount)]
    constructor
    · rintro rfl
      exact .inl hj
    · rintro (hi | ⟨hempty, -⟩)
      · exact hj.unique hi
      · exact absurd hj.1 (Set.eq_empty_iff_forall_notMem.mp hempty j)
  · rw [ht, List.getElem?_replicate_of_lt hp, map_toInt_eq_some_iff hcount]
    constructor
    · rintro rfl
      exact .inr ⟨hnone, rfl⟩
    · rintro (hi | ⟨-, hlen⟩)
      · exact absurd hi.1 (Set.eq_empty_iff_forall_notMem.mp hnone i)
      · exact hlen.symm

/-- A table of codes that are all different and not negative undoes the list of codes. -/
structure Inverts (n : Nat) (codes : List Int) (t : List Int32) : Prop where
  listed (p : Nat) (hp : p < n) (i : Nat) (hi : i < codes.length) :
    t[p]?.map Int32.toInt = some (i : Int) ↔ codes[i]? = some (p : Int)
  unlisted (p : Nat) (hp : p < n) :
    t[p]?.map Int32.toInt = some (codes.length : Int) ↔ (p : Int) ∉ codes

/-- A code that is not negative stands for itself only. -/
theorem mem_positions_of_nonneg (h : ∀ c ∈ codes, 0 ≤ c) {p i : Nat} (hp : p < n) :
    i ∈ positions n codes p ↔ codes[i]? = some (p : Int) := by
  constructor
  · rintro ⟨c, hi, rfl | hneg⟩
    · exact hi
    · have hpos := h c (List.mem_of_getElem? hi)
      omega
  · exact fun hi => ⟨p, hi, .inl rfl⟩

/-- Distinct codes that are not negative lead back to the positions they stand at. -/
theorem Routes.inverts (h : Routes n codes t) (hdistinct : codes.Nodup)
    (hpos : ∀ c ∈ codes, 0 ≤ c) :
    Inverts n codes t where
  listed p hp i hi := by
    rw [h.entry p hp i, ← mem_positions_of_nonneg hpos hp]
    constructor
    · rintro (hgreatest | ⟨-, hlen⟩)
      · exact hgreatest.1
      · exact absurd hlen (Nat.ne_of_lt hi)
    · refine fun hmem => .inl ⟨hmem, fun j hj => Nat.le_of_eq ?_⟩
      -- two positions of one code are the same
      have hboth := (mem_positions_of_nonneg hpos hp).mp hj
      rw [← (mem_positions_of_nonneg hpos hp).mp hmem] at hboth
      obtain ⟨hlt, -⟩ := List.getElem?_eq_some_iff.mp
        ((mem_positions_of_nonneg hpos hp).mp hj)
      exact (List.getElem?_inj hlt hdistinct).mp hboth
  unlisted p hp := by
    rw [h.entry p hp codes.length]
    constructor
    · rintro (hgreatest | ⟨hnone, -⟩) hmem
      · have hlast := (mem_positions_of_nonneg hpos hp).mp hgreatest.1
        rw [List.getElem?_eq_none (Nat.le_refl _)] at hlast
        cases hlast
      · obtain ⟨i, hi⟩ := List.mem_iff_getElem?.mp hmem
        exact Set.eq_empty_iff_forall_notMem.mp hnone i
          ((mem_positions_of_nonneg hpos hp).mpr hi)
    · refine fun hnot => .inr ⟨Set.eq_empty_iff_forall_notMem.mpr fun i hi => hnot ?_, rfl⟩
      exact List.mem_of_getElem? ((mem_positions_of_nonneg hpos hp).mp hi)

/-! ## Sizes and codes -/

/-- The signed integers of 64 bits are those from `-2^63` up to `2^63`. -/
theorem isSigned_iff {k : Int} :
    isSigned k = true ↔ -0x8000000000000000 ≤ k ∧ k < 0x8000000000000000 := by
  simp [isSigned]

/-- The integers of 64 bits that are unsigned only are those from `2^63` up to `2^64`. -/
theorem isUnsigned_iff {k : Int} :
    isUnsigned k = true ↔ 0x8000000000000000 ≤ k ∧ k < 0x10000000000000000 := by
  simp [isUnsigned]

/-- There is room for a table of `n` values: it has no more bytes than there are, and its size in
bytes is a signed number. -/
structure HasRoom (room n : Nat) : Prop where
  bytes_le : entryBytes * n ≤ room
  bytes_lt : entryBytes * n < 0x8000000000000000

/-- Where there is room for a table, its size is taken. -/
theorem entries_of_room {room : Nat} (h : HasRoom room n) : entries room n = .ok n := by
  obtain ⟨hle, hlt⟩ := h
  simp only [entryBytes] at hle hlt
  have hsize : isSigned n = true := isSigned_iff.mpr (by omega)
  have hbytes : isSigned (entryBytes * (n : Int)) = true := by
    refine isSigned_iff.mpr ?_
    simp only [entryBytes]
    omega
  have hroom : ¬ room < entryBytes * (n : Int).toNat := by
    simp only [entryBytes, Int.toNat_natCast]
    omega
  unfold entries
  rw [hsize, hbytes, if_neg (by simp), if_neg (by omega), if_neg (by simp), if_neg hroom,
    Int.toNat_natCast]

/-- A size below zero is refused, as such or as out of all bounds. -/
theorem entries_of_neg (room : Nat) {size : Int} (h : size < 0) :
    ∃ e, entries room size = .error e ∧ (e = .negativeSize ∨ e = .sizeOutOfRange) := by
  unfold entries
  rw [if_pos h]
  split
  · exact ⟨_, rfl, .inr rfl⟩
  · exact ⟨_, rfl, .inl rfl⟩

/-- A number of codes that fits in an entry fills the table. -/
theorem filled_of_lt {count : Nat} (n : Nat) (h : count < 0x80000000) :
    filled n count = .ok (List.replicate n (.ofNat count)) := if_pos h

/-- Signed numbers are taken as they are. -/
theorem signed_of_signed (h : ∀ c ∈ codes, isSigned c = true) : signed codes = .ok codes :=
  if_pos (List.all_eq_true.mpr h)

/-- Codes beyond the signed numbers are read with a sign if every one of them has 64 bits without
one, and otherwise not at all. -/
theorem signed_of_not_signed (h : ∃ c ∈ codes, isSigned c = false) :
    signed codes =
      if codes.all isUnsigned then .ok (codes.map fun c => c - 0x10000000000000000)
      else .error .notCodes := by
  obtain ⟨c, hmem, hc⟩ := h
  have hall : ¬ codes.all isSigned = true := fun hall => by
    rw [List.all_eq_true.mp hall c hmem] at hc
    cases hc
  exact if_neg hall

/-- An unsigned integer is read as a signed one by taking off `2^64`. -/
theorem isSigned_sub_of_isUnsigned (h : isUnsigned c = true) :
    isSigned (c - 0x10000000000000000) = true := by
  have hc := isUnsigned_iff.mp h
  exact isSigned_iff.mpr (by omega)

section Table

variable {room : Nat} (hroom : HasRoom room n) (hcount : codes.length < 0x80000000)

include hroom

include hcount in
/-- Signed numbers are entered into a table that is filled with their number. -/
theorem table_eq_enter (h : ∀ c ∈ codes, isSigned c = true) :
    table room n codes = enter (List.replicate n (.ofNat codes.length)) 0 codes := by
  rw [table, entries_of_room hroom]
  simp only [filled_of_lt n hcount, signed_of_signed h]

include hcount in
/-- Codes that all stand for values make a table. -/
theorem exists_table (h : ∀ c ∈ codes, InRange n c) :
    ∃ t, table room n codes = .ok t ∧ Routes n codes t := by
  obtain ⟨-, hlt⟩ := id hroom
  simp only [entryBytes] at hlt
  have hsigned : ∀ c ∈ codes, isSigned c = true := fun c hc => by
    have hrange := h c hc
    unfold InRange at hrange
    exact isSigned_iff.mpr (by omega)
  have hlength : (List.replicate n (Int32.ofNat codes.length)).length = n := List.length_replicate
  obtain ⟨t, ht, hentered⟩ :=
    exists_entered 0 (List.replicate n (.ofNat codes.length)) (by rwa [hlength])
  exact ⟨t, (table_eq_enter hroom hcount hsigned).trans ht, hentered.routes hcount⟩

/-- The first of some signed numbers that stands for no value is named. -/
theorem table_eq_error {before after : List Int}
    (hcount : (before ++ c :: after).length < 0x80000000)
    (hsigned : ∀ b ∈ before ++ c :: after, isSigned b = true)
    (hbefore : ∀ b ∈ before, InRange n b) (hc : ¬ InRange n c) :
    table room n (before ++ c :: after) = .error (.outOfRange c n) := by
  have hlength : ∀ k : Int32, (List.replicate n k).length = n := fun k => List.length_replicate
  rw [table_eq_enter hroom hcount hsigned, enter_eq_error, hlength]
  · rwa [hlength]
  · rwa [hlength]

include hcount in
/-- Numbers of 64 bits without a sign are taken for the signed numbers with the same bits. -/
theorem table_of_unsigned (hsigned : ∃ c ∈ codes, isSigned c = false)
    (h : ∀ c ∈ codes, isUnsigned c = true) :
    table room n codes = table room n (codes.map fun c => c - 0x10000000000000000) := by
  have hread : signed codes = .ok (codes.map fun c => c - 0x10000000000000000) := by
    rw [signed_of_not_signed hsigned, if_pos (List.all_eq_true.mpr h)]
  have hmap : ∀ c ∈ codes.map fun c => c - 0x10000000000000000, isSigned c = true := by
    intro d hd
    obtain ⟨c, hc, rfl⟩ := List.mem_map.mp hd
    exact isSigned_sub_of_isUnsigned (h c hc)
  rw [table_eq_enter hroom (by rwa [List.length_map]) hmap, table, entries_of_room hroom,
    List.length_map]
  simp only [filled_of_lt n hcount, hread]

include hcount in
/-- Other numbers are not taken for codes at all. -/
theorem table_eq_notCodes (hsigned : ∃ c ∈ codes, isSigned c = false)
    (h : ∃ c ∈ codes, isUnsigned c = false) : table room n codes = .error .notCodes := by
  have hall : ¬ codes.all isUnsigned = true := fun hall => by
    obtain ⟨c, hmem, hc⟩ := h
    rw [List.all_eq_true.mp hall c hmem] at hc
    cases hc
  rw [table, entries_of_room hroom]
  simp only [filled_of_lt n hcount, signed_of_not_signed hsigned, if_neg hall]

end Table

/-- A size below zero is refused whatever the codes are. Where there is room for the table and the
number of codes fits in an entry, codes that all stand for values make a table that holds the last
position for each of them and the number of codes where there is none; of codes that are all different
and not negative it is the inverse. Among codes that are signed 64-bit numbers the first that stands
for no value is named. If some are not signed, they are taken for signed ones if all of them have 64 bits
without a sign, and otherwise refused without a name. -/
theorem table_law (room : Nat) (size : Int) :
    (size < 0 → ∃ e, (e = .negativeSize ∨ e = .sizeOutOfRange) ∧
      ∀ codes, table room size codes = .error e) ∧
    ∀ n : Nat, size = n → HasRoom room n → ∀ codes : List Int, codes.length < 0x80000000 →
      ((∀ c ∈ codes, InRange n c) → ∃ t, table room size codes = .ok t ∧ Routes n codes t ∧
        (codes.Nodup → (∀ c ∈ codes, 0 ≤ c) → Inverts n codes t)) ∧
      ((∀ c ∈ codes, isSigned c = true) → ∀ before c after, codes = before ++ c :: after →
        (∀ b ∈ before, InRange n b) → ¬ InRange n c →
          table room size codes = .error (.outOfRange c n)) ∧
      ((∃ c ∈ codes, isSigned c = false) →
        ((∀ c ∈ codes, isUnsigned c = true) → table room size codes =
          table room size (codes.map fun c => c - 0x10000000000000000)) ∧
        ((∃ c ∈ codes, isUnsigned c = false) → table room size codes = .error .notCodes)) := by
  refine ⟨fun hsize => ?_, ?_⟩
  · obtain ⟨e, he, hneg⟩ := entries_of_neg room hsize
    exact ⟨e, hneg, fun codes => by simp only [table, he]⟩
  · rintro n rfl hroom codes hcount
    refine ⟨fun hrange => ?_, ?_, fun hsome => ⟨fun hall => ?_, fun hother => ?_⟩⟩
    · obtain ⟨t, ht, hroutes⟩ := exists_table hroom hcount hrange
      exact ⟨t, ht, hroutes, hroutes.inverts⟩
    · rintro hsigned before c after rfl hbefore hc
      exact table_eq_error hroom hcount hsigned hbefore hc
    · exact table_of_unsigned hroom hcount hsome hall
    · exact table_eq_notCodes hroom hcount hsome hother

/-- A negative size is refused. Of the codes `-1` and `4` for the last of five values the later one
counts. Three different codes are inverted. Of two codes out of range the first is named, without
regard to the one before them. The code `2^64 - 4` is read as `-4`, and `2^70` is not read. -/
theorem table_law_mixedCodes :
    (∃ e, (e = .negativeSize ∨ e = .sizeOutOfRange) ∧ ∀ codes, table 0 (-7) codes = .error e) ∧
    Routes 5 [1, -1, 4, -5] [3, 0, 4, 4, 2] ∧
    Inverts 4 [2, 0, 3] [1, 3, 0, 2] ∧
    table 20 2 [0, 9, -9] = .error (.outOfRange 9 2) ∧
    table 20 4 [0xFFFFFFFFFFFFFFFC] = table 20 4 [-4] ∧
    table 20 4 [0x400000000000000000, 1] = .error .notCodes := by
  have hroom : ∀ n ≤ 5, HasRoom 20 n := fun n hn => ⟨by simp only [entryBytes]; omega,
    by simp only [entryBytes]; omega⟩
  have hrefused := (table_law 0 (-7)).1 (by decide)
  obtain ⟨t, ht, hroutes, -⟩ :=
    ((table_law 20 5).2 5 rfl (hroom 5 (by decide)) [1, -1, 4, -5] (by decide)).1 (by decide)
  obtain ⟨-, hfour⟩ := table_law 20 4
  obtain ⟨u, hu, -, hinverts⟩ := (hfour 4 rfl (hroom 4 (by decide)) [2, 0, 3] (by decide)).1 (by decide)
  obtain rfl : [3, 0, 4, 4, 2] = t := Except.ok.inj ht
  obtain rfl : [1, 3, 0, 2] = u := Except.ok.inj hu
  have hnamed := ((table_law 20 2).2 2 rfl (hroom 2 (by decide)) [0, 9, -9] (by decide)).2.1
    (by decide) [0] 9 [-9] rfl (by decide) (by decide)
  have hread := (hfour 4 rfl (hroom 4 (by decide)) [0xFFFFFFFFFFFFFFFC] (by decide)).2.2 (by decide)
  have hunread :=
    (hfour 4 rfl (hroom 4 (by decide)) [0x400000000000000000, 1] (by decide)).2.2 (by decide)
  exact ⟨hrefused, hroutes, hinverts (by decide) (by decide), hnamed, hread.1 (by decide),
    hunread.2 (by decide)⟩

/-- A code that stands for no value can get into a table: `2^64 - 4` into one of four values, where it
passes for the first of them. -/
theorem table_takes_out_of_range :
    table 16 4 [0xFFFFFFFFFFFFFFFC] = .ok [0, 1, 1, 1] ∧
    ¬ ∀ (room n : Nat) (before : List Int) (c : Int) (after : List Int), HasRoom room n →
      (∀ b ∈ before, InRange n b) → ¬ InRange n c →
        table room n (before ++ c :: after) = .error (.outOfRange c n) := by
  have htaken : table 16 4 [0xFFFFFFFFFFFFFFFC] = .ok [0, 1, 1, 1] := by decide
  refine ⟨htaken, fun h => ?_⟩
  have hrefused := h 16 4 [] 0xFFFFFFFFFFFFFFFC [] ⟨by decide, by decide⟩ nofun (by decide)
  exact absurd (htaken.symm.trans hrefused) nofun

end Chip8.Routing
