import Chip8.Proofs.Commands

/-!
# Setting keys

A host sets keys one by one or all at once. One by one, each key ends up as it was last set
(`Machine.afterAll_keyUpdates`), so the order of updates to different keys is of no account, and sixteen
keys that have all been set are a keypad that might have been set at once.

All at once, the keys are an array, and the array must be flat and of length sixteen. `HasShape` says
what the lengths of a regular array are, without the limit on its depth, and `toKeypad_eq_ok_iff` that
an array is taken exactly if it holds the sixteen positions of a keypad.

Whether a command is refused depends on the command alone (`accepts_congr`). So the refused ones can
be left out of a sequence. `key_updates_settle` puts this together.
-/

set_option autoImplicit false

namespace Chip8

namespace Layout

@[simp] theorem common_self (shape : List Nat) : common shape shape = shape := by
  induction shape with
  | nil => rfl
  | cons a as ih => simp [common, ih]

@[simp] theorem meet_self (l : Layout) : l.meet l = l := by
  obtain ⟨shape, isRegular⟩ := l
  simp [meet]

/-- What parts have in common can only be a regular array without lengths if the parts are. -/
theorem eq_of_meet_eq_point {a b : Layout} (h : a.meet b = ⟨[], true⟩) :
    a = ⟨[], true⟩ ∧ b = ⟨[], true⟩ := by
  obtain ⟨s, p⟩ := a
  obtain ⟨t, q⟩ := b
  simp only [meet, mk.injEq, Bool.and_eq_true, beq_iff_eq] at h ⊢
  obtain ⟨hcommon, ⟨hp, hq⟩, rfl⟩ := h
  rw [common_self] at hcommon
  exact ⟨⟨hcommon, hp⟩, hcommon, hq⟩

end Layout

namespace Switches

variable {s : Switches} {parts : List Switches} {shape : List Nat}

/-- The array is regular and has the lengths `shape`, from the outside in. -/
inductive HasShape : Switches → List Nat → Prop where
  | one (down : Bool) : HasShape (.one down) []
  | empty : HasShape (.many []) [0]
  | many {s : Switches} {rest : List Switches} {shape : List Nat}
      (h : ∀ p ∈ s :: rest, HasShape p shape) :
      HasShape (.many (s :: rest)) ((s :: rest).length :: shape)

/-- The positions of a keypad as an array. -/
def ofKeypad (ks : Keypad) : Switches := .many (ks.toList.map .one)

/-- A single switch has no lengths and is regular at any depth. -/
theorem layout_one (depth : Nat) (down : Bool) : (one down).layout depth = ⟨[], true⟩ := by
  cases depth
  all_goals rfl

/-- Parts of one shape, repeated, make a regular array with one length more. -/
theorem HasShape.replicate (h : s.HasShape shape) (n : Nat) :
    (Switches.many (List.replicate (n + 1) s)).HasShape ((n + 1) :: shape) := by
  have hparts : ∀ p ∈ s :: List.replicate n s, p.HasShape shape := by
    intro p hp
    rw [← List.replicate_succ] at hp
    rwa [List.eq_of_mem_replicate hp]
  have hmany := HasShape.many hparts
  rwa [List.length_cons, List.length_replicate, ← List.replicate_succ] at hmany

/-- Parts that share a layout have it together. -/
theorem layouts_of_forall {depth : Nat} {l : Layout} {rest : List Switches}
    (h : ∀ p ∈ s :: rest, p.layout depth = l) : layouts depth (s :: rest) = l := by
  induction rest generalizing s with
  | nil => rw [layouts, h s (List.mem_singleton_self s)]
  | cons p rest ih =>
    obtain ⟨hs, hrest⟩ := List.forall_mem_cons.mp h
    rw [layouts, hs, ih hrest, Layout.meet_self]
    exact nofun

/-- Arrays that are not nested too deeply show their shape. -/
theorem HasShape.layout_eq (h : s.HasShape shape) {depth : Nat} (hd : shape.length ≤ depth) :
    s.layout depth = ⟨shape, true⟩ := by
  induction h generalizing depth with
  | one down => exact layout_one depth down
  | empty =>
    cases depth with
    | zero => cases hd
    | succ d =>
      rw [layout, layouts]
      rfl
  | many hparts ih =>
    cases depth with
    | zero => cases hd
    | succ d =>
      have hinner := layouts_of_forall fun p hp => ih p hp (Nat.le_of_succ_le_succ hd)
      rw [layout, hinner]

/-- Only a single switch has no lengths and is regular. -/
theorem eq_one_of_layout {depth : Nat} (h : s.layout depth = ⟨[], true⟩) :
    ∃ down, s = .one down := by
  cases s with
  | one down => exact ⟨down, rfl⟩
  | many parts =>
    cases depth with
    | zero =>
      rw [layout] at h
      cases h
    | succ d =>
      rw [layout] at h
      cases h

/-- Parts without lengths are single switches. -/
theorem forall_eq_one_of_layouts {depth : Nat} (h : layouts depth parts = ⟨[], true⟩) :
    ∀ p ∈ parts, ∃ down, p = .one down := by
  induction parts with
  | nil => exact nofun
  | cons s rest ih =>
    cases rest with
    | nil =>
      rw [layouts] at h
      simpa using eq_one_of_layout h
    | cons p rest =>
      rw [layouts] at h
      · obtain ⟨hs, hrest⟩ := Layout.eq_of_meet_eq_point h
        exact List.forall_mem_cons.mpr ⟨eq_one_of_layout hs, ih hrest⟩
      · exact nofun

/-- A keypad that is made an array keeps its positions in their order. -/
theorem positions_ofKeypad (ks : Keypad) : (ofKeypad ks).positions = ks.toList := by
  simp only [ofKeypad, positions, List.map_map]
  exact List.map_id ks.toList

/-- A keypad that is made an array has sixteen elements. -/
theorem hasShape_ofKeypad (ks : Keypad) : (ofKeypad ks).HasShape [16] := by
  have hone : ∀ p ∈ ks.toList.map one, p.HasShape [] := by
    intro p hp
    obtain ⟨down, -, rfl⟩ := List.mem_map.mp hp
    exact .one down
  have hlength : (ks.toList.map one).length = 16 := by simp
  unfold ofKeypad
  generalize ks.toList.map one = parts at hone hlength
  cases parts with
  | nil => cases hlength
  | cons s rest =>
    rw [← hlength]
    exact .many hone

/-- Sixteen single switches are the positions of a keypad. -/
theorem exists_eq_ofKeypad (hlength : parts.length = 16)
    (hone : ∀ p ∈ parts, ∃ down, p = .one down) : ∃ ks, Switches.many parts = ofKeypad ks := by
  have hsame : (parts.map isDown).map one = parts := by
    rw [List.map_map]
    refine (List.map_congr_left fun p hp => ?_).trans (List.map_id parts)
    obtain ⟨down, rfl⟩ := hone p hp
    rfl
  exact ⟨⟨(parts.map isDown).toArray, by simpa using hlength⟩, by simp [ofKeypad, hsame]⟩

/-- An array with the layout of a keypad is one. -/
theorem eq_ofKeypad_of_layout (h : s.layout maxDepth = ⟨[16], true⟩) : ∃ ks, s = ofKeypad ks := by
  cases s with
  | one down =>
    rw [layout_one] at h
    cases h
  | many parts =>
    simp only [layout, Layout.mk.injEq, List.cons.injEq] at h
    obtain ⟨⟨hlength, hshape⟩, hregular⟩ := h
    have hpoint : layouts 63 parts = ⟨[], true⟩ := congrArg₂ Layout.mk hshape hregular
    exact exists_eq_ofKeypad hlength (forall_eq_one_of_layouts hpoint)

/-- An array that was made of a keypad is read back as it. -/
theorem toKeypad_ofKeypad (ks : Keypad) : (ofKeypad ks).toKeypad = .ok ks := by
  have hlayout : (ofKeypad ks).layout maxDepth = ⟨[16], true⟩ :=
    (hasShape_ofKeypad ks).layout_eq (by decide)
  have hsame : (Vector.ofFn fun k : Fin 16 => ks.toList.getD k.val false) = ks := by
    apply Vector.ext
    intro k hk
    simp
  simp only [toKeypad, hlayout, positions_ofKeypad, if_true, hsame]

/-- An array that is accepted as a keypad is regular and has sixteen elements. -/
theorem layout_of_toKeypad {ks : Keypad} (h : s.toKeypad = .ok ks) :
    s.layout maxDepth = ⟨[16], true⟩ := by
  unfold toKeypad at h
  generalize s.layout maxDepth = l at h
  obtain ⟨shape, isRegular⟩ := l
  simp only at h
  split_ifs at h with hregular hshape
  rw [hregular, hshape]

/-- An array is taken exactly if it holds the positions of a keypad, and as that keypad. -/
theorem toKeypad_eq_ok_iff {ks : Keypad} : s.toKeypad = .ok ks ↔ s = ofKeypad ks := by
  constructor
  · intro h
    obtain ⟨js, rfl⟩ := eq_ofKeypad_of_layout (layout_of_toKeypad h)
    rw [toKeypad_ofKeypad] at h
    rw [Except.ok.inj h]
  · rintro rfl
    exact toKeypad_ofKeypad ks

/-- The keypads are the arrays with one length, sixteen. -/
theorem hasShape_sixteen_iff : s.HasShape [16] ↔ ∃ ks, s = ofKeypad ks := by
  constructor
  · exact fun h => eq_ofKeypad_of_layout (h.layout_eq (by decide))
  · rintro ⟨ks, rfl⟩
    exact hasShape_ofKeypad ks

/-- An array with any other lengths is refused. -/
theorem toKeypad_eq_error (h : ¬ s.HasShape [16]) : ∃ e, s.toKeypad = .error e := by
  cases hs : s.toKeypad with
  | ok ks => exact absurd (hasShape_sixteen_iff.mpr ⟨ks, toKeypad_eq_ok_iff.mp hs⟩) h
  | error e => exact ⟨e, rfl⟩

/-- The refusal of a regular array names its lengths. -/
theorem HasShape.toKeypad_eq_error (h : s.HasShape shape) (hd : shape.length ≤ 64)
    (hne : shape ≠ [16]) : s.toKeypad = .error (.wrongShape shape) := by
  simp only [toKeypad, h.layout_eq hd, if_true, if_neg hne]

end Switches

/-! ## Keys one by one -/

/-- The last value that some updates give to a key. -/
def lastValue? (us : List (Int × Bool)) (key : Int) : Option Bool := us.reverse.lookup key

/-- The update that comes last decides, if it is for the key. -/
theorem lastValue?_concat (us : List (Int × Bool)) (u : Int × Bool) (key : Int) :
    lastValue? (us ++ [u]) key = if key = u.1 then some u.2 else lastValue? us key := by
  obtain ⟨k, down⟩ := u
  rw [lastValue?, List.reverse_concat, List.lookup]
  by_cases hkey : key = k
  · rw [beq_iff_eq.mpr hkey, if_pos hkey]
  · rw [beq_eq_false_iff_ne.mpr hkey, if_neg hkey]
    rfl

namespace Keypad

/-- The keypad after one key has been set; there is no effect if there is no such key. -/
def update (ks : Keypad) (u : Int × Bool) : Keypad :=
  if 0 ≤ u.1 ∧ u.1 < 16 then ks.setIfInBounds u.1.toNat u.2 else ks

/-- An update sets its key and no other one. -/
theorem get_update (ks : Keypad) (u : Int × Bool) (k : Nibble) :
    (ks.update u).get k = if (k : Int) = u.1 then u.2 else ks.get k := by
  obtain ⟨key, down⟩ := u
  unfold update
  split
  · rename_i hkey
    obtain ⟨j, rfl⟩ := Int.eq_ofNat_of_zero_le hkey.1
    rw [Vector.get_eq_getElem, Vector.getElem_setIfInBounds k.isLt]
    simp only [Int.toNat_natCast, Int.ofNat_inj, Vector.get_eq_getElem, eq_comm]
  · have hk := k.isLt
    exact (if_neg (by omega)).symm

/-- Each key is as it was last set. -/
theorem get_foldl_update (ks : Keypad) (us : List (Int × Bool)) (k : Nibble) :
    (us.foldl update ks).get k = (lastValue? us k).getD (ks.get k) := by
  induction us using List.reverseRecOn with
  | nil => rfl
  | append_singleton us u ih =>
    rw [List.foldl_concat, get_update, lastValue?_concat, ih]
    split
    all_goals rfl

/-- Updates that end with all sixteen values of a keypad lead to it from any other. -/
theorem foldl_update_eq {ks : Keypad} {us : List (Int × Bool)} (js : Keypad)
    (h : ∀ k : Nibble, lastValue? us k = some (ks.get k)) : us.foldl update js = ks := by
  apply Vector.ext
  intro k hk
  have hget := get_foldl_update js us ⟨k, hk⟩
  rwa [h ⟨k, hk⟩] at hget

end Keypad

/-- The commands that set some keys one after the other. -/
def Command.keyUpdates (us : List (Int × Bool)) : List Command :=
  us.map fun u => .setKey u.1 u.2

namespace Machine

variable {m : Machine}

/-- Setting a key updates the keypad; a key that is refused updates nothing. -/
theorem after_setKey (m : Machine) (u : Int × Bool) :
    m.after (.setKey u.1 u.2) = { m with keypad := m.keypad.update u } := by
  simp only [after, perform, setKey, Keypad.update]
  by_cases hkey : 0 ≤ u.1 ∧ u.1 < 16
  · rw [if_pos hkey, if_pos hkey]
    rfl
  · rw [if_neg hkey, if_neg hkey]
    rfl

/-- Updates of keys change the keypad and nothing else. -/
theorem afterAll_keyUpdates (m : Machine) (us : List (Int × Bool)) :
    m.afterAll (Command.keyUpdates us) =
      { m with keypad := us.foldl Keypad.update m.keypad } := by
  induction us generalizing m with
  | nil => rfl
  | cons u us ih =>
    have hrest := ih (m.after (.setKey u.1 u.2))
    rw [after_setKey] at hrest
    rw [Command.keyUpdates, List.map_cons, afterAll, List.foldl_cons, after_setKey]
    exact hrest

/-! ## Refused commands -/

/-- Whether the machine carries out a command. -/
def accepts (m : Machine) (c : Command) : Bool := (m.perform c).isOk

/-- Whether there is a result does not depend on what is done with it. -/
theorem isOk_map {α β ε : Type} (f : α → β) (x : Except ε α) : (x.map f).isOk = x.isOk := by
  cases x
  all_goals rfl

/-- Whether there is a result does not depend on how the error is put. -/
theorem isOk_mapError {α ε δ : Type} (f : ε → δ) (x : Except ε α) :
    (x.mapError f).isOk = x.isOk := by
  cases x
  all_goals rfl

/-- The sixteen keys are accepted, and no other number is. -/
theorem isOk_setKey (m : Machine) (key : Int) (down : Bool) :
    (m.setKey key down).isOk = decide (0 ≤ key ∧ key < 16) := by
  unfold setKey
  split
  · rename_i hkey
    exact (decide_eq_true hkey).symm
  · rename_i hkey
    exact (decide_eq_false hkey).symm

/-- An image is accepted exactly when it is not too long. -/
theorem isOk_load (m : Machine) (image : List UInt8) :
    (m.load image).isOk = decide (image.length ≤ maxImageSize) := by
  unfold load
  split
  · rename_i hsize
    exact (decide_eq_true hsize).symm
  · rename_i hsize
    exact (decide_eq_false hsize).symm

/-- What one machine refuses, every machine refuses. -/
theorem accepts_congr (m n : Machine) (c : Command) : m.accepts c = n.accepts c := by
  cases c
  case setKey => simp only [accepts, perform, isOk_mapError, isOk_setKey]
  case load => simp only [accepts, perform, isOk_mapError, isOk_load]
  case setKeypad => simp only [accepts, perform, setKeypad, isOk_mapError, isOk_map]
  case execute | run | runFrame | runFrames =>
    simp only [accepts, perform, isOk_mapError, isOk_map]
  all_goals rfl

/-- A host that has been refused stands before the machine it had. -/
theorem after_of_perform_error {c : Command} {e : Refusal} (h : m.perform c = .error e) :
    m.after c = m := by
  simp only [after, h]

/-- A command that is not accepted leaves the machine alone. -/
theorem after_of_not_accepts {c : Command} (h : m.accepts c = false) : m.after c = m := by
  unfold accepts at h
  cases hperform : m.perform c with
  | ok r =>
    rw [hperform] at h
    cases h
  | error e => exact after_of_perform_error hperform

/-- Commands that are refused can be left out. -/
theorem afterAll_filter_accepts (m n : Machine) (cs : List Command) :
    m.afterAll (cs.filter n.accepts) = m.afterAll cs := by
  induction cs generalizing m with
  | nil => rfl
  | cons c cs ih =>
    cases hc : n.accepts c with
    | true =>
      rw [List.filter_cons_of_pos hc]
      exact ih (m.after c)
    | false =>
      have hskip : (c :: cs).filter n.accepts = cs.filter n.accepts :=
        List.filter_cons_of_neg (by rw [hc]; exact nofun)
      rw [accepts_congr n m] at hc
      rw [hskip, ih, afterAll, afterAll, List.foldl_cons, after_of_not_accepts hc]

/-- Sixteen keys that have all been set one by one, in any order and any number of times, are as good
as set at once to their last values, and all else is as it was. A number that is no key is refused,
and so is an array that has any other lengths than a keypad; if it is regular, the refusal names its
lengths. What is refused leaves the machine as it was, and every other machine would refuse it as well,
so in any sequence of commands the refused ones can be left out. -/
theorem key_updates_settle (m : Machine) :
    (∀ (us : List (Int × Bool)) (ks : Keypad), (∀ u ∈ us, 0 ≤ u.1 ∧ u.1 < 16) →
      (∀ k : Nibble, lastValue? us k = some (ks.get k)) →
        (∀ c ∈ Command.keyUpdates us, m.accepts c = true) ∧
        m.afterAll (Command.keyUpdates us) = { m with keypad := ks } ∧
        m.perform (.setKeypad (.ofKeypad ks)) = .ok { m with keypad := ks }) ∧
    (∀ key down, ¬ (0 ≤ key ∧ key < 16) →
      m.perform (.setKey key down) = .error (.keypad (.noSuchKey key))) ∧
    (∀ keys : Switches, ¬ keys.HasShape [16] →
      ∃ e, m.perform (.setKeypad keys) = .error (.keypad e)) ∧
    (∀ (keys : Switches) (shape : List Nat), keys.HasShape shape → shape.length ≤ 64 →
      shape ≠ [16] → m.perform (.setKeypad keys) = .error (.keypad (.wrongShape shape))) ∧
    (∀ c e, m.perform c = .error e → m.after c = m) ∧
    (∀ n c, accepts n c = m.accepts c) ∧
    ∀ cs, m.afterAll (cs.filter m.accepts) = m.afterAll cs := by
  refine ⟨fun us ks hkeys hlast => ⟨?accepted, ?settled, ?atOnce⟩, ?noSuchKey, ?refused, ?named,
    fun c e => after_of_perform_error, fun n => n.accepts_congr m, m.afterAll_filter_accepts m⟩
  case accepted =>
    intro c hc
    obtain ⟨u, hu, rfl⟩ := List.mem_map.mp hc
    rw [accepts, perform, isOk_mapError, isOk_setKey, decide_eq_true (hkeys u hu)]
  case settled => rw [afterAll_keyUpdates, Keypad.foldl_update_eq m.keypad hlast]
  case atOnce =>
    simp only [perform, setKeypad, Switches.toKeypad_ofKeypad]
    rfl
  case noSuchKey =>
    intro key down hkey
    simp only [perform, setKey, if_neg hkey]
    rfl
  case refused =>
    intro keys hkeys
    obtain ⟨e, he⟩ := Switches.toKeypad_eq_error hkeys
    exact ⟨e, by simp only [perform, setKeypad, he]; rfl⟩
  case named =>
    intro keys shape hshape hdepth hne
    simp only [perform, setKeypad, hshape.toKeypad_eq_error hdepth hne]
    rfl

/-- All keys go down from the last to the first, and two of them up again. -/
def twoReleased : List (Int × Bool) :=
  (List.finRange 16).reverse.map (fun k => ((k : Int), true)) ++ [(3, false), (15, false)]

/-- Key `-1` and an array of four by four switches are refused, and without key 16 the sequence is the
same. -/
theorem key_updates_settle_twoReleased :
    let m := powerOn ⟨0, 0⟩ .classic
    let ks : Keypad := Vector.ofFn fun k => k.val != 3 && k.val != 15
    m.afterAll (Command.keyUpdates twoReleased) = { m with keypad := ks } ∧
    m.perform (.setKeypad (.ofKeypad ks)) = .ok { m with keypad := ks } ∧
    m.perform (.setKey (-1) true) = .error (.keypad (.noSuchKey (-1))) ∧
    m.after (.setKey (-1) true) = m ∧
    m.perform (.setKeypad (.many (List.replicate 4 (.many (List.replicate 4 (.one true)))))) =
      .error (.keypad (.wrongShape [4, 4])) ∧
    m.afterAll [.setKey 2 true] = m.afterAll [.setKey 16 true, .setKey 2 true] := by
  intro m ks
  obtain ⟨hsettle, hkey, -, hnamed, hsame, -, hfilter⟩ := key_updates_settle m
  obtain ⟨-, hsettled, hatOnce⟩ := hsettle twoReleased ks (by decide) (by decide)
  have hsquare := ((Switches.HasShape.one true).replicate 3).replicate 3
  have hrefused := hkey (-1) true (by decide)
  exact ⟨hsettled, hatOnce, hrefused, hsame _ _ hrefused,
    hnamed _ [4, 4] hsquare (by decide) (by decide), hfilter [.setKey 16 true, .setKey 2 true]⟩

end Machine

end Chip8
