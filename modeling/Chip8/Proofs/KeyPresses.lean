import Chip8.Proofs.Reachable

/-!
# Waiting for a key to go down

`FX0A` asks for a key that has gone down since the last completed step. The machine answers from
two keypads, the present one and the one it remembers. What it should answer from is a matter of
history: `History` follows a machine through the commands of a host and notes the keypad at the end
of each step that is completed. Steps that fault or find the machine halted note nothing, and a
reset begins anew. `History.remembered` says that the two come to the same for any sequence of
commands, and `waitKey_takes_press` is what `FX0A` does in terms of the notes.
-/

set_option autoImplicit false

namespace Chip8

namespace Keypad

variable {before now : Keypad} {k : Nibble}

/-- The key is down now and was up before. -/
def Pressed (before now : Keypad) (k : Nibble) : Prop := now.get k = true ∧ before.get k = false

/-- No first press is found exactly when there is none. -/
theorem firstPress?_eq_none_iff :
    firstPress? before now = none ↔ ∀ k, ¬ Pressed before now k := by
  simp [firstPress?, Pressed]

/-- No key has gone down between a keypad and itself. -/
theorem firstPress?_self (keys : Keypad) : firstPress? keys keys = none := by
  rw [firstPress?_eq_none_iff]
  intro k hk
  rw [Pressed, hk.1] at hk
  cases hk.2

/-- The key that is found is the least of those that went down. -/
theorem firstPress?_eq_some_iff :
    firstPress? before now = some k ↔
      Pressed before now k ∧ ∀ j, j < k → ¬ Pressed before now j := by
  unfold firstPress?
  rw [List.find?_eq_some_iff_getElem]
  constructor
  · rintro ⟨hk, i, hi, heq, hbefore⟩
    have hval : i = k.val := by simpa using congrArg Fin.val heq
    refine ⟨by simpa [Pressed] using hk, fun j hj hpressed => ?_⟩
    have hnot := hbefore j.val (by rw [hval]; exact hj)
    simp [hpressed.1, hpressed.2] at hnot
  · rintro ⟨hk, hleast⟩
    refine ⟨by simpa [Pressed] using hk, k.val, by simp, by simp, fun j hj => ?_⟩
    have hnot := hleast ⟨j, Nat.lt_trans hj k.isLt⟩ hj
    rw [Bool.not_eq_true', Bool.and_eq_false_imp]
    simpa [Pressed] using hnot

end Keypad

namespace Machine

open Instruction

variable {m : Machine} {w : Word} {x : Nibble}

/-- The step of a machine in front of `FX0A`. -/
theorem step_waitKey (hnext : m.nextWord? = some w) (hw : Names w (.waitKey x)) :
    m.step = (m.fetch.2.waitKey x).remember m.keypad := by
  obtain ⟨hrun, hword⟩ := nextWord?_eq_some_iff.mp hnext
  exact step_of_decode hrun hword (decode_of_names hw) (if_pos m.fits_zero)

/-- A key that went down is stored, and the machine moves on. -/
theorem step_waitKey_of_press (hnext : m.nextWord? = some w) (hw : Names w (.waitKey x))
    {k : Nibble} (hk : Keypad.firstPress? m.lastKeypad m.keypad = some k) :
    m.step =
      { m with
        v := m.v.set x.val (UInt8.ofNat k.val) x.isLt
        pc := m.pc + 2
        lastKeypad := m.keypad } := by
  have hfetch : Keypad.firstPress? m.fetch.2.lastKeypad m.fetch.2.keypad = some k := hk
  rw [step_waitKey hnext hw]
  unfold Machine.waitKey
  rw [hfetch]
  rfl

/-- Without one the machine stays where it is: going back undoes the fetch. -/
theorem step_waitKey_of_none (hnext : m.nextWord? = some w) (hw : Names w (.waitKey x))
    (hnone : Keypad.firstPress? m.lastKeypad m.keypad = none) :
    m.step = { m with lastKeypad := m.keypad } := by
  have hfetch : Keypad.firstPress? m.fetch.2.lastKeypad m.fetch.2.keypad = none := hnone
  have hback : m.pc + 2 - 2 = m.pc := UInt16.add_sub_cancel m.pc 2
  rw [step_waitKey hnext hw]
  unfold Machine.waitKey
  rw [hfetch]
  simp only [fetch, remember, hback]

end Machine

/-! ## What is remembered -/

/-- The commands of a host that make one step at most, and this from memory. -/
def Command.isSingle : Command → Bool
  | .step | .tick | .setKey _ _ | .setKeypad _ | .load _ | .clearFault | .reset _ => true
  | _ => false

namespace Machine

/-- A completed step remembers the keypad, and any other leaves what is remembered. -/
theorem step_lastKeypad (m : Machine) :
    m.step.lastKeypad =
      if m.faulted = false ∧ m.step.faulted = false then m.step.keypad else m.lastKeypad := by
  generalize hr : m.step = r
  cases steps_iff.mpr hr
  case halted hh =>
    rw [if_neg]
    intro h
    simp [hh] at h
  case pastEnd | refused =>
    rw [if_neg]
    · rfl
    · intro h
      rw [faulted_trip] at h
      cases h.2
  case done w i hrun hpc hw hi hf =>
    have hkeypad : ((i.effect m.fetch.2).remember m.keypad).keypad = m.keypad :=
      (i.effect_keepsHost m.fetch.2).keypad
    have hdone : ((i.effect m.fetch.2).remember m.keypad).faulted = false :=
      (m.fetch.2.faulted_effect i).trans hrun
    rw [if_pos ⟨hrun, hdone⟩, hkeypad]
    rfl

/-- A command that neither steps nor resets leaves what is remembered. -/
theorem after_lastKeypad (m : Machine) {c : Command} (hc : c.isSingle = true) (hstep : c ≠ .step)
    (hreset : ∀ key, c ≠ .reset key) : (m.after c).lastKeypad = m.lastKeypad := by
  generalize hr : m.after c = r
  cases hr ▸ m.obeys_after c
  case step => exact absurd rfl hstep
  case reset key => exact absurd rfl (hreset key)
  case execute | run | runFrame | runFrames => cases hc
  all_goals rfl

end Machine

/-! ## The notes of a host -/

/-- A machine, and the keypads at the ends of the steps that it has completed since power-on or
the last reset. -/
structure History where
  machine : Machine
  keypads : List Keypad

namespace History

/-- Notes the keypad at the end of a step that is completed: one that starts from a running machine
and ends without a fault. -/
def after (s : History) (c : Command) : History where
  machine := s.machine.after c
  keypads :=
    match c with
    | .step =>
      if s.machine.faulted = false ∧ s.machine.step.faulted = false then
        s.keypads ++ [s.machine.step.keypad]
      else s.keypads
    | .reset _ => []
    | _ => s.keypads

/-- The history of a machine under a sequence of commands from power-on. -/
def ofCommands (key : Random.Key) (dialect : Dialect) (cs : List Command) : History :=
  cs.foldl after ⟨Machine.powerOn key dialect, []⟩

/-- The keypad at the end of the last completed step; with none, no key is down. -/
def lastKeypad (s : History) : Keypad := s.keypads.getLastD .released

variable {s : History} {c : Command}

/-- What the machine remembers is what the host has noted last, and stays so. -/
theorem remembered_after (h : s.machine.lastKeypad = s.lastKeypad) (hc : c.isSingle = true) :
    (s.after c).machine.lastKeypad = (s.after c).lastKeypad := by
  by_cases hstep : c = .step
  · subst hstep
    have hnote := s.machine.step_lastKeypad
    simp only [after, lastKeypad, Machine.after, Machine.perform]
    rw [hnote]
    split
    · rw [List.getLastD_concat]
    · exact h
  · by_cases hreset : ∃ key, c = .reset key
    · obtain ⟨key, rfl⟩ := hreset
      rfl
    · have hkeypads : (s.after c).lastKeypad = s.lastKeypad := by
        cases c
        case step => exact absurd rfl hstep
        case reset key => exact absurd ⟨key, rfl⟩ hreset
        all_goals rfl
      rw [hkeypads, ← h]
      exact s.machine.after_lastKeypad hc hstep fun key hkey => hreset ⟨key, hkey⟩

/-- Through any sequence of commands the machine remembers what the host has noted last. -/
theorem remembered (key : Random.Key) (dialect : Dialect) {cs : List Command}
    (hcs : ∀ c ∈ cs, c.isSingle = true) :
    (ofCommands key dialect cs).machine.lastKeypad = (ofCommands key dialect cs).lastKeypad := by
  induction cs using List.reverseRecOn with
  | nil => rfl
  | append_singleton cs c ih =>
    have hlast : c.isSingle = true := hcs c (by simp)
    unfold ofCommands at ih ⊢
    rw [List.foldl_append]
    exact remembered_after (ih fun d hd => hcs d (by simp [hd])) hlast

end History

namespace Machine

open Instruction

/-- Take a machine that came about from power-on by any sequence of steps, ticks, changes of keys,
loads, cleared faults and resets, and let `h` be the keypad at the end of the last completed step
since power-on or the last reset, with no key down if there was none. When the machine runs and
stands in front of `FX0A`, the keypad is remembered; if some key is down now that is up in `h`, then
the least such key is stored in `VX`, the program counter moves behind the word and nothing else
changes, and if there is none, nothing else changes at all. -/
theorem waitKey_takes_press {key : Random.Key} {dialect : Dialect} {cs : List Command}
    (hcs : ∀ c ∈ cs, c.isSingle = true) {m : Machine} {h : Keypad}
    (hm : (History.ofCommands key dialect cs).machine = m)
    (hh : (History.ofCommands key dialect cs).lastKeypad = h)
    {w : Word} {x : Nibble} (hnext : m.nextWord? = some w) (hw : Names w (.waitKey x)) :
    ((∃ k, Keypad.Pressed h m.keypad k) →
      m.step.pc.toNat = m.pc.toNat + 2 ∧
      ∃ k, Keypad.Pressed h m.keypad k ∧ (∀ j, j < k → ¬ Keypad.Pressed h m.keypad j) ∧
        m.step =
          { m with
            v := m.v.set x.val (UInt8.ofNat k.val) x.isLt
            pc := m.pc + 2
            lastKeypad := m.keypad }) ∧
    ((∀ k, ¬ Keypad.Pressed h m.keypad k) → m.step = { m with lastKeypad := m.keypad }) := by
  subst hm hh
  have hnote := History.remembered key dialect hcs
  generalize History.ofCommands key dialect cs = s at hnext hnote ⊢
  rw [← hnote]
  constructor
  · rintro ⟨k, hk⟩
    cases hfirst : Keypad.firstPress? s.machine.lastKeypad s.machine.keypad with
    | none => exact absurd hk (Keypad.firstPress?_eq_none_iff.mp hfirst k)
    | some k =>
      obtain ⟨hpressed, hleast⟩ := Keypad.firstPress?_eq_some_iff.mp hfirst
      have hstep := step_waitKey_of_press hnext hw hfirst
      have hle := (nextWord?_eq_some_iff.mp hnext).2.le
      refine ⟨?_, k, hpressed, hleast, hstep⟩
      rw [hstep]
      exact toNat_add_two (Nat.le_trans hle (by decide))
  · intro hnone
    exact step_waitKey_of_none hnext hw (Keypad.firstPress?_eq_none_iff.mpr hnone)

/-- A machine whose host has pressed two keys, stepped into a word that faults, cleared the fault
and loaded `F30A` in its place. -/
def interruptedWait : List Command :=
  [.load [0x00, 0x00], .setKey 9 true, .setKey 5 true, .step, .clearFault, .load [0xF3, 0x0A]]

/-- The step that faulted has noted nothing, so both keys count as gone down, and key five is
stored. -/
theorem waitKey_takes_press_interruptedWait :
    let s := History.ofCommands ⟨0, 0⟩ .classic interruptedWait
    (∀ c ∈ interruptedWait, c.isSingle = true) ∧ s.machine.nextWord? = some 0xF30A ∧
      s.lastKeypad = .released ∧ s.machine.step.pc.toNat = s.machine.pc.toNat + 2 ∧
      s.machine.step =
        { s.machine with
          v := s.machine.v.set 3 5
          pc := s.machine.pc + 2
          lastKeypad := s.machine.keypad } := by
  intro s
  have hcs : ∀ c ∈ interruptedWait, c.isSingle = true := by decide
  have hnext : s.machine.nextWord? = some 0xF30A := by decide +kernel
  have hnone : s.lastKeypad = .released := by decide +kernel
  have hw : Names 0xF30A (.waitKey 3) := ⟨⟨by decide, by decide⟩, by decide⟩
  have hfive : Keypad.firstPress? .released s.machine.keypad = some 5 := by decide +kernel
  obtain ⟨hpress, -⟩ := waitKey_takes_press hcs rfl hnone hnext hw
  obtain ⟨hpc, k, hk, hleast, hstep⟩ := hpress ⟨5, (Keypad.firstPress?_eq_some_iff.mp hfive).1⟩
  have hfirst := Keypad.firstPress?_eq_some_iff.mpr ⟨hk, hleast⟩
  obtain rfl : 5 = k := Option.some.inj (hfive.symm.trans hfirst)
  exact ⟨hcs, hnext, hnone, hpc, hstep⟩

end Machine

end Chip8
