import Chip8.Proofs.Changes
import Chip8.Proofs.WriteSets

/-!
# Parts that nothing reads

The sound timer is counted down and set, and no instruction asks for it. The random source is asked by
`CXNN` alone. So a machine cannot tell by what it does that one of the two was changed: it executes the
same words, faults where it faulted, and shows the same in all other parts.

`Machine.executed` lists the words that a sequence of commands executes. `Machine.Blind` says of a
relation between two machines that single commands keep it, and that related machines execute the same
word, as long as the words executed have a property; `Blind.afterAll` is the induction over the
sequence. That two machines differ in the sound timer at most, or in the source at most, are such
relations. `unread_parts` is the top.
-/

set_option autoImplicit false

namespace Chip8

namespace Machine

/-! ## The words that commands execute -/

/-- The word that a command executes, if it executes a single one. -/
def word? (m : Machine) : Command → Option Word
  | .step => m.nextWord?
  | .execute n => if m.faulted = false ∧ Count.fits n = true then some (Word.ofInt n) else none
  | _ => none

/-- The words that a sequence of single commands executes, in their order. -/
def words (m : Machine) : List Command → List Word
  | [] => []
  | c :: cs => (m.word? c).toList ++ (m.after c).words cs

/-- The words that a sequence of commands executes, in their order, with those of its runs and
frames. -/
def executed (m : Machine) (cs : List Command) : List Word :=
  m.words (cs.flatMap Command.unrolled)

variable {m r : Machine} {c : Command} {w : Word}

/-- A word that is handed over is executed as it is. -/
theorem after_execute_of_word? {n : Int} (h : m.word? (.execute n) = some w) :
    m.faulted = false ∧ m.after (.execute n) = m.execute w := by
  simp only [word?] at h
  split at h
  · rename_i hrun
    cases h
    refine ⟨hrun.1, ?_⟩
    simp only [after, perform, Count.check, hrun.2, if_true]
    rfl
  · cases h

/-- Where no word is executed, a word that is handed over has no effect. -/
theorem after_execute_of_none {n : Int} (h : m.word? (.execute n) = none) :
    m.after (.execute n) = m := by
  simp only [word?] at h
  split at h
  · cases h
  · rename_i hrun
    by_cases hfits : Count.fits n = true
    · simp only [hfits, and_true, Bool.not_eq_false] at hrun
      simp only [after, perform, Count.check, hfits, if_true]
      exact execute_of_faulted hrun _
    · simp only [after, perform, Count.check, if_neg hfits]
      rfl

/-- A command executes a word to its end: the word is not refused. -/
def Completes (m : Machine) (c : Command) (w : Word) : Prop :=
  m.word? c = some w ∧ (m.after c).faulted = false

/-- The word that a command completes is the one it is about to execute. -/
theorem Completes.word_eq (h : m.Completes c w) {v : Word} (hv : m.word? c = some v) : v = w :=
  Option.some.inj (hv.symm.trans h.1)

/-- An instruction whose effect a step leaves was completed. -/
theorem completes_of_step {i : Instruction} (hrun : m.faulted = false)
    (hw : m.memory.HoldsWord m.pc.toNat w)
    (hstep : m.step = (i.effect m.fetch.2).remember m.keypad) : m.Completes .step w := by
  refine ⟨nextWord?_eq_some_iff.mpr ⟨hrun, hw⟩, ?_⟩
  show m.step.faulted = false
  rw [hstep]
  exact (m.fetch.2.faulted_effect i).trans hrun

/-! ## Relations that commands keep -/

/-- Single commands keep the relation as long as every word that is executed has the property, and
related machines execute the same word. -/
structure Blind (R : Machine → Machine → Prop) (P : Word → Prop) : Prop where
  word? : ∀ {m r} c, R m r → r.word? c = m.word? c
  after : ∀ {m r} c, c.isRun = false → R m r → (∀ w, m.word? c = some w → P w) →
    R (m.after c) (r.after c)

namespace Blind

variable {R : Machine → Machine → Prop} {P : Word → Prop}

/-- A relation that single commands keep is kept by a sequence of them, and both machines execute
the same words. -/
theorem words (hR : Blind R P) {cs : List Command} (hcs : ∀ c ∈ cs, c.isRun = false) (h : R m r)
    (hP : ∀ w ∈ m.words cs, P w) :
    R (m.afterAll cs) (r.afterAll cs) ∧ r.words cs = m.words cs := by
  induction cs generalizing m r with
  | nil => exact ⟨h, rfl⟩
  | cons c cs ih =>
    have hword := hR.word? c h
    have hnext : R (m.after c) (r.after c) := by
      apply hR.after c (hcs c List.mem_cons_self) h
      intro w hw
      apply hP
      simp only [Machine.words, hw, Option.toList_some, List.mem_append, List.mem_singleton, true_or]
    have hrest : ∀ w ∈ (m.after c).words cs, P w :=
      fun w hw => hP w (List.mem_append_right _ hw)
    obtain ⟨hlast, hwords⟩ := ih (fun d hd => hcs d (List.mem_cons_of_mem c hd)) hnext hrest
    refine ⟨hlast, ?_⟩
    rw [Machine.words, Machine.words, hword, hwords]

/-- Commands of every kind keep the relation, as long as the words executed have the property, and
related machines execute the same words. -/
theorem afterAll (hR : Blind R P) {cs : List Command} (h : R m r)
    (hP : ∀ w ∈ m.executed cs, P w) :
    R (m.afterAll cs) (r.afterAll cs) ∧ r.executed cs = m.executed cs := by
  rw [← m.afterAll_flatMap_unrolled, ← r.afterAll_flatMap_unrolled]
  exact hR.words (Command.isRun_flatMap_unrolled cs) h hP

end Blind

/-- A change that a cycle does not notice leaves the word that is executed alone. -/
theorem Unnoticed.word? {T : Machine → Machine} (hT : Unnoticed T) (m : Machine) (c : Command) :
    (T m).word? c = m.word? c := by
  cases c
  case step => exact hT.nextWord? m
  case execute n => simp only [Machine.word?, hT.faulted]
  all_goals rfl

/-- Let a relation hold before and after an unheeded change. If the instruction of the word that a
single command executes commutes with the change, the command keeps the relation, provided that ticks
and resets do. -/
theorem Unheeded.related_after {T : Machine → Machine} (hT : Unheeded T)
    {R : Machine → Machine → Prop} (hR : ∀ q, R q (T q)) (htick : R m.tick (T m).tick)
    (hreset : ∀ key, R (m.reset key) ((T m).reset key)) (hrun : c.isRun = false)
    (hi : ∀ w, m.word? c = some w → ∀ i, Instruction.Names w i → ∀ q,
      i.effect (T q) = T (i.effect q)) :
    R (m.after c) ((T m).after c) := by
  cases c
  case run | runFrame | runFrames => cases hrun
  case tick => exact htick
  case reset key => exact hreset key
  case setKey | setKeypad | load | clearFault =>
    rw [hT.after_eq m rfl]
    exact hR _
  case step =>
    have hstep : (T m).after .step = T (m.after .step) :=
      hT.step_eq fun w hw i hnames => hi w hw i hnames m.fetch.2
    rw [hstep]
    exact hR _
  case execute n =>
    have hword := hT.word? m (.execute n)
    cases hw : m.word? (.execute n) with
    | none =>
      rw [hw] at hword
      rw [after_execute_of_none hw, after_execute_of_none hword]
      exact hR m
    | some w =>
      rw [hw] at hword
      rw [(after_execute_of_word? hw).2, (after_execute_of_word? hword).2,
        hT.execute_eq fun i hnames => hi w hw i hnames m]
      exact hR _

/-! ## The sound timer -/

/-- The machine `r` is the machine `m` in all but the sound timer. -/
def SameButSound (m r : Machine) : Prop := r = { m with soundTimer := r.soundTimer }

/-- The machine with another sound timer. -/
def withSound (m : Machine) (t : UInt8) : Machine := m.beside id (fun _ => t) id

/-- The sound timer can be changed without a cycle or a host taking notice. -/
theorem unheeded_withSound (t : UInt8) : Unheeded fun m => m.withSound t :=
  unheeded_beside id (fun _ => t) id

/-- Machines that differ in the sound timer are one machine with two sound timers. -/
theorem SameButSound.eq (h : m.SameButSound r) : r = m.withSound r.soundTimer := h

/-- Where `FX18` is executed, what the sound timer showed before is lost. -/
theorem after_withSound_of_setSound (t : UInt8) (hw : m.word? c = some w) (hset : w.IsMisc 0x18) :
    (m.withSound t).after c = m.after c := by
  have hdecode : Instruction.decode w = some (.setSound (Fields.ofWord w).x) :=
    Instruction.decode_of_names ⟨(Instruction.hasXY_fields hset.1).1, hset.2⟩
  have hfault : ∀ q : Machine, (Instruction.setSound (Fields.ofWord w).x).fault? q = none :=
    fun q => if_pos q.fits_zero
  have hother := (unheeded_withSound t).word? m c
  rw [hw] at hother
  cases c
  case step =>
    obtain ⟨hrun, hword⟩ := nextWord?_eq_some_iff.mp hw
    have hstep := step_of_decode hrun hword hdecode (hfault _)
    have hstep' := step_of_decode (m := m.withSound t) hrun hword hdecode (hfault _)
    exact hstep'.trans hstep.symm
  case execute n =>
    obtain ⟨hrun, hexecute⟩ := after_execute_of_word? hw
    obtain ⟨hrun', hexecute'⟩ := after_execute_of_word? hother
    rw [hexecute, hexecute', executes_iff.mp (.done hrun hdecode (hfault m)),
      executes_iff.mp (.done hrun' hdecode (hfault (m.withSound t)))]
    rfl
  all_goals cases hw

/-- No word reads the sound timer. -/
theorem blind_sameButSound : Blind SameButSound fun _ => True where
  word? := by
    intro m r c h
    rw [h.eq]
    exact (unheeded_withSound _).word? m c
  after := by
    intro m r c hrun h _
    rw [h.eq]
    generalize r.soundTimer = t
    by_cases hset : ∃ w, m.word? c = some w ∧ w.IsMisc 0x18
    · obtain ⟨w, hw, hset⟩ := hset
      rw [after_withSound_of_setSound t hw hset]
      rfl
    · have hcommutes : ∀ w, m.word? c = some w → ∀ i, Instruction.Names w i → ∀ q : Machine,
          i.effect (q.withSound t) = (i.effect q).withSound t := by
        intro w hw i hi q
        apply Instruction.effect_beside q (fun _ => rfl) _ fun _ => rfl
        intro hsets
        cases i
        case setSound x => exact absurd ⟨w, hw, hi.1.1, hi.2⟩ hset
        all_goals cases hsets
      exact (unheeded_withSound t).related_after (fun _ => rfl) rfl (fun _ => rfl) hrun hcommutes

/-- From the first `FX18` on the machines are the same. -/
theorem SameButSound.afterAll_eq {cs : List Command} (hcs : ∀ c ∈ cs, c.isRun = false)
    (h : m.SameButSound r) (hset : ∃ w ∈ m.words cs, w.IsMisc 0x18) :
    r.afterAll cs = m.afterAll cs := by
  obtain ⟨w, hw, hset⟩ := hset
  induction cs generalizing m r with
  | nil => cases hw
  | cons c cs ih =>
    rw [words, List.mem_append, Option.mem_toList] at hw
    rcases hw with hw | hw
    · have hsame : r.after c = m.after c := by
        rw [h.eq]
        exact after_withSound_of_setSound _ hw hset
      exact congrArg (fun q : Machine => q.afterAll cs) hsame
    · apply ih (fun d hd => hcs d (List.mem_cons_of_mem c hd)) _ hw
      exact blind_sameButSound.after c (hcs c List.mem_cons_self) h fun _ _ => trivial

/-! ## The random source -/

/-- The machine `r` is the machine `m` in all but the random source. -/
def SameButSource (m r : Machine) : Prop := r = { m with rng := r.rng }

/-- The machine with another random source. -/
def withSource (m : Machine) (k : Random.Key) : Machine := m.beside id id fun _ => k

/-- The random source can be changed without a cycle or a host taking notice. -/
theorem unheeded_withSource (k : Random.Key) : Unheeded fun m => m.withSource k :=
  unheeded_beside id id fun _ => k

/-- Machines that differ in the random source are one machine with two sources. -/
theorem SameButSource.eq (h : m.SameButSource r) : r = m.withSource r.rng := h

/-- No word but `CXNN` reads the random source. -/
theorem blind_sameButSource : Blind SameButSource fun w => w.toNat / 4096 ≠ 0xC where
  word? := by
    intro m r c h
    rw [h.eq]
    exact (unheeded_withSource _).word? m c
  after := by
    intro m r c hrun h hdraw
    rw [h.eq]
    generalize r.rng = k
    have hcommutes : ∀ w, m.word? c = some w → ∀ i, Instruction.Names w i → ∀ q : Machine,
        i.effect (q.withSource k) = (i.effect q).withSource k := by
      intro w hw i hi q
      apply Instruction.effect_beside q (fun _ => rfl) fun _ => rfl
      intro hdraws
      cases i
      case random x mask => exact absurd hi.1.1 (hdraw w hw)
      all_goals cases hdraws
    exact (unheeded_withSource k).related_after (fun _ => rfl) rfl (fun _ => rfl) hrun hcommutes

/-! ## Both -/

/-- The machine `r` is the machine `m` in all but the random source and the sound timer. -/
def SameButSourceAndSound (m r : Machine) : Prop :=
  r = { m with rng := r.rng, soundTimer := r.soundTimer }

/-- To differ in both is to differ in one and then in the other. -/
theorem sameButSourceAndSound_iff :
    m.SameButSourceAndSound r ↔ ∃ q, m.SameButSource q ∧ q.SameButSound r := by
  constructor
  · intro h
    exact ⟨m.withSource r.rng, rfl, h⟩
  · rintro ⟨q, hsource, hsound⟩
    obtain ⟨k, rfl⟩ : ∃ k, q = m.withSource k := ⟨_, hsource.eq⟩
    obtain ⟨t, rfl⟩ : ∃ t, r = (m.withSource k).withSound t := ⟨_, hsound.eq⟩
    rfl

/-- Let two machines obey the same sequence of commands, of any kind. If they differ in the sound timer
at most, they execute the same words and differ in the sound timer at most at the end, and not at all
once an `FX18` was among the words. If they differ in the random source at most, or in the source and
the sound timer, and the first executes no `CXNN`, they execute the same words, so the second executes
none either, and they differ in no more at the end, faults included. -/
theorem unread_parts (m r : Machine) (cs : List Command) :
    (m.SameButSound r →
      (m.afterAll cs).SameButSound (r.afterAll cs) ∧ r.executed cs = m.executed cs ∧
      ((∃ w ∈ m.executed cs, w.IsMisc 0x18) → r.afterAll cs = m.afterAll cs)) ∧
    ((∀ w ∈ m.executed cs, w.toNat / 4096 ≠ 0xC) →
      (m.SameButSource r →
        (m.afterAll cs).SameButSource (r.afterAll cs) ∧ r.executed cs = m.executed cs) ∧
      (m.SameButSourceAndSound r →
        (m.afterAll cs).SameButSourceAndSound (r.afterAll cs) ∧
          r.executed cs = m.executed cs)) := by
  refine ⟨fun h => ?_, fun hdraw => ⟨fun h => ?_, fun h => ?_⟩⟩
  · have hall : ∀ w ∈ m.executed cs, True := fun _ _ => trivial
    obtain ⟨hlast, hwords⟩ := blind_sameButSound.afterAll h hall
    refine ⟨hlast, hwords, fun hset => ?_⟩
    rw [← m.afterAll_flatMap_unrolled, ← r.afterAll_flatMap_unrolled]
    exact h.afterAll_eq (Command.isRun_flatMap_unrolled cs) hset
  · exact blind_sameButSource.afterAll h hdraw
  · obtain ⟨q, hsource, hsound⟩ := sameButSourceAndSound_iff.mp h
    obtain ⟨hlast, hwords⟩ := blind_sameButSource.afterAll hsource hdraw
    have hall : ∀ w ∈ q.executed cs, True := fun _ _ => trivial
    obtain ⟨hlast', hwords'⟩ := blind_sameButSound.afterAll hsound hall
    exact ⟨sameButSourceAndSound_iff.mpr ⟨_, hlast, hlast'⟩, hwords'.trans hwords⟩

/-- A machine that sets its sound timer and then goes round in a circle. -/
def beeping : Machine := bare [0x60, 0x05, 0xF0, 0x18, 0x12, 0x04]

/-- Two frames, a key, a tick and a plain run, with a run in between that is refused. -/
def visit : List Command :=
  [.runFrames 2 1, .setKey 3 true, .run 0x80000000, .tick, .run 2, .setKey 99 true]

/-- The sound timer is set in the second frame, and no byte is drawn. -/
theorem unread_parts_beeping :
    beeping.executed visit = [0x6005, 0xF018, 0x1204, 0x1204] ∧
      beeping.SameButSound (beeping.withSound 9) ∧
      (beeping.withSound 9).executed visit = [0x6005, 0xF018, 0x1204, 0x1204] ∧
      (beeping.withSound 9).afterAll visit = beeping.afterAll visit ∧
      beeping.SameButSource (beeping.withSource ⟨1, 2⟩) ∧
      (beeping.afterAll visit).SameButSource ((beeping.withSource ⟨1, 2⟩).afterAll visit) ∧
      beeping.SameButSourceAndSound ((beeping.withSource ⟨1, 2⟩).withSound 9) ∧
      (beeping.afterAll visit).SameButSourceAndSound
        (((beeping.withSource ⟨1, 2⟩).withSound 9).afterAll visit) := by
  have hwords : beeping.executed visit = [0x6005, 0xF018, 0x1204, 0x1204] := by decide +kernel
  have hset : ∃ w ∈ beeping.executed visit, w.IsMisc 0x18 := by
    rw [hwords]
    exact ⟨0xF018, by decide, by decide⟩
  have hdraw : ∀ w ∈ beeping.executed visit, w.toNat / 4096 ≠ 0xC := by
    rw [hwords]
    simp
  have hsound : beeping.SameButSound (beeping.withSound 9) := rfl
  have hsource : beeping.SameButSource (beeping.withSource ⟨1, 2⟩) := rfl
  have hboth : beeping.SameButSourceAndSound ((beeping.withSource ⟨1, 2⟩).withSound 9) := rfl
  obtain ⟨-, hsame, hequal⟩ := (unread_parts beeping _ visit).1 hsound
  obtain ⟨hsourceAfter, -⟩ := ((unread_parts beeping _ visit).2 hdraw).1 hsource
  obtain ⟨hbothAfter, -⟩ := ((unread_parts beeping _ visit).2 hdraw).2 hboth
  exact ⟨hwords, hsound, hsame.trans hwords, hequal hset, hsource, hsourceAfter, hboth,
    hbothAfter⟩

end Machine

end Chip8
