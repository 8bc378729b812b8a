import Chip8.Proofs.FaultCauses
import Chip8.Proofs.Halting

/-!
# What a report says

A host that has let a machine run reads one report from it. This file says which: the report names the
first step of the run that faulted, by the machine as it stood before that step, and it does so however
much of the run came after. `Fault.Report.Explains` is what a report says of such a machine: where it
stood, which word it could not carry out, and why.

`Machine.Reported us last` says of the machines `us` that stood before the steps of a run, in their
order, and of the machine at its end that the report fits. Such runs can be put together
(`Reported.append`), and with that both loops, the steps of a run and the frames around them, are
followed one iteration at a time. `report_names_first_fault` is the top.
-/

set_option autoImplicit false

namespace Chip8

namespace Fault

/-- The latch gives back the fault whose code it holds. -/
theorem ofCode?_code (f : Fault) : ofCode? f.code = some f := by
  cases f
  all_goals rfl

/-- Different faults have different names. -/
theorem name_injective {f g : Fault} (h : f.name = g.name) : f = g := by
  cases f
  all_goals cases g
  all_goals first
    | rfl
    | exact absurd h (by decide)

namespace Report

/-- The report speaks of the machine `u`, which stands before a step that faults. -/
structure Explains (r : Report) (u : Machine) : Prop where
  /-- It gives the place of the word. -/
  pc : r.pc = u.pc
  /-- It gives the word. -/
  word : u.pc.toNat ≤ 4094 → u.memory.HoldsWord u.pc.toNat r.word
  /-- It gives zero if there is no word to fetch. -/
  noWord : 4094 < u.pc.toNat → r.word = 0
  decode : r.name = "DecodeFault" ↔ u.pc.toNat ≤ 4094 ∧ r.word.Unassigned
  overflow : r.name = "StackOverflowFault" ↔
    u.pc.toNat ≤ 4094 ∧ r.word.toNat / 4096 = 0x2 ∧ 16 ≤ u.stack.pointer.toNat
  underflow : r.name = "StackUnderflowFault" ↔
    u.pc.toNat ≤ 4094 ∧ r.word.toNat = 0x00EE ∧ u.stack.pointer = 0
  memory : r.name = "MemoryFault" ↔
    4094 < u.pc.toNat ∨ u.pc.toNat ≤ 4094 ∧ Fault.memory.Cause u r.word
  /-- There is no other name. -/
  named : ∃ f : Fault, r.name = f.name

/-- A report that was made of a fault bears its name. -/
theorem name_of_code (f : Fault) (pc : UInt16) (w : Word) : (Report.mk f.code pc w).name = f.name := by
  simp only [name, fault?, ofCode?_code]

/-- The report of a word that is refused. -/
theorem explains_of_fault? {u : Machine} {w : Word} {f : Fault} (hpc : u.pc.toNat ≤ 4094)
    (hw : u.memory.HoldsWord u.pc.toNat w) (hf : u.fault? w = some f) :
    Explains ⟨f.code, u.pc, w⟩ u := by
  have hname : ∀ g : Fault,
      (Report.mk f.code u.pc w).name = g.name ↔ u.pc.toNat ≤ 4094 ∧ g.Cause u w := by
    intro g
    rw [name_of_code, ← Machine.fault?_eq_some_iff, hf, Option.some.injEq]
    constructor
    · intro h
      exact ⟨hpc, name_injective h⟩
    · rintro ⟨-, rfl⟩
      rfl
  have hinside : ¬ 4094 < u.pc.toNat := Nat.not_lt_of_le hpc
  refine ⟨rfl, fun _ => hw, fun h => absurd h hinside, hname .decode, hname .stackOverflow,
    hname .stackUnderflow, ?_, f, name_of_code f u.pc w⟩
  simp only [hinside, false_or]
  exact hname .memory

/-- The report of a fetch past the last word. -/
theorem explains_of_pastEnd {u : Machine} (hpc : 4094 < u.pc.toNat) :
    Explains ⟨memory.code, u.pc, 0⟩ u := by
  have houtside : ¬ u.pc.toNat ≤ 4094 := Nat.not_le_of_lt hpc
  have hother : ∀ g : Fault, g ≠ .memory → (Report.mk memory.code u.pc 0).name ≠ g.name := by
    intro g hg hname
    rw [name_of_code] at hname
    exact hg (name_injective hname).symm
  refine ⟨rfl, fun h => absurd h houtside, fun _ => rfl, ?_, ?_, ?_, ?_, .memory, rfl⟩
  · exact iff_of_false (hother .decode nofun) fun h => houtside h.1
  · exact iff_of_false (hother .stackOverflow nofun) fun h => houtside h.1
  · exact iff_of_false (hother .stackUnderflow nofun) fun h => houtside h.1
  · exact iff_of_true rfl (.inl hpc)

end Report

end Fault

namespace Machine

open Fault (Report)

variable {m a b : Machine} {us vs : List Machine}

/-- There is nothing to report of a machine that runs. -/
theorem faultReport?_eq_none_iff : m.faultReport? = none ↔ m.faulted = false := by
  unfold faultReport?
  cases m.faulted
  all_goals simp

/-- There is a report of a machine that has halted. -/
theorem exists_faultReport?_iff : (∃ r, m.faultReport? = some r) ↔ m.faulted = true := by
  unfold faultReport?
  cases m.faulted
  all_goals simp

/-- The report after a step that faults speaks of the machine before it. -/
theorem report_step (hrun : m.faulted = false) (hstep : m.step.faulted = true) :
    ∃ r, m.step.faultReport? = some r ∧ r.Explains m := by
  generalize hr : m.step = r at hstep ⊢
  cases steps_iff.mpr hr
  case halted hh =>
    rw [hrun] at hh
    cases hh
  case pastEnd hpc => exact ⟨_, rfl, Report.explains_of_pastEnd hpc⟩
  case refused w f _ hpc hw hf =>
    refine ⟨_, ?_, Report.explains_of_fault? hpc hw hf⟩
    rw [faultReport?, if_pos hstep]
    rfl
  case done w i _ _ hw hi hf =>
    have hkeep : (i.effect m.fetch.2).faulted = false := (m.fetch.2.faulted_effect i).trans hrun
    have hdone : ((i.effect m.fetch.2).remember m.keypad).faulted = false := hkeep
    rw [hdone] at hstep
    cases hstep

/-! ## Runs, one iteration at a time -/

/-- The machine `last` is at the end of a run in which the machines `us` stood before the steps, in
their order. It reports nothing if no step faulted, and the first step that did if there is one. -/
structure Reported (us : List Machine) (last : Machine) : Prop where
  none_iff : last.faultReport? = none ↔ ∀ u ∈ us, u.step.faulted = false
  first : ∀ u, us.find? (fun u => u.step.faulted) = some u →
    ∃ r, last.faultReport? = some r ∧ r.Explains u

namespace Reported

/-- A run of no steps reports nothing. -/
theorem nil (h : m.faulted = false) : Reported [] m where
  none_iff := iff_of_true (faultReport?_eq_none_iff.mpr h) nofun
  first := nofun

/-- A run of one step reports what the step does. -/
theorem step (h : m.faulted = false) : Reported [m] m.step where
  none_iff := by simp [faultReport?_eq_none_iff]
  first := by
    intro u hu
    obtain ⟨hfault, hmem⟩ := And.intro (List.find?_some hu) (List.mem_of_find?_eq_some hu)
    obtain rfl := List.mem_singleton.mp hmem
    exact report_step h hfault

/-- The clock changes no report. -/
theorem tick (h : Reported us a) : Reported us a.tick := ⟨h.none_iff, h.first⟩

/-- A run goes on with the steps `vs` if nothing has faulted, and with nothing that changes its report
if something has. -/
theorem append (h : Reported us a) (hrun : a.faulted = false → Reported vs b)
    (hhalt : a.faulted = true → b.faultReport? = a.faultReport?) : Reported (us ++ vs) b := by
  have hall : (∀ u ∈ us ++ vs, u.step.faulted = false) ↔
      (∀ u ∈ us, u.step.faulted = false) ∧ ∀ u ∈ vs, u.step.faulted = false :=
    List.forall_mem_append
  cases ha : a.faulted with
  | false =>
    have hquiet := h.none_iff.mp (faultReport?_eq_none_iff.mpr ha)
    have hfind : us.find? (fun u => u.step.faulted) = none := by
      rw [List.find?_eq_none]
      intro u hu
      simp [hquiet u hu]
    constructor
    · rw [hall, (hrun ha).none_iff]
      exact ⟨fun hvs => ⟨hquiet, hvs⟩, fun hboth => hboth.2⟩
    · intro u hu
      rw [List.find?_append, hfind, Option.none_or] at hu
      exact (hrun ha).first u hu
  | true =>
    have hsome : a.faultReport? ≠ none := by
      rw [ne_eq, faultReport?_eq_none_iff, ha]
      exact Bool.noConfusion
    have hloud : ¬ ∀ u ∈ us, u.step.faulted = false := fun hquiet => hsome (h.none_iff.mpr hquiet)
    constructor
    · rw [hall, hhalt ha]
      exact iff_of_false hsome fun hboth => hloud hboth.1
    · intro u hu
      rw [List.find?_append] at hu
      cases hfind : us.find? (fun u => u.step.faulted) with
      | none =>
        rw [List.find?_eq_none] at hfind
        exact absurd (fun v hv => Bool.eq_false_iff.mpr (hfind v hv)) hloud
      | some v =>
        rw [hfind, Option.some_or] at hu
        obtain rfl := Option.some.inj hu
        rw [hhalt ha]
        exact h.first v hfind

end Reported

/-- The machines that stand before the steps of a run of `n` steps. -/
def beforeSteps (m : Machine) (n : Nat) : List Machine := (List.range n).map m.run

/-- The machines that stand before the steps of `n` frames of `k` steps each. -/
def beforeFrameSteps (m : Machine) (n k : Nat) : List Machine :=
  (List.range n).flatMap fun f => (m.runFrames f k).beforeSteps k

/-- Step by step: a further step is made by a machine that runs, and changes nothing of one that has
halted. -/
theorem reported_run (hrun : m.faulted = false) (n : Nat) :
    Reported (m.beforeSteps n) (m.run n) := by
  induction n with
  | zero => exact .nil hrun
  | succ n ih =>
    rw [beforeSteps, List.range_succ, List.map_append, run_succ]
    apply ih.append
    · exact fun h => .step h
    · intro h
      rw [step_of_faulted h]

/-- Frame by frame: a further frame is a run and a tick, of which a machine that has halted only notices
the tick. -/
theorem reported_runFrames (hrun : m.faulted = false) (n k : Nat) :
    Reported (m.beforeFrameSteps n k) (m.runFrames n k) := by
  induction n with
  | zero => exact .nil hrun
  | succ n ih =>
    rw [beforeFrameSteps, List.range_succ, List.flatMap_append, List.flatMap_singleton,
      runFrames_succ]
    apply ih.append
    · exact fun h => (reported_run h k).tick
    · intro h
      rw [(idle_of_faulted h).run k]
      rfl

/-- Let a machine run for any number of steps, or of frames with any number of steps in each. If no
step faults there is nothing to report. Else the report is on the machine as it stood before the first
step that faults, whatever comes after: it gives the place, the word there (zero past the last word),
and the reason by name: the word is unassigned, or a call with a full stack, or a return with an empty
one, or the fetch or the transfer reaches past the end of memory. -/
theorem report_names_first_fault (m : Machine) (hrun : m.faulted = false) :
    (∀ n,
      ((m.run n).faultReport? = none ↔ ∀ u ∈ m.beforeSteps n, u.step.faulted = false) ∧
      ∀ u, (m.beforeSteps n).find? (fun u => u.step.faulted) = some u →
        ∃ r, (m.run n).faultReport? = some r ∧ r.Explains u) ∧
    (∀ n k,
      ((m.runFrames n k).faultReport? = none ↔
        ∀ u ∈ m.beforeFrameSteps n k, u.step.faulted = false) ∧
      ∀ u, (m.beforeFrameSteps n k).find? (fun u => u.step.faulted) = some u →
        ∃ r, (m.runFrames n k).faultReport? = some r ∧ r.Explains u) := by
  refine ⟨fun n => ?_, fun n k => ?_⟩
  · have hreported := reported_run hrun n
    exact ⟨hreported.none_iff, hreported.first⟩
  · have hreported := reported_runFrames hrun n k
    exact ⟨hreported.none_iff, hreported.first⟩

/-- A machine that sets a register and then returns with an empty stack. -/
def underflowing : Machine := { bare [0x60, 0x07, 0x00, 0xEE] with delayTimer := 9 }

/-- In frames of one step the return is met in the second frame; three frames later the report still
gives its place and its word. -/
theorem report_names_first_fault_underflowing :
    underflowing.faulted = false ∧
      (underflowing.beforeFrameSteps 5 1).find? (fun u => u.step.faulted) =
        some (underflowing.runFrames 1 1) ∧
      (∃ r, (underflowing.runFrames 5 1).faultReport? = some r ∧
        r.Explains (underflowing.runFrames 1 1) ∧
        r.name = "StackUnderflowFault" ∧ r.pc = 0x202 ∧ r.word = 0x00EE) ∧
      (underflowing.run 1).faultReport? = none := by
  have hrun : underflowing.faulted = false := by decide
  have hfirst : (underflowing.runFrames 0 1).step.faulted = false := by decide +kernel
  have hsecond : (underflowing.runFrames 1 1).step.faulted = true := by decide +kernel
  have hlist : underflowing.beforeFrameSteps 5 1 =
      [0, 1, 2, 3, 4].map fun f => underflowing.runFrames f 1 := rfl
  have hfind : (underflowing.beforeFrameSteps 5 1).find? (fun u => u.step.faulted) =
      some (underflowing.runFrames 1 1) := by
    rw [hlist]
    simp only [List.map_cons, List.find?_cons, hfirst, hsecond]
  have hquiet : ∀ u ∈ underflowing.beforeSteps 1, u.step.faulted = false := by decide +kernel
  have hword : (underflowing.runFrames 1 1).memory.HoldsWord
      (underflowing.runFrames 1 1).pc.toNat 0x00EE :=
    ⟨0x00, 0xEE, by decide +kernel, by decide +kernel, rfl⟩
  have hempty : (underflowing.runFrames 1 1).stack.pointer = 0 := by decide +kernel
  obtain ⟨hruns, hframes⟩ := report_names_first_fault underflowing hrun
  obtain ⟨r, hreport, hexplains⟩ := (hframes 5 1).2 _ hfind
  have hplace : (underflowing.runFrames 1 1).pc = 0x202 := by decide +kernel
  have hpc : r.pc = 0x202 := hexplains.pc.trans hplace
  have hsame : r.word = 0x00EE := (hexplains.word hword.le).unique hword
  have hname : r.name = "StackUnderflowFault" := by
    rw [hexplains.underflow, hsame]
    exact ⟨hword.le, by decide, hempty⟩
  exact ⟨hrun, hfind, ⟨r, hreport, hexplains, hname, hpc, hsame⟩, (hruns 1).1.mpr hquiet⟩

end Machine

end Chip8
