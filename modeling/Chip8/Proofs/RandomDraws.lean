import Chip8.Proofs.Commands
import Chip8.Proofs.WriteSets

/-!
# The stream of random bytes

`CXNN` draws a byte: it splits the key of the random source, keeps one half for the next draw and
takes the byte from the other. `Source.stream` lists the bytes that come of this from a first key
on. How a key is split, and which byte it yields, does not matter here, so a `Source` is any three
functions, and the machine is taken with its draws made from such a source (`Machine.stepFrom`). The
cipher of the machine is one of them.

`Source.Accounts` says of a list of draws that they took the stream byte after byte and that the key
has moved on by one for each of them. It holds of nothing drawn, and of one account after another
(`Accounts.append`), and so of any sequence of commands that do not set the source themselves:
`draws_follow_stream` is the top.
-/

set_option autoImplicit false

namespace Chip8

namespace Random

/-- A source of random bytes: the key of the next draw, the key that the present draw sets aside,
and the byte that a key set aside yields. -/
structure Source where
  next : Key → Key
  present : Key → Key
  bits : Key → UInt8

namespace Source

/-- The source that the machine draws from. -/
def threefry : Source := ⟨Key.next, Key.present, Key.bits⟩

/-- The bytes of a source from a key on, by the number of draws before. -/
def stream (src : Source) (k : Key) (i : Nat) : UInt8 := src.bits (src.present (src.next^[i] k))

end Source

/-- A draw that was made: the register that it set, the mask, and the byte that was stored. -/
structure Draw where
  register : Nibble
  mask : UInt8
  stored : UInt8
deriving DecidableEq

/-- From one key to another the draws took the stream byte after byte. -/
structure Source.Accounts (src : Source) (before : Key) (ds : List Draw) (after : Key) : Prop where
  key_eq : after = src.next^[ds.length] before
  stored_eq : ∀ i (h : i < ds.length), ds[i].stored = src.stream before i &&& ds[i].mask

namespace Source.Accounts

variable {src : Source} {a b c : Key} {ds es : List Draw}

/-- Without a draw the source is where it was. -/
theorem nil (src : Source) (k : Key) : src.Accounts k [] k := ⟨rfl, nofun⟩

/-- A draw stores a masked byte of the stream and moves the source on by one. -/
theorem singleton (src : Source) (k : Key) {d : Draw} (h : d.stored = src.stream k 0 &&& d.mask) :
    src.Accounts k [d] (src.next k) where
  key_eq := rfl
  stored_eq := by
    intro i hi
    obtain rfl : i = 0 := Nat.lt_one_iff.mp hi
    exact h

/-- The draws behind a key go on where the draws before it have stopped. -/
theorem append (h : src.Accounts a ds b) (h' : src.Accounts b es c) :
    src.Accounts a (ds ++ es) c where
  key_eq := by
    rw [h'.key_eq, h.key_eq, ← Function.iterate_add_apply, List.length_append, Nat.add_comm]
  stored_eq := by
    intro i hi
    by_cases hlt : i < ds.length
    · rw [List.getElem_append_left hlt]
      exact h.stored_eq i hlt
    · obtain ⟨j, rfl⟩ := Nat.exists_eq_add_of_le (Nat.le_of_not_lt hlt)
      have hj : j < es.length := by
        rw [List.length_append] at hi
        omega
      have hstream : src.stream b j = src.stream a (ds.length + j) := by
        rw [stream, stream, h.key_eq, ← Function.iterate_add_apply, Nat.add_comm]
      simp only [List.getElem_append_right (Nat.le_add_right _ _), Nat.add_sub_cancel_left]
      rw [← hstream]
      exact h'.stored_eq j hj

end Source.Accounts

end Random

/-! ## The machine with any source -/

/-- What an instruction does to a machine that draws from a source. -/
def Instruction.applyFrom (src : Random.Source) (m : Machine) : Instruction → Except Fault Machine
  | random x mask =>
    .ok { m.setReg x (src.bits (src.present m.rng) &&& mask) with rng := src.next m.rng }
  | i => i.apply m

/-- The commands that leave it to the program to draw. -/
def Command.keepsSource : Command → Bool
  | .step | .tick | .setKey _ _ | .setKeypad _ | .load _ | .clearFault => true
  | _ => false

namespace Machine

open Chip8.Random (Source Draw)

/-- The effect of a word on a machine that draws from a source. -/
def attemptFrom (src : Source) (m : Machine) (w : Word) : Except Fault Machine :=
  match Instruction.decode w with
  | some i => i.applyFrom src m
  | none => .error .decode

/-- A step of a machine that draws from a source. -/
def stepFrom (src : Source) (m : Machine) : Machine :=
  if m.faulted then m
  else if m.pc.toNat ≤ lastWord then
    match m.fetch.2.attemptFrom src m.fetch.1 with
    | .ok result => { result with lastKeypad := result.keypad }
    | .error f => m.trip f m.fetch.1
  else m.trip .memory 0

/-- The machine after a command, its steps drawing from a source. -/
def afterFrom (src : Source) (m : Machine) : Command → Machine
  | .step => m.stepFrom src
  | c => m.after c

/-- The register and the mask of the draw that the next step makes, if the machine runs and stands
in front of `CXNN`. -/
def draw? (m : Machine) : Option (Nibble × UInt8) :=
  match m.nextWord?.bind Instruction.decode with
  | some (.random x mask) => some (x, mask)
  | _ => none

/-- The draw that a command makes, if it makes one. -/
def drawnFrom (src : Source) (m : Machine) (c : Command) : List Draw :=
  match c, m.draw? with
  | .step, some (x, mask) => [⟨x, mask, (m.stepFrom src).reg x⟩]
  | _, _ => []

/-- The draws that a sequence of commands makes, in their order. -/
def drawsFrom (src : Source) (m : Machine) : List Command → List Draw
  | [] => []
  | c :: cs => m.drawnFrom src c ++ (m.afterFrom src c).drawsFrom src cs

/-- The machine after a sequence of commands, its steps drawing from a source. -/
def afterAllFrom (src : Source) (m : Machine) (cs : List Command) : Machine :=
  cs.foldl (afterFrom src) m

variable {src : Source} {m r : Machine} {c : Command} {x : Nibble} {mask : UInt8}

/-! ### Its own source -/

/-- A machine that draws from its own source is the machine. -/
theorem stepFrom_threefry (m : Machine) : m.stepFrom .threefry = m.step := by
  have hattempt : ∀ r : Machine, ∀ w, r.attemptFrom .threefry w = r.attempt w := by
    intro r w
    unfold attemptFrom attempt
    cases Instruction.decode w with
    | none => rfl
    | some i =>
      cases i
      all_goals rfl
  cases hresult : m.fetch.2.attempt m.fetch.1 with
  | ok r => simp only [stepFrom, step, hattempt, hresult]
  | error f => simp only [stepFrom, step, hattempt, hresult]

/-- The same is so for whole sequences of commands. -/
theorem afterAllFrom_threefry (m : Machine) (cs : List Command) :
    m.afterAllFrom .threefry cs = m.afterAll cs := by
  have hafter : afterFrom .threefry = after := by
    funext m c
    cases c
    case step => exact m.stepFrom_threefry
    all_goals rfl
  rw [afterAllFrom, afterAll, hafter]

/-! ### Steps that draw -/

/-- A machine is about to draw exactly when its next word is `CXNN`. -/
theorem draw?_eq_some_iff :
    m.draw? = some (x, mask) ↔
      ∃ w, m.nextWord? = some w ∧ Instruction.Names w (.random x mask) := by
  unfold draw?
  cases hnext : m.nextWord? with
  | none => simp
  | some w =>
    simp only [Option.bind_some, Option.some.injEq, exists_eq_left', ← Instruction.decode_eq_some_iff]
    constructor
    · intro h
      split at h
      · rename_i hdecode
        rw [hdecode]
        cases h
        rfl
      · cases h
    · intro h
      rw [h]

/-- A draw takes the first byte of the stream and raises no fault. -/
theorem stepFrom_of_draw (h : m.draw? = some (x, mask)) :
    m.stepFrom src =
      { m with
        v := m.v.set x.val (src.stream m.rng 0 &&& mask) x.isLt
        rng := src.next m.rng
        pc := m.pc + 2
        lastKeypad := m.keypad } := by
  obtain ⟨w, hnext, hw⟩ := draw?_eq_some_iff.mp h
  obtain ⟨hrun, hword⟩ := nextWord?_eq_some_iff.mp hnext
  have hfetch : m.fetch.1 = w := (m.memory.holdsWord_word hword.le).unique hword
  have hdecode := Instruction.decode_of_names hw
  have hpc : m.pc.toNat ≤ lastWord := hword.le
  unfold stepFrom
  rw [hrun, if_neg Bool.false_ne_true, if_pos hpc, hfetch]
  simp only [attemptFrom, hdecode, Instruction.applyFrom]
  rfl

/-- A step that makes no draw is a step of the machine as it is. -/
theorem stepFrom_of_none (h : m.draw? = none) : m.stepFrom src = m.step := by
  unfold stepFrom step
  split
  · rfl
  · split
    · rename_i hrun hpc
      have hword := m.memory.holdsWord_word hpc
      have hnext := nextWord?_eq_some_iff.mpr ⟨Bool.eq_false_iff.mpr hrun, hword⟩
      have hattempt : m.fetch.2.attemptFrom src m.fetch.1 = m.fetch.2.attempt m.fetch.1 := by
        unfold attemptFrom attempt
        cases hdecode : Instruction.decode m.fetch.1 with
        | none => rfl
        | some i =>
          cases i
          case random x mask =>
            rw [draw?_eq_some_iff.mpr ⟨_, hnext, Instruction.names_of_decode hdecode⟩] at h
            cases h
          all_goals rfl
      cases hresult : m.fetch.2.attempt m.fetch.1 with
      | ok r => simp only [hattempt, hresult]
      | error f => simp only [hattempt, hresult]
    · rfl

/-- A step that makes no draw leaves the source alone, be it that it executes another word, faults,
waits, or finds the machine halted. -/
theorem step_rng_of_none (h : m.draw? = none) : m.step.rng = m.rng := by
  generalize hr : m.step = r
  cases steps_iff.mpr hr
  case halted | pastEnd | refused => rfl
  case done w i hrun hpc hw hi hf =>
    by_contra hchanged
    obtain ⟨x, mask, rfl⟩ := (Instruction.wrote_effect m.fetch.2 i).rng hchanged
    have hnext := nextWord?_eq_some_iff.mpr ⟨hrun, hw⟩
    rw [draw?_eq_some_iff.mpr ⟨w, hnext, Instruction.names_of_decode hi⟩] at h
    cases h

/-- Only `CXNN` moves the source, and only if it does not fault. -/
theorem execute_of_rng_ne {w : Word} (h : (m.execute w).rng ≠ m.rng) :
    w.toNat / 4096 = 0xC ∧ (m.execute w).faulted = false := by
  generalize hr : m.execute w = r at h ⊢
  cases executes_iff.mpr hr
  case halted | refused => exact absurd rfl h
  case done i hrun hi hf =>
    obtain ⟨x, mask, rfl⟩ := (Instruction.wrote_effect m i).rng h
    exact ⟨(Instruction.names_of_decode hi).1.1, (m.faulted_effect _).trans hrun⟩

/-! ### Accounts of commands -/

/-- A command other than a step that leaves drawing to the program leaves the source alone. -/
theorem after_rng (hc : c.keepsSource = true) (hstep : c ≠ .step) : (m.after c).rng = m.rng := by
  generalize hr : m.after c = r
  cases hr ▸ m.obeys_after c
  case step => exact absurd rfl hstep
  case execute | run | runFrame | runFrames | reset => cases hc
  all_goals rfl

/-- A step draws once or leaves the source alone. -/
theorem accounts_stepFrom (src : Source) (m : Machine) :
    src.Accounts m.rng (m.drawnFrom src .step) (m.stepFrom src).rng := by
  unfold drawnFrom
  cases hdraw : m.draw? with
  | none =>
    rw [stepFrom_of_none hdraw, step_rng_of_none hdraw]
    exact .nil src m.rng
  | some draw =>
    obtain ⟨x, mask⟩ := draw
    have hstored : (m.stepFrom src).reg x = src.stream m.rng 0 &&& mask := by
      rw [stepFrom_of_draw hdraw, reg, Vector.get_eq_getElem]
      exact Vector.getElem_set_self x.isLt
    rw [stepFrom_of_draw hdraw] at hstored ⊢
    exact .singleton src m.rng hstored

/-- A command that keeps the source moves it by its own draws only. -/
theorem accounts_afterFrom (src : Source) (m : Machine) (hc : c.keepsSource = true) :
    src.Accounts m.rng (m.drawnFrom src c) (m.afterFrom src c).rng := by
  by_cases hstep : c = .step
  · subst hstep
    exact m.accounts_stepFrom src
  · have hnone : m.drawnFrom src c = [] := by
      cases c
      case step => exact absurd rfl hstep
      all_goals rfl
    have hafter : m.afterFrom src c = m.after c := by
      cases c
      case step => exact absurd rfl hstep
      all_goals rfl
    rw [hnone, hafter, after_rng hc hstep]
    exact .nil src m.rng

/-- The draws of a sequence of commands account for where the source has come to. -/
theorem accounts_afterAllFrom (src : Source) (m : Machine) {cs : List Command}
    (hcs : ∀ c ∈ cs, c.keepsSource = true) :
    src.Accounts m.rng (m.drawsFrom src cs) (m.afterAllFrom src cs).rng := by
  induction cs generalizing m with
  | nil => exact .nil src m.rng
  | cons c cs ih =>
    have hc : c.keepsSource = true := hcs c (by simp)
    have hrest : ∀ d ∈ cs, d.keepsSource = true := fun d hd => hcs d (by simp [hd])
    exact (m.accounts_afterFrom src hc).append (ih (m.afterFrom src c) hrest)

/-- Let a machine draw from any source. Through any sequence of steps, ticks, changes of keys, loads
and cleared faults its draws take the stream of its first key byte after byte, each under its own
mask, and the key moves on by one for each draw; a command that makes no draw leaves the key alone.
The machine itself draws from the cipher, and so do its plain runs and its frames. A word that is
handed over can move the key if it is `CXNN` only, and not when it faults. -/
theorem draws_follow_stream (m : Machine) :
    (∀ src : Source, ∀ cs : List Command, (∀ c ∈ cs, c.keepsSource = true) →
      src.Accounts m.rng (m.drawsFrom src cs) (m.afterAllFrom src cs).rng) ∧
    (∀ src : Source, ∀ c : Command, c.keepsSource = true → m.drawnFrom src c = [] →
      (m.afterFrom src c).rng = m.rng) ∧
    (∀ cs, m.afterAllFrom .threefry cs = m.afterAll cs) ∧
    (∀ n, Source.threefry.Accounts m.rng (m.drawsFrom .threefry (Command.steps n))
      (m.run n).rng) ∧
    (∀ n k, Source.threefry.Accounts m.rng (m.drawsFrom .threefry (Command.frames n k))
      (m.runFrames n k).rng) ∧
    (∀ w, (m.execute w).rng ≠ m.rng → w.toNat / 4096 = 0xC ∧ (m.execute w).faulted = false) := by
  refine ⟨fun src cs hcs => m.accounts_afterAllFrom src hcs, fun src c hc hnone => ?_,
    m.afterAllFrom_threefry, fun n => ?_, fun n k => ?_, fun w h => execute_of_rng_ne h⟩
  · have haccounts := m.accounts_afterFrom src hc
    rw [hnone] at haccounts
    exact haccounts.key_eq
  · rw [← afterAll_steps, ← afterAllFrom_threefry]
    exact m.accounts_afterAllFrom _ (Command.forall_mem_steps rfl)
  · rw [← afterAll_frames, ← afterAllFrom_threefry]
    exact m.accounts_afterAllFrom _ (Command.forall_mem_frames rfl rfl)

/-- A machine that draws twice, with another instruction in between, and then runs into a word that
names no instruction. -/
def drawing : Machine := bare [0xC0, 0xFF, 0x60, 0x05, 0xC1, 0x0F, 0x00, 0x00]

/-- A source that counts its draws, and whose bytes are the numbers. -/
def counter : Source := ⟨fun k => ⟨k.fst, k.snd + 1⟩, id, fun k => k.snd.toUInt8⟩

/-- Steps up to the fault, with a tick and a key in between. -/
def interrupted : List Command := [.step, .tick, .setKey 3 true, .step, .step, .step, .clearFault]

/-- Two draws are made of the counter under these commands, and two of the cipher in two frames of
three steps, of which the second frame halts: the bytes are those of the stream and the key has moved
on twice. A tick moves no key. -/
theorem draws_follow_stream_drawing :
    (∀ c ∈ interrupted, c.keepsSource = true) ∧
      drawing.drawsFrom counter interrupted = [⟨0, 0xFF, 0⟩, ⟨1, 0x0F, 1⟩] ∧
      counter.Accounts ⟨0, 0⟩ [⟨0, 0xFF, 0⟩, ⟨1, 0x0F, 1⟩]
        (drawing.afterAllFrom counter interrupted).rng ∧
      (drawing.afterFrom counter .tick).rng = ⟨0, 0⟩ ∧
      drawing.afterAllFrom .threefry interrupted = drawing.afterAll interrupted ∧
      (drawing.runFrames 2 3).faulted = true ∧
      Source.threefry.Accounts ⟨0, 0⟩ [⟨0, 0xFF, 101⟩, ⟨1, 0x0F, 15⟩]
        (drawing.runFrames 2 3).rng ∧
      (drawing.execute 0xC0FF).rng ≠ drawing.rng ∧ (drawing.execute 0xC0FF).faulted = false := by
  have hkeeps : ∀ c ∈ interrupted, c.keepsSource = true := by decide
  have hcounted : drawing.drawsFrom counter interrupted = [⟨0, 0xFF, 0⟩, ⟨1, 0x0F, 1⟩] := by
    decide +kernel
  have hdrawn : drawing.drawsFrom .threefry (Command.frames 2 3) =
      [⟨0, 0xFF, 101⟩, ⟨1, 0x0F, 15⟩] := by decide +kernel
  have hmoved : (drawing.execute 0xC0FF).rng ≠ drawing.rng := by decide +kernel
  obtain ⟨hall, hidle, hown, -, hframes, hhanded⟩ := draws_follow_stream drawing
  refine ⟨hkeeps, hcounted, ?_, hidle counter .tick rfl rfl, hown interrupted,
    by decide +kernel, ?_, hmoved, (hhanded _ hmoved).2⟩
  · rw [← hcounted]
    exact hall counter interrupted hkeeps
  · rw [← hdrawn]
    exact hframes 2 3

end Machine

end Chip8
