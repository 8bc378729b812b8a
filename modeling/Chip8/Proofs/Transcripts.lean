import Chip8.Log
import Mathlib.Data.List.Basic

/-!
# The lines of a transcript

The text that a logger leaves is made of lines, and a line of a record and the time it was written
at. `Logger.lines` follows a sequence of calls and the clock and gives the lines. `transcript_eq` says
that the text of these is what is written, and `records_lines` that their records are those of the
calls, in order, without those below the threshold.

A call is carried out step by step. A step that fails ends it, and the steps before it are as good as
a call of their own: `Step.made` are their records and `Step.failure?` is the failure, which depends on
the call alone (`Call.failure?`). The one failure that depends on the logger is that of a level without a
colour, and what is said here is about calls that are spared it (`Logger.CanPerform`). Calls that are
spared it by every logger are plain (`Call.isPlain`); they fail only if a value has no text
(`Call.failure?_eq_none_iff`).
-/

set_option autoImplicit false

namespace Chip8.Log

/-- A line of a transcript: a record and, if lines are stamped, the seconds since the logger was
made. -/
structure Line where
  elapsed : Option Float
  record : Record

/-- Warnings are the only records that some logger cannot write. -/
theorem Level.exists_colour {l : Level} (h : l ≠ .warning) : ∃ colour, l.colour? = some colour := by
  cases l
  case warning => exact absurd rfl h
  all_goals exact ⟨_, rfl⟩

namespace Step

/-- The records of some steps, up to the first step that fails. -/
def made : List Step → List Record
  | [] => []
  | .error _ :: _ => []
  | .ok r :: steps => r :: made steps

/-- The failure that some steps end with, if one of them fails. -/
def failure? : List Step → Option Failure
  | [] => none
  | .error e :: _ => some e
  | .ok _ :: steps => failure? steps

/-- A record that is made is that of one of the steps. -/
theorem mem_of_mem_made {steps : List Step} {r : Record} (hr : r ∈ made steps) :
    .ok r ∈ steps := by
  induction steps with
  | nil => cases hr
  | cons step steps ih =>
    cases step with
    | error e => cases hr
    | ok q =>
      obtain rfl | hr := List.mem_cons.mp hr
      · exact List.mem_cons_self
      · exact List.mem_cons_of_mem _ (ih hr)

end Step

namespace Value

/-- Whether a value has a text. -/
def isShown (v : Value) : Bool := v.display.isOk

end Value

namespace Call

/-- Whether every logger can write the records that a call makes. -/
def isPlain : Call → Bool
  | record r => r.level != .warning
  | named _ _ => false
  | fault _ _ | sessionStart _ | sessionEnd _ => true

/-- The entries that a call reports. -/
def entries : Call → List (String × Value)
  | sessionStart entries | sessionEnd entries => entries
  | _ => []

/-- Whether every value that a call reports has a text. -/
def isShown (c : Call) : Bool := c.entries.all fun e => e.2.isShown

/-- The records that a call makes if it is carried out `elapsed` seconds after the logger was made. -/
def expansion (elapsed : Float) (c : Call) : List Record := Step.made (c.steps elapsed)

/-- The failure that a call ends with by itself, if it does. -/
def failure? (c : Call) : Option Failure := Step.failure? (c.steps 0)

/-- The records of a block: two, those of its entries as far as these have texts, and the rule. -/
theorem made_block (heading : String) (entries : List (String × Value)) :
    Step.made (block heading entries) =
      rule :: ⟨.info, heading⟩ :: Step.made (entries.map entry ++ [.ok rule]) := rfl

/-- A block fails for one of its entries or not at all. -/
theorem failure?_block (heading : String) (entries : List (String × Value)) :
    Step.failure? (block heading entries) = Step.failure? (entries.map entry ++ [.ok rule]) := rfl

/-- Whether a call fails by itself does not depend on the time. -/
theorem failure?_steps (c : Call) (elapsed : Float) :
    Step.failure? (c.steps elapsed) = c.failure? := by
  cases c
  case sessionEnd entries =>
    rw [failure?, steps, steps, endRecords, endRecords, failure?_block, failure?_block]
  all_goals rfl

/-- All records of a block are for information. -/
theorem level_of_mem_block {heading : String} {entries : List (String × Value)} {r : Record}
    (hr : .ok r ∈ block heading entries) : r.level = .info := by
  simp only [block, List.mem_cons, List.mem_append, List.mem_map, List.cons_append,
    List.not_mem_nil, or_false, Except.ok.injEq] at hr
  obtain rfl | rfl | ⟨⟨key, v⟩, -, hentry⟩ | rfl := hr
  · rfl
  · rfl
  · unfold entry at hentry
    cases hv : v.display with
    | error e =>
      rw [hv] at hentry
      cases hentry
    | ok shown =>
      rw [hv] at hentry
      obtain rfl := Except.ok.inj hentry
      rfl
  · rfl

/-- No record of a plain call is a warning. -/
theorem level_of_isPlain {c : Call} (h : c.isPlain = true) {elapsed : Float} {r : Record}
    (hr : r ∈ c.expansion elapsed) : r.level ≠ .warning := by
  cases c
  case record =>
    obtain rfl := List.mem_singleton.mp hr
    exact bne_iff_ne.mp h
  case named => cases h
  case fault =>
    obtain rfl := List.mem_singleton.mp hr
    exact nofun
  case sessionStart | sessionEnd =>
    rw [level_of_mem_block (Step.mem_of_mem_made hr)]
    decide

end Call

namespace Logger

variable (lg : Logger)

/-- The level of a line as the logger writes it, for a level that has a colour. -/
def heading (level : Level) : String :=
  if lg.colours then level.colour?.getD "" ++ bracket level ++ "\x1b[0m" else bracket level

/-- The text of a line. -/
def render (l : Line) : String :=
  (match l.elapsed with
    | some seconds => "[" ++ Decimal.fixedWide 8 2 seconds ++ "s]"
    | none => "") ++
  lg.heading l.record.level ++ " " ++ l.record.text ++ "\n"

/-- The time for a line, and the clock after it was read. -/
def note (clock : Clock) : Option Float × Clock :=
  if lg.stamps then (some (clock.read.1 - lg.start), clock.read.2) else (none, clock)

/-- The lines of a record, at most one, and the clock after them. -/
def linesOfRecord (r : Record) (clock : Clock) : List Line × Clock :=
  if lg.shows r.level then ([⟨(lg.note clock).1, r⟩], (lg.note clock).2) else ([], clock)

/-- The lines of some records, and the clock after them. -/
def linesOf : List Record → Clock → List Line × Clock
  | [], clock => ([], clock)
  | r :: rs, clock =>
    let here := lg.linesOfRecord r clock
    let rest := linesOf rs here.2
    (here.1 ++ rest.1, rest.2)

/-- The lines of a call, and the clock after it. -/
def linesOfCall (c : Call) (clock : Clock) : List Line × Clock :=
  let timed := lg.elapsed c clock
  lg.linesOf (c.expansion timed.1) timed.2

/-- The lines of some calls, and the clock after them. -/
def lines : List Call → Clock → List Line × Clock
  | [], clock => ([], clock)
  | c :: cs, clock =>
    let here := lg.linesOfCall c clock
    let rest := lines cs here.2
    (here.1 ++ rest.1, rest.2)

/-- The records of some calls, whether or not they are written. -/
def expansion : List Call → Clock → List Record
  | [], _ => []
  | c :: cs, clock =>
    c.expansion (lg.elapsed c clock).1 ++ expansion cs (lg.linesOfCall c clock).2

/-- The text of some lines, one behind the other. -/
def text (ls : List Line) : String := String.join (ls.map lg.render)

@[simp] theorem text_append (ls ms : List Line) : lg.text (ls ++ ms) = lg.text ls ++ lg.text ms := by
  simp [text]

/-- The logger can write the record, or drops it. -/
def Writes (r : Record) : Prop :=
  lg.colours = true → lg.shows r.level = true → r.level ≠ .warning

/-- The logger can write, or drops, each record that the call makes. -/
def CanPerform (c : Call) : Prop := ∀ {elapsed : Float} {r : Record}, r ∈ c.expansion elapsed →
  lg.Writes r

/-- Every logger can write plain calls. -/
theorem canPerform_of_isPlain {c : Call} (h : c.isPlain = true) : lg.CanPerform c :=
  fun hr _ _ => Call.level_of_isPlain h hr

/-- The heading of a line is found where there is a colour for the level, or none is asked for. -/
theorem tag_eq {level : Level} (h : lg.colours = true → level ≠ .warning) :
    lg.tag level = .ok (lg.heading level) := by
  unfold tag heading
  split
  · rename_i hcolours
    obtain ⟨colour, hcolour⟩ := level.exists_colour (h hcolours)
    simp only [hcolour, Option.getD_some]
  · rfl

/-- A record leaves its line, if it is shown. -/
theorem emit_eq {r : Record} (h : lg.Writes r) (clock : Clock) :
    lg.emit r clock =
      ⟨lg.text (lg.linesOfRecord r clock).1, none, (lg.linesOfRecord r clock).2⟩ := by
  unfold emit linesOfRecord
  split
  · rename_i hshows
    rw [lg.tag_eq fun hcolours => h hcolours hshows]
    simp only [text, render, note, stamp, List.map_cons, List.map_nil, String.join_cons,
      String.join_nil, String.append_empty]
    split
    all_goals rfl
  · rfl

/-- Steps leave the lines of the records that they make, and end with the failure that they have. -/
theorem emitAll_eq {steps : List Step} (h : ∀ r ∈ Step.made steps, lg.Writes r) (clock : Clock) :
    lg.emitAll steps clock =
      ⟨lg.text (lg.linesOf (Step.made steps) clock).1, Step.failure? steps,
        (lg.linesOf (Step.made steps) clock).2⟩ := by
  induction steps generalizing clock with
  | nil => rfl
  | cons step steps ih =>
    cases step with
    | error e => rfl
    | ok r =>
      obtain ⟨hr, hrs⟩ := List.forall_mem_cons.mp h
      simp only [emitAll, lg.emit_eq hr, ih hrs, Step.made, Step.failure?, linesOf, text_append]

/-- A call leaves its lines, and fails only by itself. -/
theorem perform_eq {c : Call} (h : lg.CanPerform c) (clock : Clock) :
    lg.perform c clock =
      ⟨lg.text (lg.linesOfCall c clock).1, c.failure?, (lg.linesOfCall c clock).2⟩ := by
  rw [perform, lg.emitAll_eq (fun r hr => h hr), c.failure?_steps]
  rfl

/-- Calls leave their lines. -/
theorem transcript_eq {cs : List Call} (h : ∀ c ∈ cs, c.isPlain = true) (clock : Clock) :
    lg.transcript cs clock = lg.text (lg.lines cs clock).1 := by
  unfold transcript
  induction cs generalizing clock with
  | nil => rfl
  | cons c cs ih =>
    obtain ⟨hc, hcs⟩ := List.forall_mem_cons.mp h
    rw [performAll, lg.perform_eq (lg.canPerform_of_isPlain hc), List.map_cons, String.join_cons,
      ih hcs, lines, text_append]

/-- The lines of some records are those of the records that the threshold lets through. -/
theorem records_linesOf (rs : List Record) (clock : Clock) :
    (lg.linesOf rs clock).1.map Line.record = rs.filter fun r => lg.shows r.level := by
  induction rs generalizing clock with
  | nil => rfl
  | cons r rs ih =>
    rw [linesOf, List.map_append, ih, List.filter_cons, linesOfRecord]
    split
    all_goals rfl

/-- The records on the lines are those of the calls, without those below the threshold. -/
theorem records_lines (cs : List Call) (clock : Clock) :
    (lg.lines cs clock).1.map Line.record =
      (lg.expansion cs clock).filter fun r => lg.shows r.level := by
  induction cs generalizing clock with
  | nil => rfl
  | cons c cs ih =>
    rw [lines, expansion, List.map_append, List.filter_append, ih, linesOfCall,
      lg.records_linesOf]

end Logger

end Chip8.Log
