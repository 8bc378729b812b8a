import Chip8.Proofs.Readings

/-!
# Lines in colour

Colours are put around the level of a line, and nothing else of a logger depends on them: two loggers
that are made alike but for the colours show the same records and read the clock at the same times. So a
line of the one is a line of the other, with the colour of its level before the bracket and the reset
behind it (`Dressed`).

There is no colour for warnings. A warning that is to be shown in colour is not written, and the clock
is not read for it (`perform_of_not_writes`); the next call goes on as if it had not been there.
`colours_law` says this of every sequence of records, and `colours_fail` that it does happen.
-/

set_option autoImplicit false

namespace Chip8.Log

/-- A level is found under its name. -/
theorem Level.ofName?_name (l : Level) : Level.ofName? l.name = some l := by
  cases l
  all_goals rfl

/-- A record, with its level given by name. -/
def Record.named (r : Record) : Call := .named r.level.name r.text

/-- A call for a record has that record as its only step. -/
theorem Call.steps_named (r : Record) (elapsed : Float) : r.named.steps elapsed = [.ok r] := by
  simp only [Record.named, steps, Level.ofName?_name]

/-- A call for a record does not fail by itself. -/
theorem Call.failure?_named (r : Record) : r.named.failure? = none := by
  rw [failure?, steps_named]
  rfl

/-- A call for a record makes that record. -/
theorem Call.expansion_named (r : Record) (elapsed : Float) : r.named.expansion elapsed = [r] := by
  rw [expansion, steps_named]
  rfl

/-- What a record leaves without colours and what it leaves in colour, if it is shown or not. -/
structure Dressed (shown : Bool) (r : Record) (bare painted : Written) : Prop where
  failure_bare : bare.failure = none
  failure_painted : painted.failure = none
  clock_eq : painted.clock = bare.clock
  hidden (h : shown = false) : bare.text = "" ∧ painted.text = ""
  /-- The bracket stands between the colour of the level and the reset. -/
  line (h : shown = true) : ∃ stamp colour, r.level.colour? = some colour ∧
    bare.text = stamp ++ Logger.bracket r.level ++ " " ++ r.text ++ "\n" ∧
    painted.text =
      stamp ++ (colour ++ Logger.bracket r.level ++ "\x1b[0m") ++ " " ++ r.text ++ "\n"

namespace Logger

variable (lg : Logger) (clock : Clock) {r : Record}

instance (r : Record) : Decidable (lg.Writes r) := inferInstanceAs (Decidable (_ → _ → _))

/-- A logger that can write a record, or drops it, can be asked for it. -/
theorem canPerform_named (h : lg.Writes r) : lg.CanPerform r.named := by
  intro elapsed q hq
  rw [Call.expansion_named] at hq
  rwa [List.mem_singleton.mp hq]

/-- The logger with or without colours. -/
def withColours (colours : Bool) : Logger := { lg with colours := colours }

@[simp] theorem shows_withColours (colours : Bool) (level : Level) :
    (lg.withColours colours).shows level = lg.shows level := rfl

@[simp] theorem readingsOf_withColours (colours : Bool) (cs : List Call) :
    (lg.withColours colours).readingsOf cs = lg.readingsOf cs := by
  induction cs with
  | nil => rfl
  | cons c cs ih =>
    rw [readingsOf, readingsOf, ih]
    rfl

/-- A call that writes one record is read as that record, or as nothing below the threshold. -/
theorem text_linesAt_named (k : Nat) (r : Record) :
    lg.text (lg.linesAt clock k r.named) =
      if lg.shows r.level then
        lg.render ⟨if lg.stamps then some (clock.reading k - lg.start) else none, r⟩
      else "" := by
  rw [linesAt, Call.expansion_named]
  cases hshows : lg.shows r.level
  all_goals simp [hshows, linesFrom, text, Record.named, Call.ownReadings]

/-- A record that can be written in colour leaves the same line with and without colours. -/
theorem dressed_writtenAt (h : (lg.withColours true).Writes r) (k : Nat) :
    Dressed (lg.shows r.level) r ((lg.withColours false).writtenAt clock k r.named)
      ((lg.withColours true).writtenAt clock k r.named) where
  failure_bare := Call.failure?_named r
  failure_painted := Call.failure?_named r
  clock_eq := rfl
  hidden hshows := by
    simp only [writtenAt, text_linesAt_named, shows_withColours, hshows]
    exact ⟨rfl, rfl⟩
  line hshows := by
    obtain ⟨colour, hcolour⟩ := r.level.exists_colour (h rfl hshows)
    simp only [writtenAt, text_linesAt_named, shows_withColours, hshows, if_true]
    simp only [render, heading, withColours, hcolour, Option.getD_some, if_true, Bool.false_eq_true,
      if_false]
    exact ⟨_, colour, rfl, rfl, rfl⟩

/-- A warning that is to be shown in colour is not written. -/
theorem perform_of_not_writes (h : ¬ lg.Writes r) :
    lg.perform r.named clock = ⟨"", some (.noColour .warning), clock⟩ := by
  simp only [Writes, Classical.not_imp, not_not] at h
  obtain ⟨hcolours, hshows, hlevel⟩ := h
  have htag : lg.tag r.level = .error (.noColour .warning) := by
    rw [hlevel, tag, if_pos hcolours]
    rfl
  simp only [perform, Call.steps_named, emitAll, emit, hshows, htag, if_true]
  rfl

/-- A call that leaves nothing and lets the clock be can be left out. -/
theorem transcript_filter (rs : List Record) :
    lg.transcript (rs.map Record.named) clock =
      lg.transcript ((rs.filter fun r => lg.Writes r).map Record.named) clock := by
  unfold transcript
  induction rs generalizing clock with
  | nil => rfl
  | cons r rs ih =>
    rw [List.map_cons, performAll, List.map_cons, String.join_cons, ih, List.filter_cons]
    by_cases hr : lg.Writes r
    · simp only [hr, decide_true, if_true, List.map_cons, performAll, String.join_cons]
    · simp only [hr, decide_false, Bool.false_eq_true, if_false, lg.perform_of_not_writes clock hr,
        String.empty_append]

/-- The records that fail are the warnings that are to be shown in colour. -/
theorem failure_performAll_named (rs : List Record) :
    (lg.performAll (rs.map Record.named) clock).map Written.failure =
      rs.map fun r => if lg.Writes r then none else some (.noColour .warning) := by
  induction rs generalizing clock with
  | nil => rfl
  | cons r rs ih =>
    rw [List.map_cons, performAll, List.map_cons, List.map_cons, ih]
    congr 1
    by_cases hr : lg.Writes r
    · rw [if_pos hr, lg.perform_eq (lg.canPerform_named hr), Call.failure?_named]
    · rw [if_neg hr, lg.perform_of_not_writes clock hr]

/-- Records that can be written in colour leave the same lines with and without colours: both loggers
have read the clock equally often before each of them. -/
theorem dressed_performAll {rs : List Record} (h : ∀ r ∈ rs, (lg.withColours true).Writes r)
    (k : Nat) {i : Nat} (hi : rs[i]? = some r) :
    ∃ bare painted,
      ((lg.withColours false).performAll (rs.map Record.named) (clock.after k))[i]? = some bare ∧
      ((lg.withColours true).performAll (rs.map Record.named) (clock.after k))[i]? = some painted ∧
      Dressed (lg.shows r.level) r bare painted := by
  have hbare : ∀ c ∈ rs.map Record.named, (lg.withColours false).CanPerform c :=
    List.forall_mem_map.mpr fun q _ => canPerform_named (lg.withColours false) nofun
  have hpainted : ∀ c ∈ rs.map Record.named, (lg.withColours true).CanPerform c :=
    List.forall_mem_map.mpr fun q hq => canPerform_named _ (h q hq)
  rw [performAll_after _ clock hbare, performAll_after _ clock hpainted]
  simp only [List.getElem?_mapIdx, List.getElem?_map, hi, Option.map_some, Option.some.injEq,
    readingsOf_withColours]
  exact ⟨_, _, rfl, rfl, lg.dressed_writtenAt clock (h r (List.mem_of_getElem? hi)) _⟩

variable {lg clock}

/-- Two loggers on a terminal are made alike, one with colours and one without, and take the same
records. The one without colours never fails. The one with colours fails for the warnings that it is to
show, and otherwise goes on as if they had not been there; the records that are left have the same lines
with the colours around their levels, at the same readings of the clock. -/
theorem colours_law {threshold : String} {stamps : Bool} {painted plain : Logger}
    {next next' : Clock}
    (h : create threshold true stamps true clock = .ok (painted, next))
    (h' : create threshold false stamps true clock = .ok (plain, next')) (rs : List Record) :
    let kept := rs.filter fun r => painted.Writes r
    next' = next ∧
    (plain.performAll (rs.map Record.named) next').map Written.failure = rs.map (fun _ => none) ∧
    (painted.performAll (rs.map Record.named) next).map Written.failure =
      rs.map (fun r =>
        if painted.shows r.level ∧ r.level = .warning then some (.noColour .warning) else none) ∧
    painted.transcript (rs.map Record.named) next =
      painted.transcript (kept.map Record.named) next ∧
    ∀ (i : Nat) r, kept[i]? = some r → ∃ v w,
      (plain.performAll (kept.map Record.named) next')[i]? = some v ∧
      (painted.performAll (kept.map Record.named) next)[i]? = some w ∧
      Dressed (painted.shows r.level) r v w := by
  intro kept
  obtain ⟨hlevel, hpainted, rfl⟩ := create_eq_ok h
  obtain ⟨hlevel', hplain, rfl⟩ := create_eq_ok h'
  have hthreshold : plain.threshold = painted.threshold :=
    Option.some.inj (hlevel'.symm.trans hlevel)
  have hcolours : painted.colours = true := congrArg Logger.colours hpainted
  have hbare : plain.colours = false := congrArg Logger.colours hplain
  have hplain : plain = painted.withColours false := by
    rw [hplain, hthreshold, withColours, hpainted]
    rfl
  have hself : painted.withColours true = painted := by rw [hpainted]; rfl
  refine ⟨rfl, ?_, ?_, painted.transcript_filter _ rs, fun i r hi => ?_⟩
  · rw [failure_performAll_named]
    refine List.map_congr_left fun r _ => if_pos fun hcoloured => ?_
    rw [hbare] at hcoloured
    cases hcoloured
  · rw [failure_performAll_named]
    refine List.map_congr_left fun r _ => ?_
    have hwrites : painted.Writes r ↔ ¬ (painted.shows r.level ∧ r.level = .warning) := by
      simp only [Writes, hcolours, true_imp_iff, not_and]
    simp only [hwrites, ite_not]
  · have hkept : ∀ q ∈ kept, (painted.withColours true).Writes q := by
      intro q hq
      rw [hself]
      exact of_decide_eq_true (List.mem_filter.mp hq).2
    have hdressed := painted.dressed_performAll clock hkept 1 hi
    rwa [hself, ← hplain] at hdressed

/-- A warning between two records that have colours. -/
def recordsWithWarning : List Record :=
  [⟨.debug, "stepping"⟩, ⟨.warning, "low"⟩, ⟨.error, "stopped"⟩]

/-- Of a debugging message, a warning and an error, at the level of debugging, the warning fails in
colour; the error has the line that it has without colours where there is no warning. -/
theorem colours_law_recordsWithWarning :
    let clock := Clock.ofReadings [10, 11, 12.5]
    let others := [⟨.debug, "stepping"⟩, ⟨.error, "stopped"⟩].map Record.named
    ∃ painted plain next,
      create "Debug" true true true clock = .ok (painted, next) ∧
      create "Debug" false true true clock = .ok (plain, next) ∧
      (painted.performAll (recordsWithWarning.map Record.named) next).map Written.failure =
        [none, some (.noColour .warning), none] ∧
      painted.transcript (recordsWithWarning.map Record.named) next =
        painted.transcript others next ∧
      ∃ v w, (plain.performAll others next)[1]? = some v ∧
        (painted.performAll others next)[1]? = some w ∧
        Dressed true ⟨.error, "stopped"⟩ v w := by
  intro clock others
  have hpainted : create "Debug" true true true clock =
      .ok (⟨.debug, true, true, 10⟩, clock.after 1) := rfl
  have hplain : create "Debug" false true true clock =
      .ok (⟨.debug, false, true, 10⟩, clock.after 1) := rfl
  obtain ⟨-, -, hfailures, htranscript, hlines⟩ := colours_law hpainted hplain recordsWithWarning
  exact ⟨_, _, _, hpainted, hplain, hfailures, htranscript, hlines 1 _ rfl⟩

/-- A logger in colour does fail: for a warning at the level of debugging. -/
theorem colours_fail :
    ¬ ∀ (threshold : String) (stamps : Bool) (clock : Clock) (painted : Logger) (next : Clock)
        (rs : List Record), create threshold true stamps true clock = .ok (painted, next) →
        ∀ w ∈ painted.performAll (rs.map Record.named) next, w.failure = none := by
  intro hall
  let warning : Record := ⟨.warning, "low"⟩
  have hnone := hall "DEBUG" false (Clock.ofReadings []) _ _ [warning] rfl _
    (List.mem_singleton_self _)
  cases hnone

end Logger

end Chip8.Log
