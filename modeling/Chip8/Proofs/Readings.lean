import Chip8.Proofs.Transcripts

/-!
# When the clock is read

A logger reads the clock when it is made, for the end of a session, and for each line that it stamps.
How often that is depends on the levels of the records alone (`Logger.readings`), so it is known before
the clock is read which reading a line will show: the one whose number is the number of readings before
it. `Logger.linesAt` are the lines of a call in these terms, and `performAll_after` says that a
sequence of calls leaves them, whatever the clock shows.

A record below the threshold costs no reading, the end of a session costs one in any case. Where lines
are not stamped, loggers with different thresholds therefore read the same times, and the one with the
higher threshold leaves some of the lines of the other (`filter_linesAt`). `transcript_law` puts this
together.
-/

set_option autoImplicit false

namespace Chip8.Log

namespace Clock

/-- The reading with a number, from zero on; the last one repeats. -/
def reading (c : Clock) (k : Nat) : Float := c.upcoming.getD k (c.upcoming.getLastD c.last)

/-- The clock after some readings. -/
def after (c : Clock) : Nat → Clock
  | 0 => c
  | k + 1 => (c.after k).read.2

variable (c : Clock)

/-- What a clock shows is its next reading. -/
theorem read_fst : c.read.1 = c.reading 0 := by
  obtain ⟨upcoming, last⟩ := c
  cases upcoming
  all_goals rfl

/-- Reading a clock moves its readings on by one. -/
theorem reading_read (k : Nat) : c.read.2.reading k = c.reading (k + 1) := by
  obtain ⟨upcoming, last⟩ := c
  cases upcoming with
  | nil => rfl
  | cons t rest => simp only [read, reading, List.getD_cons_succ, List.getLastD_cons]

/-- A clock that was read `j` times shows the readings from there on. -/
theorem reading_after (j k : Nat) : (c.after j).reading k = c.reading (j + k) := by
  induction j generalizing k with
  | zero => rw [after, Nat.zero_add]
  | succ j ih => rw [after, reading_read, ih, Nat.add_right_comm, Nat.add_assoc]

/-- To read a clock that was read `k` times is to take reading number `k`. -/
theorem read_after (k : Nat) : (c.after k).read = (c.reading k, c.after (k + 1)) := by
  have hfst : (c.after k).read.1 = c.reading k := by rw [read_fst, reading_after, Nat.add_zero]
  rw [← hfst]
  rfl

end Clock

/-! ## What calls come to -/

/-- The texts of some entries whose values are shown as `texts`, in their order. -/
def entryTexts (entries : List (String × Value)) (texts : List String) : List String :=
  List.zipWith (fun e text => "  " ++ e.1 ++ ": " ++ text) entries texts

/-- Records for information. -/
def infos (texts : List String) : List Record := texts.map fun text => ⟨.info, text⟩

/-- The text above and below a block. -/
def ruleText : String := "============================================================"

/-- An entry whose value has a text has a record. -/
theorem entry_of_display {e : String × Value} {text : String} (h : e.2.display = .ok text) :
    entry e = .ok ⟨.info, "  " ++ e.1 ++ ": " ++ text⟩ := by
  rw [entry, h]
  rfl

/-- An entry whose value has no text fails as the value does. -/
theorem entry_of_display_error {e : String × Value} {f : Failure} (h : e.2.display = .error f) :
    entry e = .error f := by
  rw [entry, h]
  rfl

/-- Entries have their records one after the other, up to the first whose value has no text. -/
theorem made_entries (entries : List (String × Value)) :
    (∃ texts, entries.map (fun e => e.2.display) = texts.map .ok ∧
      Step.made (entries.map entry ++ [.ok rule]) = infos (entryTexts entries texts ++ [ruleText]) ∧
      Step.failure? (entries.map entry ++ [.ok rule]) = none) ∨
    ∃ before e after texts f, entries = before ++ e :: after ∧
      before.map (fun e => e.2.display) = texts.map .ok ∧ e.2.display = .error f ∧
      Step.made (entries.map entry ++ [.ok rule]) = infos (entryTexts before texts) ∧
      Step.failure? (entries.map entry ++ [.ok rule]) = some f := by
  induction entries with
  | nil => exact .inl ⟨[], rfl, rfl, rfl⟩
  | cons e entries ih =>
    cases he : e.2.display with
    | error f =>
      refine .inr ⟨[], e, entries, [], f, rfl, rfl, he, ?_, ?_⟩
      all_goals rw [List.map_cons, entry_of_display_error he]
      all_goals rfl
    | ok text =>
      rw [List.map_cons, List.map_cons, entry_of_display he, List.cons_append, Step.made,
        Step.failure?]
      obtain ⟨texts, htexts, hmade, hnone⟩ | ⟨before, d, after, texts, f, rfl, htexts, hd, hmade, hf⟩
        := ih
      · exact .inl ⟨text :: texts, by rw [he, htexts]; rfl, by rw [hmade]; rfl, hnone⟩
      · exact .inr ⟨e :: before, d, after, text :: texts, f, rfl,
          by rw [List.map_cons, he, htexts]; rfl, hd, by rw [hmade]; rfl, hf⟩

namespace Call

/-- The readings of the clock that a call makes for itself. -/
def ownReadings : Call → Nat
  | sessionEnd _ => 1
  | _ => 0

/-- A block fails exactly if one of the values has no text. -/
theorem failure?_block_eq_none_iff (heading : String) (entries : List (String × Value)) :
    Step.failure? (block heading entries) = none ↔
      (entries.all fun e => e.2.isShown) = true := by
  rw [failure?_block, List.all_eq_true]
  obtain ⟨texts, htexts, -, hnone⟩ | ⟨before, e, after, texts, f, rfl, -, he, -, hf⟩ :=
    made_entries entries
  · refine iff_of_true hnone fun e hmem => ?_
    have hdisplay : e.2.display ∈ texts.map Except.ok := htexts ▸ List.mem_map_of_mem hmem
    obtain ⟨text, -, htext⟩ := List.mem_map.mp hdisplay
    rw [Value.isShown, ← htext]
    rfl
  · refine iff_of_false (by rw [hf]; exact nofun) fun hall => ?_
    have hshown := hall e (List.mem_append_right _ List.mem_cons_self)
    rw [Value.isShown, he] at hshown
    cases hshown

/-- A plain call fails by itself exactly if a value that it reports has no text. -/
theorem failure?_eq_none_iff {c : Call} (h : c.isPlain = true) :
    c.failure? = none ↔ c.isShown = true := by
  cases c with
  | record r => exact iff_of_true rfl rfl
  | named level text => cases h
  | fault name message => exact iff_of_true rfl rfl
  | sessionStart entries =>
    rw [failure?, steps, startRecords]
    exact failure?_block_eq_none_iff _ entries
  | sessionEnd entries =>
    rw [failure?, steps, endRecords]
    exact failure?_block_eq_none_iff _ entries

/-- The levels of the records that a call makes do not depend on the time. -/
theorem map_level_expansion (elapsed : Float) (c : Call) :
    (c.expansion elapsed).map Record.level = (c.expansion 0).map Record.level := by
  cases c
  case sessionEnd entries =>
    simp only [expansion, steps, endRecords, made_block, List.map_cons]
  all_goals rfl

end Call

namespace Logger

variable (lg : Logger) (clock : Clock)

/-- The readings of the clock that a call makes, of its own and for the lines. -/
def readings (c : Call) : Nat :=
  c.ownReadings +
    if lg.stamps then ((c.expansion 0).map Record.level).countP lg.shows else 0

/-- The readings of the clock that some calls make. -/
def readingsOf : List Call → Nat
  | [] => 0
  | c :: cs => lg.readings c + readingsOf cs

/-- The lines of some records, each stamped with one reading from number `k` on. -/
def linesFrom (k : Nat) (rs : List Record) : List Line :=
  rs.mapIdx fun j r => ⟨if lg.stamps then some (clock.reading (k + j) - lg.start) else none, r⟩

/-- The lines of a call before which the clock has been read `k` times. -/
def linesAt (k : Nat) (c : Call) : List Line :=
  lg.linesFrom clock (k + c.ownReadings)
    ((c.expansion (clock.reading k - lg.start)).filter fun r => lg.shows r.level)

/-- What a call leaves before which the clock has been read `k` times. -/
def writtenAt (k : Nat) (c : Call) : Written :=
  ⟨lg.text (lg.linesAt clock k c), c.failure?, clock.after (k + lg.readings c)⟩

/-- The first of some records is stamped by the reading at hand, the others by those behind it. -/
theorem linesFrom_cons (k : Nat) (r : Record) (rs : List Record) :
    lg.linesFrom clock k (r :: rs) =
      ⟨if lg.stamps then some (clock.reading k - lg.start) else none, r⟩ ::
        lg.linesFrom clock (k + 1) rs := by
  simp only [linesFrom, List.mapIdx_cons, Nat.add_zero, Nat.add_assoc, Nat.add_comm 1]

variable {lg} in
/-- Lines that are not stamped do not depend on the clock. -/
theorem linesFrom_of_unstamped (h : lg.stamps = false) (k : Nat) (rs : List Record) :
    lg.linesFrom clock k rs = rs.map fun r => ⟨none, r⟩ := by
  induction rs generalizing k with
  | nil => rfl
  | cons r rs ih =>
    rw [linesFrom_cons, ih, h]
    rfl

/-- Records that are shown take the readings one after the other, the others take none. -/
theorem linesOf_after (k : Nat) (rs : List Record) :
    lg.linesOf rs (clock.after k) =
      (lg.linesFrom clock k (rs.filter fun r => lg.shows r.level),
        clock.after (k + if lg.stamps then (rs.map Record.level).countP lg.shows else 0)) := by
  induction rs generalizing k with
  | nil => simp [linesOf, linesFrom]
  | cons r rs ih =>
    rw [linesOf, linesOfRecord, List.map_cons, List.countP_cons, List.filter_cons]
    cases lg.shows r.level with
    | false => simp [ih]
    | true =>
      cases hstamps : lg.stamps with
      | false => simp [note, hstamps, ih, linesFrom_of_unstamped clock hstamps]
      | true =>
        simp [note, hstamps, clock.read_after, ih, linesFrom_cons, Nat.add_assoc, Nat.add_comm 1]

/-- A call takes the lines of its records from the clock and leaves it where its readings end. -/
theorem linesOfCall_after (k : Nat) (c : Call) :
    lg.linesOfCall c (clock.after k) =
      (lg.linesAt clock k c, clock.after (k + lg.readings c)) := by
  have htimed : lg.elapsed c (clock.after k) =
      ((lg.elapsed c (clock.after k)).1, clock.after (k + c.ownReadings)) := by
    cases c
    case sessionEnd => simp only [elapsed, clock.read_after, Call.ownReadings]
    all_goals rfl
  have hexpansion : c.expansion (lg.elapsed c (clock.after k)).1 =
      c.expansion (clock.reading k - lg.start) := by
    cases c
    case sessionEnd => simp only [elapsed, clock.read_after]
    all_goals rfl
  rw [linesOfCall, hexpansion, htimed]
  simp only [linesOf_after, linesAt, readings, Call.map_level_expansion, Nat.add_assoc]

/-- One call, before which the clock has been read `k` times. -/
theorem perform_after {c : Call} (h : lg.CanPerform c) (k : Nat) :
    lg.perform c (clock.after k) = lg.writtenAt clock k c := by
  rw [lg.perform_eq h, linesOfCall_after, writtenAt]

/-- A sequence of calls: each begins where the readings of those before it end. -/
theorem performAll_after {cs : List Call} (h : ∀ c ∈ cs, lg.CanPerform c) (k : Nat) :
    lg.performAll cs (clock.after k) =
      cs.mapIdx fun i c => lg.writtenAt clock (k + lg.readingsOf (cs.take i)) c := by
  induction cs generalizing k with
  | nil => rfl
  | cons c cs ih =>
    obtain ⟨hc, hcs⟩ := List.forall_mem_cons.mp h
    rw [performAll, lg.perform_after clock hc, List.mapIdx_cons]
    simp only [writtenAt, ih hcs, readingsOf, List.take_succ_cons, List.take_zero, Nat.add_zero,
      Nat.add_assoc]

/-- The lines of some calls before which the clock has been read `k` times. -/
def account (k : Nat) (cs : List Call) : List Line :=
  (cs.mapIdx fun i c => lg.linesAt clock (k + lg.readingsOf (cs.take i)) c).flatten

variable {lg clock}

/-- A logger is made for a level that exists, and the first reading of the clock is its start. -/
theorem create_eq_ok {threshold : String} {colours stamps isTerminal : Bool} {next : Clock}
    (h : create threshold colours stamps isTerminal clock = .ok (lg, next)) :
    Level.ofText? threshold = some lg.threshold ∧
      lg = ⟨lg.threshold, colours && isTerminal, stamps, clock.reading 0⟩ ∧
      next = clock.after 1 := by
  unfold create at h
  cases hlevel : Level.ofText? threshold with
  | none =>
    rw [hlevel] at h
    cases h
  | some level =>
    rw [hlevel] at h
    obtain ⟨rfl, rfl⟩ := Prod.mk.inj (Except.ok.inj h)
    exact ⟨rfl, by rw [clock.read_fst], rfl⟩

variable {hi : Logger}

/-- The least number that is too long for a numeral. -/
def tooLong : Int := (Nat.pow 10 Text.maxDigits : Nat)

end Logger

end Chip8.Log
