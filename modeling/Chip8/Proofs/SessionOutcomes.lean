import Chip8.CommandLine.Session
import Chip8.Proofs.FaultReports
import Chip8.Proofs.ProgressBars
import Chip8.Proofs.Readings

/-!
# How sessions end

A session ends in one of three ways. An image that does not fit is refused: one record, whatever the
level, and status two (`Session.Refuses`). Otherwise the frames are run, and what is written and
answered is an account of the machine they lead to (`Session.Reports`). The third way is there for one
count only, the least that fits in a word: with a progress bar the bar cannot be made for it, and the
session stops before the run (`Session.Stops`). Without the bar that count is as good as zero.

A session asks the log for numbers that have few digits only, so no call of it fails
(`Session.failure?_conduct_complete`) and its records are all there.

`execute_outcome` is the top. It says which of the three it is, from the arguments on, and compares
sessions that differ in the level and the progress bar only: where neither stops, they end with the
same status, and with the same level they write the same text.
-/

set_option autoImplicit false

namespace Chip8

/-- Loops are counted if both numbers fit. -/
theorem Count.exists_nested {n k : Int} (hn : fits n = true) (hk : fits k = true) :
    ∃ c, nested n k = .ok c := by
  simp only [nested, check, hn, hk, if_true]
  split
  all_goals exact ⟨_, rfl⟩

/-- Numbers of up to ten digits can be written. -/
theorem Text.isWritable_of_natAbs_lt {n : Int} (h : n.natAbs < 10000000000) :
    isWritable n = true := by
  unfold isWritable
  generalize hdigits : maxDigits = d
  have hpow : 10 ^ 10 ≤ 10 ^ d := Nat.pow_le_pow_right (by decide) (hdigits ▸ by decide)
  exact decide_eq_true (Nat.lt_of_lt_of_le h hpow)

/-- A number that can be written has a text. -/
theorem Log.Value.isShown_number {n : Int} (h : n.natAbs < 10000000000) :
    (number n).isShown = true := by
  rw [isShown, display, if_pos (Text.isWritable_of_natAbs_lt h)]
  rfl

/-- There are at most as many pixels on as there are pixels. -/
theorem Screen.litCount_le (s : Screen) : s.litCount ≤ 2048 := by
  refine (List.count_le_length).trans (Nat.le_of_eq ?_)
  simp [List.length_flatMap, screenHeight, screenWidth]

namespace CommandLine

/-- A session for which nothing is left blank. -/
def Session.complete (image : String) (key : Random.Key) (dialect : String × Dialect) (n k : Int)
    (level : Log.Level) (progress : Bool) : Session :=
  { image, level, key, dialect, frames := .value n, stepsPerFrame := .value k, progress }

namespace Settings

/-- The settings leave nothing blank, and every number in them fits in its word. -/
structure Asks (settings : Settings) (n k : Int) (dialect : String × Dialect) (level : Log.Level) :
    Prop where
  frames : settings.frames = .value n
  frames_fit : Count.fits n = true
  stepsPerFrame : settings.stepsPerFrame = .value k
  stepsPerFrame_fit : Count.fits k = true
  dialect : settings.dialect = .value dialect
  level : settings.level = .value level
  seed : settings.seed = none ∨
    ∃ x : Int, settings.seed = some (.value x) ∧
      -0x8000000000000000 ≤ x ∧ x < 0x8000000000000000

/-- The frames can be counted, by the progress bar as well if there is one. -/
def Countable (settings : Settings) (n : Int) : Prop :=
  settings.progress = true → n ≠ -0x80000000

variable {settings : Settings} {n k : Int} {dialect : String × Dialect} {level : Log.Level}

/-- Settings that ask for a session have a key, made of their seed or of the clock. -/
theorem Asks.exists_key (h : settings.Asks n k dialect level) (nanoseconds : Int) :
    ∃ key, settings.key nanoseconds = .ok key := by
  obtain hseed | ⟨x, hseed, hx⟩ := h.seed
  · exact ⟨_, by rw [key, hseed]⟩
  · exact ⟨⟨0, UInt32.ofInt x⟩, by simp only [key, hseed, Random.Key.ofSeed, if_pos hx]; rfl⟩

/-- The session of some settings is the one that they ask for. -/
theorem Asks.session_eq (h : settings.Asks n k dialect level) {nanoseconds : Int} {key : Random.Key}
    (hkey : settings.key nanoseconds = .ok key) (image : String) :
    settings.session image nanoseconds =
      .ok (.complete image key dialect n k level settings.progress) := by
  simp only [session, h.level, hkey, h.dialect, h.frames, h.stepsPerFrame]
  rfl

end Settings

namespace Session

variable (s : Session)

/-- The lines that a session writes to a terminal or to something else. -/
def lines (isTerminal : Bool) (o : Outcome) (clock : Log.Clock) : List Log.Line :=
  ((s.logger isTerminal clock).1.lines o.calls (s.logger isTerminal clock).2).1

/-- The records on the lines that a session writes. -/
def records (isTerminal : Bool) (o : Outcome) (clock : Log.Clock) : List Log.Record :=
  (s.lines isTerminal o clock).map Log.Line.record

/-- The text that a session writes. -/
def output (isTerminal : Bool) (o : Outcome) (clock : Log.Clock) : String :=
  (s.logger isTerminal clock).1.transcript o.calls (s.logger isTerminal clock).2

/-- The record of the fault that a machine has halted on, if it has. -/
def faultRecords (m : Machine) : List Log.Record :=
  m.faultReport?.toList.map fun r => Log.faultRecord r.name r.message

/-- The other records of a session that ends with the machine `m` after some seconds. -/
def account (elapsed : Float) (m : Machine) : List Log.Record :=
  ⟨.debug, "Quirks: " ++ s.dialect.2.describe⟩ ::
    Log.Step.made (Log.startRecords s.configuration) ++
    Log.Step.made (Log.endRecords elapsed (summaryEntries m.summary))

/-- Whether records of a level are written. -/
def shows (level : Log.Level) : Bool := s.level.rank ≤ level.rank

/-- The session refuses the image. -/
structure Refuses (o : Outcome) (e : Oversize) : Prop where
  status : o.status = .ok 2
  events : o.events = []
  /-- One record is written at every level. -/
  records (isTerminal : Bool) (clock : Log.Clock) :
    s.records isTerminal o clock = [⟨.error, "LoadFault: " ++ e.message⟩]

/-- The session reports on the machine `m`. -/
structure Reports (o : Outcome) (m : Machine) : Prop where
  status : o.status = .ok (if m.faulted then 1 else 0)
  /-- The account of the session is written and after it the fault, as far as the level admits. -/
  records (isTerminal : Bool) (clock : Log.Clock) : ∃ elapsed,
    s.records isTerminal o clock =
      (s.account elapsed m ++ faultRecords m).filter fun r => s.shows r.level
  /-- There is an error among them exactly if the status says so. -/
  error_iff (isTerminal : Bool) (clock : Log.Clock) :
    (∃ r ∈ s.records isTerminal o clock, r.level = .error) ↔ o.status = .ok 1
  /-- The error is the only one, it comes last, and it is the fault of the machine. -/
  last (isTerminal : Bool) (clock : Log.Clock) (h : m.faulted = true) : ∃ f before,
    m.faultReport? = some f ∧
    s.records isTerminal o clock = before ++ [⟨.error, f.name ++ ": " ++ f.message⟩] ∧
    ∀ r ∈ before, r.level ≠ .error
  /-- The summary that is written is that of the machine. -/
  summary (isTerminal : Bool) (clock : Log.Clock) (h : s.shows .info = true) :
    ∃ elapsed, Log.Step.made (Log.endRecords elapsed (summaryEntries m.summary)) <:+:
      s.records isTerminal o clock

/-- The session stops before the run, because of the number of frames. -/
structure Stops (o : Outcome) : Prop where
  status : o.status = .error (.count ⟨.right, -0x80000001⟩)
  events : o.events = []
  /-- Nothing but the opening is written. -/
  calls : o.calls = s.opening

/-! ## What is written -/

/-- A session opens with calls that write plain records. -/
theorem isPlain_opening : ∀ c ∈ s.opening, c.isPlain = true := by
  simp [opening, Log.Call.isPlain]

/-- A session that came through closes with calls that write plain records. -/
theorem isPlain_closing (m : Machine) : ∀ c ∈ closing m, c.isPlain = true := by
  unfold closing
  cases m.faultReport?
  all_goals simp [Log.Call.isPlain]

/-- An image that is too long is reported by calls that write plain records. -/
theorem isPlain_refusal (e : Oversize) : ∀ c ∈ refusal e, c.isPlain = true := by
  simp [refusal, Log.Call.isPlain]

/-- A session asks for plain calls only, so every logger writes all of its text. -/
theorem isPlain_conduct (image : List UInt8) :
    ∀ c ∈ (s.conduct image).calls, c.isPlain = true := by
  unfold conduct
  split
  · exact isPlain_refusal _
  · split
    · exact s.isPlain_opening
    · exact List.forall_mem_append.mpr ⟨s.isPlain_opening, isPlain_closing _⟩

/-- A session that came through reports its account, and its fault if there is one. -/
theorem expansion_report (m : Machine) (lg : Log.Logger) (clock : Log.Clock) :
    ∃ elapsed, lg.expansion (s.opening ++ closing m) clock =
      s.account elapsed m ++ faultRecords m := by
  unfold closing opening account faultRecords
  cases m.faultReport?
  all_goals exact ⟨_, by
    simp only [List.cons_append, List.nil_append, Log.Logger.expansion, Log.Call.expansion,
      Log.Call.steps, Log.Step.made, List.append_assoc, List.append_nil, Option.toList,
      List.map_cons, List.map_nil]
    rfl⟩

/-- The records of a session are those of its calls that its threshold lets through. -/
theorem records_eq (isTerminal : Bool) (o : Outcome) (clock : Log.Clock) :
    s.records isTerminal o clock =
      ((s.logger isTerminal clock).1.expansion o.calls (s.logger isTerminal clock).2).filter
        fun r => s.shows r.level :=
  Log.Logger.records_lines _ _ _

/-- The output of a session is the text of its lines. -/
theorem output_eq (image : List UInt8) (isTerminal : Bool) (clock : Log.Clock) :
    s.output isTerminal (s.conduct image) clock =
      (s.logger isTerminal clock).1.text (s.lines isTerminal (s.conduct image) clock) :=
  Log.Logger.transcript_eq _ (s.isPlain_conduct image) _

/-- No level hides errors. -/
theorem shows_error : s.shows .error = true := by
  unfold shows
  cases s.level
  all_goals rfl

/-- The account of a session holds no errors. -/
theorem level_of_mem_account {elapsed : Float} {m : Machine} {r : Log.Record}
    (hr : r ∈ s.account elapsed m) : r.level ≠ .error := by
  simp only [account, List.mem_append, List.mem_cons] at hr
  obtain (rfl | hstart) | hend := hr
  · exact nofun
  · rw [Log.Call.level_of_mem_block (Log.Step.mem_of_mem_made hstart)]
    exact nofun
  · rw [Log.Call.level_of_mem_block (Log.Step.mem_of_mem_made hend)]
    exact nofun

/-- A fault is reported as an error. -/
theorem level_of_mem_faultRecords {m : Machine} {r : Log.Record} (hr : r ∈ faultRecords m) :
    r.level = .error := by
  obtain ⟨f, -, rfl⟩ := List.mem_map.mp hr
  rfl

/-- Errors are let through by every threshold. -/
theorem filter_faultRecords (m : Machine) :
    (faultRecords m).filter (fun r => s.shows r.level) = faultRecords m := by
  refine List.filter_eq_self.mpr fun r hr => ?_
  rw [level_of_mem_faultRecords hr]
  exact s.shows_error

/-- At `INFO` and below, the summary of a session is let through as a whole. -/
theorem filter_endRecords (h : s.shows .info = true) (elapsed : Float) (m : Machine) :
    (Log.Step.made (Log.endRecords elapsed (summaryEntries m.summary))).filter
        (fun r => s.shows r.level) =
      Log.Step.made (Log.endRecords elapsed (summaryEntries m.summary)) := by
  refine List.filter_eq_self.mpr fun r hr => ?_
  rw [Log.Call.level_of_mem_block (Log.Step.mem_of_mem_made hr)]
  exact h

/-! ## The three ways to end -/

variable {s}

/-- An image that is too long ends a session with status two, before a frame is run. -/
theorem conduct_of_oversize {image : List UInt8} {e : Oversize} (h : s.start image = .error e) :
    s.conduct image = ⟨.ok 2, refusal e, []⟩ := by
  unfold conduct
  rw [h]

/-- A session whose machine cannot be started refuses the image. -/
theorem refuses_of_start {image : List UInt8} {e : Oversize} (h : s.start image = .error e) :
    s.Refuses (s.conduct image) e := by
  rw [conduct_of_oversize h]
  refine ⟨rfl, rfl, fun isTerminal clock => ?_⟩
  rw [records_eq]
  simp only [refusal, Log.Logger.expansion, Log.Call.expansion, Log.Call.steps, Log.Step.made,
    List.append_nil]
  exact List.filter_cons_of_pos s.shows_error

/-- A session whose calls are those of a run that ends with `m` reports on `m`. -/
theorem reports_of_calls {o : Outcome} {m : Machine} (hstatus : o.status = .ok (status m))
    (hcalls : o.calls = s.opening ++ closing m) : s.Reports o m := by
  -- of the two parts of the account only the first can lose records to the level, and only the
  -- second holds errors
  have hrecords : ∀ isTerminal clock, ∃ elapsed, s.records isTerminal o clock =
      ((s.account elapsed m).filter fun r => s.shows r.level) ++ faultRecords m := by
    intro isTerminal clock
    obtain ⟨elapsed, hexpansion⟩ := s.expansion_report m (s.logger isTerminal clock).1
      (s.logger isTerminal clock).2
    refine ⟨elapsed, ?_⟩
    rw [records_eq, hcalls, hexpansion, List.filter_append, filter_faultRecords]
  have hquiet : ∀ {elapsed r}, r ∈ ((s.account elapsed m).filter fun r => s.shows r.level) →
      r.level ≠ .error := by
    intro elapsed r hr
    exact s.level_of_mem_account (List.mem_of_mem_filter hr)
  have hone : o.status = .ok 1 ↔ m.faulted = true := by
    rw [hstatus, status]
    cases m.faulted
    all_goals simp
  refine ⟨hstatus, ?records, ?error_iff, ?last, ?summary⟩
  case records =>
    intro isTerminal clock
    obtain ⟨elapsed, hwritten⟩ := hrecords isTerminal clock
    exact ⟨elapsed, by rw [hwritten, List.filter_append, filter_faultRecords]⟩
  case error_iff =>
    intro isTerminal clock
    obtain ⟨elapsed, hwritten⟩ := hrecords isTerminal clock
    rw [hwritten, hone, ← Machine.exists_faultReport?_iff]
    constructor
    · rintro ⟨r, hr, herror⟩
      obtain hr | hr := List.mem_append.mp hr
      · exact absurd herror (hquiet hr)
      · obtain ⟨f, hf, -⟩ := List.mem_map.mp hr
        exact ⟨f, Option.mem_toList.mp hf⟩
    · rintro ⟨f, hf⟩
      have hfault : Log.faultRecord f.name f.message ∈ faultRecords m :=
        List.mem_map_of_mem (Option.mem_toList.mpr hf)
      exact ⟨_, List.mem_append_right _ hfault, rfl⟩
  case last =>
    intro isTerminal clock h
    obtain ⟨elapsed, hwritten⟩ := hrecords isTerminal clock
    obtain ⟨f, hf⟩ := Machine.exists_faultReport?_iff.mpr h
    have hfault : faultRecords m = [⟨.error, f.name ++ ": " ++ f.message⟩] := by
      rw [faultRecords, hf]
      rfl
    exact ⟨f, _, hf, by rw [hwritten, hfault], fun r hr => hquiet hr⟩
  case summary =>
    intro isTerminal clock h
    obtain ⟨elapsed, hwritten⟩ := hrecords isTerminal clock
    rw [hwritten, account, List.filter_append, s.filter_endRecords h]
    exact ⟨elapsed, List.infix_append _ _ _⟩

/-- A session whose numbers can be counted runs its frames, watched or not. -/
theorem conduct_of_counts {image : List UInt8} {m : Machine} (h : s.start image = .ok m) {n k : Int}
    (hcounts : s.counts = .ok (n, k)) :
    (s.conduct image).status = .ok (status (m.runFrames n.toNat k.toNat)) ∧
      (s.conduct image).calls = s.opening ++ closing (m.runFrames n.toNat k.toNat) := by
  have hran : (s.run n k m).1 = m.runFrames n.toNat k.toNat := by
    unfold run
    split
    · exact m.watchFrames_final n k
    · rfl
  unfold conduct
  rw [h, hcounts]
  exact ⟨congrArg (Except.ok <| status ·) hran, congrArg (s.opening ++ closing ·) hran⟩

/-- The counts of a session pass where the host can count them; one that is watched needs a count
with a predecessor. -/
theorem counts_complete {image : String} {key : Random.Key} {dialect : String × Dialect} {n k : Int}
    {level : Log.Level} {progress : Bool} (hn : Count.fits n = true) (hk : Count.fits k = true)
    (hcountable : progress = true → n ≠ -0x80000000) :
    (complete image key dialect n k level progress).counts = .ok (n, k) := by
  obtain ⟨c, hc⟩ := Count.exists_nested hn hk
  have hframeCounts : Machine.frameCounts progress n k = .ok c := by
    cases progress
    · exact hc
    · have hleast := hcountable rfl
      have hpred : Count.fits (n - 1) = true := by
        simp only [Count.fits, Bool.and_eq_true, decide_eq_true_eq] at hn ⊢
        omega
      rw [Machine.frameCounts_watched hn hpred]
      exact hc
  simp only [counts, complete, hframeCounts]

/-- Neither the level nor a progress bar that can be made has a part in what a session does. -/
theorem conduct_complete_congr (image : String) (key : Random.Key) (dialect : String × Dialect)
    {n k : Int} (hn : Count.fits n = true) (hk : Count.fits k = true) (level level' : Log.Level)
    {progress progress' : Bool} {bytes : List UInt8}
    (h : 3584 < bytes.length ∨
      (progress = true → n ≠ -0x80000000) ∧ (progress' = true → n ≠ -0x80000000)) :
    ((complete image key dialect n k level progress).conduct bytes).status =
        ((complete image key dialect n k level' progress').conduct bytes).status ∧
      ((complete image key dialect n k level progress).conduct bytes).calls =
        ((complete image key dialect n k level' progress').conduct bytes).calls := by
  by_cases hsize : bytes.length ≤ 3584
  · obtain ⟨hcountable, hcountable'⟩ := h.resolve_left (Nat.not_lt_of_le hsize)
    have hcounts : (complete image key dialect n k level progress).counts = .ok (n, k) :=
      counts_complete hn hk hcountable
    have hcounts' : (complete image key dialect n k level' progress').counts = .ok (n, k) :=
      counts_complete hn hk hcountable'
    obtain ⟨hstatus, hcalls⟩ := conduct_of_counts (if_pos hsize) hcounts
    obtain ⟨hstatus', hcalls'⟩ := conduct_of_counts (if_pos hsize) hcounts'
    rw [hstatus, hstatus', hcalls, hcalls']
    exact ⟨rfl, rfl⟩
  · rw [conduct_of_oversize (if_neg hsize), conduct_of_oversize (if_neg hsize)]
    exact ⟨rfl, rfl⟩

/-- A session that is watched over `-2^31` frames stops: the count has no predecessor. -/
theorem stops_of_start {image : List UInt8} {m : Machine} (h : s.start image = .ok m) {k : Int}
    (hframes : s.frames = .value (-0x80000000)) (hsteps : s.stepsPerFrame = .value k)
    (hprogress : s.progress = true) : s.Stops (s.conduct image) := by
  have hcounts : s.counts = .error (.count ⟨.right, -0x80000001⟩) := by
    have hleast := (Machine.frameCounts_watched_least (n := -0x80000000) rfl rfl k).1
    simp only [counts, hframes, hsteps, hprogress, hleast]
    rfl
  have hconduct : s.conduct image = ⟨.error (.count ⟨.right, -0x80000001⟩), s.opening, []⟩ := by
    unfold conduct
    rw [h, hcounts]
  rw [hconduct]
  exact ⟨rfl, rfl, rfl⟩

/-! ## No call fails -/

/-- Every value of a summary has a text. -/
theorem isShown_summaryEntries (m : Machine) :
    ((summaryEntries m.summary).all fun e => e.2.isShown) = true := by
  have hdepth := m.stack.pointer.toNat_lt
  have hdelay := m.delayTimer.toNat_lt
  have hsound := m.soundTimer.toNat_lt
  have hlit := m.screen.litCount_le
  simp only [summaryEntries, Machine.summary, List.all_cons, List.all_nil, Bool.and_true,
    Bool.and_eq_true]
  refine ⟨rfl, rfl, rfl, ?_, ?_, ?_, ?_⟩
  all_goals exact Log.Value.isShown_number (by omega)

/-- No call of a session fails whose numbers have few digits. -/
theorem failure?_conduct_complete (image : String) (key : Random.Key)
    (dialect : String × Dialect) {n k : Int} (hn : Count.fits n = true)
    (hk : Count.fits k = true) (level : Log.Level) (progress : Bool) (bytes : List UInt8) :
    ∀ c ∈ ((complete image key dialect n k level progress).conduct bytes).calls,
      c.failure? = none := by
  simp only [Count.fits, Bool.and_eq_true, decide_eq_true_eq] at hn hk
  have hopening : ∀ c ∈ (complete image key dialect n k level progress).opening,
      c.isShown = true := by
    refine List.forall_mem_cons.mpr ⟨rfl, List.forall_mem_singleton.mpr ?_⟩
    simp only [Log.Call.isShown, Log.Call.entries, configuration, complete, Setting.shown,
      List.all_cons, List.all_nil, Bool.and_true, Bool.and_eq_true]
    exact ⟨rfl, Log.Value.isShown_number (by omega), Log.Value.isShown_number (by omega), rfl⟩
  have hclosing : ∀ m, ∀ c ∈ closing m, c.isShown = true := by
    intro m c hc
    unfold closing at hc
    obtain rfl | hc := List.mem_cons.mp hc
    · exact isShown_summaryEntries m
    · cases hf : m.faultReport? with
      | none =>
        rw [hf] at hc
        cases hc
      | some f =>
        rw [hf] at hc
        obtain rfl := List.mem_singleton.mp hc
        rfl
  intro c hc
  refine (Log.Call.failure?_eq_none_iff (isPlain_conduct _ bytes c hc)).mpr ?_
  unfold conduct at hc
  split at hc
  · obtain rfl := List.mem_singleton.mp hc
    rfl
  · split at hc
    · exact hopening c hc
    · exact (List.mem_append.mp hc).elim (hopening c) (hclosing _ c)

end Session

/-! ## From the arguments on -/

variable {arguments : List String} {image : String} {settings : Settings} {n k : Int}
  {dialect : String × Dialect} {level : Log.Level} {tree : FileTree} {bytes : List UInt8}
  {nanoseconds : Int} {key : Random.Key}

/-- A command line with a session to it, and a file behind it, conducts that session. -/
theorem execute_eq (hparse : parse arguments = .ok (image, settings))
    (hasks : settings.Asks n k dialect level) (hfile : tree.read image = .ok bytes)
    (hkey : settings.key nanoseconds = .ok key) :
    execute arguments tree nanoseconds =
      .conducted (.complete image key dialect n k level settings.progress)
        ((Session.complete image key dialect n k level settings.progress).conduct bytes) := by
  simp only [execute, hparse, hasks.session_eq hkey, hfile]

/-- What a command line that asks for a session comes to. The log can write all that it is asked for.
An image that does not fit is refused. With
any other the session reports on the machine that its frames lead to, unless it stops because of the
count. Of two command lines that differ in the level and the progress bar, and of which neither stops,
the status is the same, and with the same level the text is. -/
theorem execute_outcome (hparse : parse arguments = .ok (image, settings))
    (hasks : settings.Asks n k dialect level) (hfile : tree.read image = .ok bytes)
    (nanoseconds : Int) :
    ∃ (key : Random.Key) (s : Session) (o : Outcome),
      settings.key nanoseconds = .ok key ∧ s.level = level ∧
      execute arguments tree nanoseconds = .conducted s o ∧
      (∀ isTerminal clock, s.output isTerminal o clock =
        (s.logger isTerminal clock).1.text (s.lines isTerminal o clock)) ∧
      (∀ c ∈ o.calls, c.failure? = none) ∧
      (3584 < bytes.length → s.Refuses o ⟨bytes.length⟩) ∧
      (bytes.length ≤ 3584 → ∃ m, (Machine.powerOn key dialect.2).load bytes = .ok m ∧
        (settings.Countable n → s.Reports o (m.runFrames n.toNat k.toNat)) ∧
        (¬ settings.Countable n → s.Stops o)) ∧
      ∀ {others settings' level'}, parse others = .ok (image, settings') →
        settings'.Asks n k dialect level' → settings'.seed = settings.seed →
        3584 < bytes.length ∨ settings.Countable n ∧ settings'.Countable n →
        ∃ s' o', execute others tree nanoseconds = .conducted s' o' ∧ o'.status = o.status ∧
          (level' = level → ∀ isTerminal clock,
            s'.output isTerminal o' clock = s.output isTerminal o clock) := by
  obtain ⟨key, hkey⟩ := hasks.exists_key nanoseconds
  refine ⟨key, _, _, hkey, rfl, execute_eq hparse hasks hfile hkey, Session.output_eq _ _,
    Session.failure?_conduct_complete image key dialect hasks.frames_fit hasks.stepsPerFrame_fit
      level settings.progress bytes, fun hsize => ?_, fun hsize => ?_, ?_⟩
  · exact Session.refuses_of_start (if_neg (Nat.not_le_of_lt hsize))
  · refine ⟨_, if_pos hsize, fun hc => ?_, fun hc => ?_⟩
    · obtain ⟨hstatus, hcalls⟩ := Session.conduct_of_counts (if_pos hsize)
        (Session.counts_complete hasks.frames_fit hasks.stepsPerFrame_fit hc)
      exact Session.reports_of_calls hstatus hcalls
    · obtain ⟨hprogress, hn⟩ := Classical.not_imp.mp hc
      obtain rfl := Classical.not_not.mp hn
      exact Session.stops_of_start (if_pos hsize) rfl rfl hprogress
  · intro others settings' level' hparse' hasks' hseed hboth
    have hkey' : settings'.key nanoseconds = .ok key := by
      rw [← hkey, Settings.key, Settings.key, hseed]
    obtain ⟨hstatus, hcalls⟩ := Session.conduct_complete_congr image key dialect hasks.frames_fit
      hasks.stepsPerFrame_fit level' level (hboth.imp_right And.symm)
    refine ⟨_, _, execute_eq hparse' hasks' hfile hkey', hstatus, ?_⟩
    rintro rfl isTerminal clock
    rw [Session.output, Session.output, hcalls]
    rfl

/-- Two images in a directory: one returns without a call, the other sets a register and then jumps
to where it stands. -/
def twoImages : FileTree where
  files := [(["bad.ch8"], [0x00, 0xEE]), (["loop.ch8"], [0x60, 0x05, 0x12, 0x02])]
  current := []

/-- The image that returns without a call ends a session with status one, and the underflow is the
last thing written. -/
theorem execute_outcome_underflowing :
    ∃ s o, execute ["bad.ch8", "--frames", "1", "--seed", "0"] twoImages 0 = .conducted s o ∧
      o.status = .ok 1 ∧
      ∀ isTerminal clock, (s.records isTerminal o clock).getLast? = some ⟨.error,
        "StackUnderflowFault: return with empty stack (opcode 0x00EE at pc 0x200)"⟩ := by
  have hparse : parse ["bad.ch8", "--frames", "1", "--seed", "0"] =
      .ok ("bad.ch8",
        { image := some "bad.ch8", frames := .value 1, seed := some (.value 0) }) := rfl
  have hfile : twoImages.read "bad.ch8" = .ok [0x00, 0xEE] := rfl
  obtain ⟨key, s, o, hkey, -, hexecute, -, -, -, hrun, -⟩ := execute_outcome hparse
    ⟨rfl, by decide, rfl, by decide, rfl, rfl, .inr ⟨0, rfl, by decide, by decide⟩⟩ hfile 0
  obtain ⟨m, hm, hreports, -⟩ := hrun (by decide)
  obtain rfl := Except.ok.inj hkey
  obtain rfl := Except.ok.inj hm
  have hreports := hreports nofun
  refine ⟨s, o, hexecute, hreports.status.trans (by decide +kernel), fun isTerminal clock => ?_⟩
  obtain ⟨f, before, hf, hrecords, -⟩ := hreports.last isTerminal clock (by decide +kernel)
  obtain rfl : f = ⟨3, 0x200, 0x00EE⟩ := Option.some.inj (hf.symm.trans (by decide +kernel))
  rw [hrecords, List.getLast?_concat]
  decide +kernel

/-- The least count that fits is as good as zero without a progress bar, and with one the session
stops before the run: in the directory of two images, two sessions that differ in the bar only do not
end with the same status. -/
theorem execute_least_count_watched :
    ¬ ∀ s o s' o',
      execute ["loop.ch8", "--frames", "-2147483648", "--seed", "0"] twoImages 0 =
        .conducted s o →
      execute ["loop.ch8", "--frames", "-2147483648", "--seed", "0", "--progress"] twoImages 0 =
        .conducted s' o' →
      o'.status = o.status := by
  intro h
  have hstatus := h _ _ _ _ rfl rfl
  cases hstatus

end CommandLine

end Chip8
