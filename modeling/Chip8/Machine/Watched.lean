import Chip8.Machine.Cycle
import Chip8.Progress

/-!
# Watched runs

Frames under a progress bar. The machine that a watched run ends with is the one that the frames
alone lead to.
-/

set_option autoImplicit false

namespace Chip8.Machine

/-- The bar of a run of `n` frames. -/
def frameBar (n : Int) : Progress.Bar Empty :=
  .ofOptions n { label := some (.text (Progress.defaultLabel n "frames")) }

/-- The numbers of frames and of steps that a run is asked to make, which a bar makes sure of
before the loops do. -/
def frameCounts (watched : Bool) (n k : Int) : Except Count.Overflow (Nat × Nat) :=
  match if watched then (frameBar n).check else .ok () with
  | .error e => .error e
  | .ok _ => Count.nested n k

/-- Runs frames under a progress bar; a negative number of frames or steps counts as zero. -/
def watchFrames (m : Machine) (n k : Int) : Progress.Outcome Machine Unit Empty :=
  Progress.scan (frameBar n) id (fun m _ => (m.runFrame k.toNat, ())) m
    (Progress.interval 0 n.toNat)

end Chip8.Machine
