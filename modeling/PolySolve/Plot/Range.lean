import PolySolve.Binary64.Basic

/-!
# Ranges

A range of the values on an axis, by its ends, and evenly spaced samples of it.

* `sample_last`: the last sample is the upper end of the range.
-/

namespace PolySolve.Plot

/-- A range by its ends. -/
structure Range where
  low : Binary64
  high : Binary64
  deriving DecidableEq

/-- The least of some values; a later one counts only if it is less. -/
def least (x : Binary64) (xs : List Binary64) : Binary64 :=
  xs.foldl (fun m y => if y < m then y else m) x

/-- The greatest of some values; a later one counts only if it is greater. -/
def greatest (x : Binary64) (xs : List Binary64) : Binary64 :=
  xs.foldl (fun m y => if m < y then y else m) x

/-- How many points of the curve are computed. -/
def sampleCount : Nat := 400

namespace Range

def width (r : Range) : Binary64 := r.high - r.low

/-- The distance between two samples. -/
def step (r : Range) : Binary64 := r.width / .ofNat (sampleCount - 1)

/-- One of the evenly spaced samples. If they are too close to each other for a step of its own,
each is found from the whole width. -/
def sample (r : Range) (i : Nat) : Binary64 :=
  if i + 1 = sampleCount then r.high
  else if r.step.isZero then .ofNat i / .ofNat (sampleCount - 1) * r.width + r.low
  else .ofNat i * r.step + r.low

def samples (r : Range) : List Binary64 := (List.range sampleCount).map r.sample

theorem sample_last (r : Range) : r.sample (sampleCount - 1) = r.high := if_pos rfl

theorem length_samples (r : Range) : r.samples.length = sampleCount := by simp [samples]

end Range

end PolySolve.Plot
