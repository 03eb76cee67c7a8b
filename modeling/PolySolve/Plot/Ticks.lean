import PolySolve.Decimal.Shortest
import PolySolve.Plot.Axis

/-!
# Ticks

The marks on an axis: they stand at multiples of a round step, the smallest one that needs no more
than nine steps, or else a smaller one if fewer than two marks would be seen. Marks reach to the
ends of the axis or beyond them, and so beyond the finite values if the axis ends there. An axis of
infinite width has no ticks.
-/

namespace PolySolve.Plot

open Binary64

/-- Why an axis has no ticks. -/
inductive TickFault where
  | uncountable
  | infinite
  deriving DecidableEq

/-- How many steps there are on an axis at most. -/
def maxSteps : Nat := 9

/-- How many marks are seen at least. -/
def minMarks : Nat := 2

/-- The round steps beside a power of ten. -/
def roundSteps : List Binary64 := [
  fraction 1 1, fraction 2 1, fraction 25 2, fraction 5 1, 1, 2, fraction 25 1, 5, 10, 20]

/-- The greatest power of ten that a finite value reaches. -/
def powerBelow : Binary64 → Binary64
  | finite _ n _ _ => (⟨1, Decimal.pointPosition n - 1⟩ : Decimal).toBinary64 false
  | x => x

/-- What is less than a step divided by this number is no distance between marks. -/
def tolerance : Int := 10000000000

/-- The last multiple of a step that is not beyond a distance, or the next one if it is met. -/
def stepsBefore (distance step : Int) : Int :=
  let n := distance.fdiv step
  if (step - distance.fmod step) * tolerance < step then n + 1 else n

/-- The first multiple of a step that is beyond a distance, or the one before if it is met. -/
def stepsAfter (distance step : Int) : Int :=
  let n := distance.fdiv step
  if distance.fmod step * tolerance < step then n else n + 1

namespace Range

/-- The marks from the last multiple of a step before a range to the first one after it. -/
def marks (r : Range) (step : Binary64) : Except TickFault (List Binary64) := do
  let (some low, some s) := (r.low.toUnits?, step.toUnits?) | .error .uncountable
  let first := ofInt (low.fdiv s) * step
  let (some before, some after) := ((r.low - first).toUnits?, (r.high - first).toUnits?)
    | .error .uncountable
  let start := stepsBefore before s
  return (List.range (stepsAfter after s + 1 - start).toNat).map
    fun (i : Nat) => ofInt (start + i) * step + first

def sees (r : Range) (x : Binary64) : Bool := r.low ≤ x && x ≤ r.high

/-- The marks at the first of some steps that gives enough of them, or at the last step. -/
def marksAt (r : Range) : List Binary64 → Except TickFault (List Binary64)
  | [] => .ok []
  | step :: rest => do
    let xs ← r.marks step
    if minMarks ≤ (xs.filter r.sees).length ∨ rest = [] then return xs else r.marksAt rest

/-- The steps that are tried, the one for the fewest marks first. -/
def steps (r : Range) : List Binary64 :=
  let least := r.width / .ofNat maxSteps
  let all := roundSteps.map (· * powerBelow least)
  (all.take ((all.takeWhile (· < least)).length + 1)).reverse

def ticks (r : Range) : Except TickFault (List Binary64) := do
  let r := r.widen .ofTicks
  if !r.width.isFinite then .error .uncountable
  let xs ← r.marksAt r.steps
  if xs.all isFinite then return xs else .error .infinite

end Range

end PolySolve.Plot
