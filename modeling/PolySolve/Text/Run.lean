/-!
# Runs of code points

Properties of characters as tables: code points that have a property mostly come in runs, and so
do letters that lie equally far from their other case.
-/

namespace PolySolve.Text

/-- Whether a code point is in one of some runs, each given by its first and last one. -/
def inRuns (runs : List (Nat × Nat)) (n : Nat) : Bool :=
  runs.any fun (first, last) => first ≤ n && n ≤ last

/-- The code point that lies away from another one by the shift of its run. Runs are given by
their first and last code point, the step between them, and the shift. -/
def shifted? (runs : List (Nat × Nat × Nat × Int)) (n : Nat) : Option Nat :=
  runs.findSome? fun (first, last, step, shift) =>
    if first ≤ n ∧ n ≤ last ∧ (n - first) % step = 0 then some (n + shift).toNat else none

end PolySolve.Text
