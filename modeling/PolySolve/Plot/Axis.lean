import PolySolve.Decimal.Basic
import PolySolve.Plot.Range

/-!
# Axes

The range that an axis shows: all values and zero, with a margin on both sides. A range that is
too narrow, too close to zero or without ends gives way to one that can be shown.
-/

namespace PolySolve.Plot

open Binary64

/-- The value `digits / 10 ^ places`. -/
def fraction (digits places : Nat) : Binary64 := (⟨digits, -places⟩ : Decimal).toBinary64 false

/-- How a range is widened that is too narrow to be shown. -/
structure Widening where
  /-- The part of each end by which a narrow range is widened, and the ends of the range around
  zero that stands for one that cannot be widened so. -/
  share : Binary64
  /-- A range is narrow if its width is at most this part of its greater end. -/
  narrow : Binary64
  deriving DecidableEq

namespace Widening

/-- For the range of some values. -/
def ofValues : Widening := ⟨fraction 5 2, fraction 1 15⟩

/-- For that range with its margins. -/
def ofMargins : Widening := ⟨fraction 1 12, fraction 1 13⟩

/-- For the range on which ticks are placed. -/
def ofTicks : Widening := ⟨fraction 1 13, fraction 1 14⟩

/-- The least value with full precision. -/
def leastNormal : Binary64 := round false (twoPow 52) 1

/-- A range with both ends closer to zero is not told from zero. -/
def nearZero (w : Widening) : Binary64 := 1000000 / w.narrow * leastNormal

end Widening

namespace Range

/-- The end farther from zero. -/
def reach (r : Range) : Binary64 := greatest r.low.abs [r.high.abs]

def widen (w : Widening) (r : Range) : Range :=
  if !(r.low.isFinite && r.high.isFinite) || r.reach < w.nearZero then ⟨-w.share, w.share⟩
  else if r.width ≤ r.reach * w.narrow then
    ⟨r.low - w.share * r.low.abs, r.high + w.share * r.high.abs⟩
  else r

/-- The range of zero and some values. -/
def around (xs : List Binary64) : Range := ⟨least 0 xs, greatest 0 xs⟩

/-- A range with a margin of a twentieth of its width on both sides. -/
def withMargins (r : Range) : Range :=
  let margin := r.width * fraction 5 2
  if margin.isFinite then ⟨r.low - margin, r.high + margin⟩ else r

/-- The range that an axis shows for some values. -/
def shown (xs : List Binary64) : Range :=
  (((around xs).widen .ofValues).withMargins.widen .ofMargins).widen .ofValues

end Range

end PolySolve.Plot
