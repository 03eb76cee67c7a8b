import PolySolve.Polynomial.Basic

/-!
# Collecting like terms

`Polynomial.reduce` adds up the coefficients of each exponent in the order of the terms. Zero sums
are dropped, except at exponent 0, and no sum is minus zero.
-/

namespace PolySolve.Polynomial

/-- The sums of the coefficients of each exponent, in the order of the terms. -/
def sums (ts : List Term) : Polynomial := ts.foldl add empty

/-- Sums that are kept: those that are not zero, and the one at exponent 0. -/
def isKept (t : Term) : Bool := !t.coefficient.isZero || t.exponent == 0

/-- A sum as it is stored. -/
def stored (t : Term) : Term := ⟨t.coefficient.unsignedZero, t.exponent⟩

/-- The polynomial that a list of terms adds up to. -/
def reduce (ts : List Term) : Polynomial where
  terms := ((sums ts).terms.filter isKept).map stored
  ascending := List.pairwise_map.2 ((sums ts).ascending.filter _)

end PolySolve.Polynomial
