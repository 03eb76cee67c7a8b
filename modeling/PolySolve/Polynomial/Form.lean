import PolySolve.Polynomial.Basic

/-!
# Polynomials as text

The reduced form, `5 * X^0 - 9.3 * X^2`, and the listing of stored coefficients that error details
show, `Polynomial({0: 5.0, 2: -9.3})`.
-/

namespace PolySolve

open Decimal

namespace Term

/-- A coefficient and a power of `X`. -/
def chars (t : Term) : List Char :=
  plainChars t.coefficient ++ " * X^".toList ++ intChars t.exponent

/-- A term after others: a coefficient below zero gives a minus sign and its magnitude. -/
def laterChars (t : Term) : List Char :=
  if t.coefficient < .zero then " - ".toList ++ t.neg.chars else " + ".toList ++ t.chars

end Term

namespace Polynomial

/-- The terms in ascending order; `0` stands for no terms. -/
def form (p : Polynomial) : List Char :=
  match p.terms with
  | [] => ['0']
  | t :: ts => t.chars ++ ts.flatMap Term.laterChars

/-- The stored coefficients with their exponents. -/
def listing (p : Polynomial) : List Char :=
  let entry (t : Term) := intChars t.exponent ++ ": ".toList ++ generalChars t.coefficient
  "Polynomial(\x7b".toList ++ (", ".toList).intercalate (p.terms.map entry) ++ "\x7d)".toList

end Polynomial

end PolySolve
