import PolySolve.Equation.Error
import PolySolve.Text.Quoted

/-!
# Outcomes

What solving a polynomial equation comes to, and the faults by which it can come to nothing.
-/

namespace PolySolve

inductive Kind where
  | noSolution
  | allReals
  | single
  | pair
  | complexPair
  | degreeTooHigh
  /-- A kind that this solver does not report. -/
  | other (name : List Char)
  deriving DecidableEq

namespace Kind

def name : Kind → List Char
  | noSolution => "no_solution".toList
  | allReals => "all_reals".toList
  | single => "single".toList
  | pair => "pair".toList
  | complexPair => "complex_pair".toList
  | degreeTooHigh => "degree_too_high".toList
  | other n => n

end Kind

structure Outcome where
  kind : Kind
  degree : Int
  discriminant : Option Binary64
  roots : List Root
  deriving DecidableEq

namespace Outcome

/-- The roots that are real numbers. -/
def realRoots (o : Outcome) : List Binary64 := o.roots.filterMap Root.real?

end Outcome

inductive Fault where
  | equation (e : EquationError)
  | divisionByZero
  /-- A complex root with finite parts is too far from zero for a finite modulus. -/
  | modulusOverflow
  /-- An outcome lacks the root that its report shows. -/
  | missingRoot
  /-- An outcome with a discriminant has a kind without a header. -/
  | unknownKind (name : List Char)
  deriving DecidableEq

namespace Fault

def message : Fault → List Char
  | equation e => e.message
  | divisionByZero => "float division by zero".toList
  | modulusOverflow => "absolute value too large".toList
  | missingRoot => "tuple index out of range".toList
  | unknownKind name => Text.quote name

end Fault

end PolySolve
