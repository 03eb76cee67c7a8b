import PolySolve.Polynomial.Evaluation
import PolySolve.Polynomial.Form

/-!
# What can be wrong with an equation

The causes for which an equation has no solution report, the message shown to the user, and the
detail that goes to the log.
-/

namespace PolySolve

open Decimal

namespace Complex

/-- A part of a complex number: whole values have no point. -/
def partChars (x : Binary64) : List Char :=
  let cs := generalChars x
  if cs.drop (cs.length - 2) = ['.', '0'] then cs.take (cs.length - 2) else cs

/-- A complex number, as in `(1.5-2j)`; a real part of plus zero is left out, as in `2j`. -/
def chars (z : Complex) : List Char :=
  if z.re = .zero then partChars z.im ++ ['j']
  else
    let sign := if z.im.isNegative then [] else ['+']
    '(' :: partChars z.re ++ sign ++ partChars z.im ++ ['j', ')']

end Complex

namespace Root

def chars : Root → List Char
  | real x => generalChars x
  | complex z => z.chars

/-- Roots in parentheses; a comma follows a single one. -/
def tupleChars (rs : List Root) : List Char :=
  match rs with
  | [r] => '(' :: r.chars ++ ",)".toList
  | _ => '(' :: (", ".toList).intercalate (rs.map chars) ++ [')']

end Root

inductive EquationError where
  /-- The text does not have exactly one equals sign. -/
  | separator (text : List Char)
  /-- One side is blank. -/
  | emptySide (side : List Char)
  /-- A side stops being a sum of terms; what is left of it. -/
  | termFormat (rest : List Char)
  /-- A term has a coefficient that is too large, or an exponent that is negative or too long. -/
  | termRange (term : List Char)
  | coefficientOverflow (p : Polynomial)
  | discriminantOverflow (discriminant : Binary64)
  | rootOverflow (roots : List Root)
  deriving DecidableEq

namespace EquationError

def message : EquationError → List Char
  | separator _ => "Equation must contain exactly one '=' symbol.".toList
  | emptySide _ | termFormat _ =>
    "Equation is not valid: All terms must be in the form 'coefficient * X^n'.".toList
  | termRange _ | coefficientOverflow _ | discriminantOverflow _ | rootOverflow _ =>
    "Equation not valid: invalid coefficient or exponent.".toList

def detail : EquationError → List Char
  | separator text => text
  | emptySide side => side
  | termFormat rest => rest
  | termRange term => term
  | coefficientOverflow p => "coefficient overflow: ".toList ++ p.listing
  | discriminantOverflow d => "discriminant overflow: ".toList ++ generalChars d
  | rootOverflow rs => "root overflow: ".toList ++ Root.tupleChars rs

end EquationError

end PolySolve
