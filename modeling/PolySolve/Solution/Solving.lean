import PolySolve.Solution.Outcome

/-!
# Solving

The zeros of a polynomial of degree 2 or lower, by the formulas for linear and quadratic equations.
Nothing infinite is reported: a coefficient, discriminant or root that overflows is an error.
-/

namespace PolySolve

def divide (x y : Binary64) : Except Fault Binary64 :=
  if y.isZero then .error .divisionByZero else .ok (x / y)

namespace Root

/-- The distance of a root from zero. -/
def modulus : Root → Except Fault Binary64
  | real x => .ok x.abs
  | complex z =>
    if z.re.isFinite && z.im.isFinite && !z.modulus.isFinite then .error .modulusOverflow
    else .ok z.modulus

/-- All roots have a finite distance from zero. -/
def allFinite : List Root → Except Fault Bool
  | [] => .ok true
  | r :: rs => do
    let m ← r.modulus
    if m.isFinite then allFinite rs else .ok false

end Root

namespace Polynomial

/-- A constant is zero everywhere or nowhere. -/
def solveConstant (c : Binary64) (degree : Int) : Outcome :=
  ⟨if c.isZero then .allReals else .noSolution, degree, none, []⟩

def solveLinear (p : Polynomial) : Outcome :=
  let a := p.coefficient 1
  let b := p.coefficient 0
  if a.isZero then solveConstant b 1
  else ⟨.single, 1, none, [.real (-b / a).unsignedZero]⟩

def discriminant (p : Polynomial) : Binary64 :=
  p.coefficient 1 * p.coefficient 1 - 4 * p.coefficient 2 * p.coefficient 0

def solveQuadratic (p : Polynomial) : Except Fault Outcome := do
  let a := p.coefficient 2
  let b := p.coefficient 1
  let delta := p.discriminant
  if !delta.isFinite then .error (.equation (.discriminantOverflow delta))
  else if .zero < delta then
    let first ← divide (-b + delta.sqrt) (2 * a)
    let second ← divide (-b - delta.sqrt) (2 * a)
    return ⟨.pair, 2, some delta, [.real first, .real second]⟩
  else if delta.isZero then
    let root ← divide (-b) (2 * a)
    return ⟨.single, 2, some delta, [.real root.unsignedZero]⟩
  else
    let re ← divide (-b) (2 * a)
    let im ← divide (-delta).sqrt (2 * a)
    return ⟨.complexPair, 2, some delta,
      [.complex ⟨re.unsignedZero, im.abs⟩, .complex ⟨re.unsignedZero, -im.abs⟩]⟩

/-- The outcome by degree, before the roots are checked. -/
def solveByDegree (p : Polynomial) : Except Fault Outcome :=
  if 2 < p.degree then .ok ⟨.degreeTooHigh, p.degree, none, []⟩
  else if p.degree = 2 then p.solveQuadratic
  else if p.degree = 1 then .ok p.solveLinear
  else .ok (solveConstant (p.coefficient 0) 0)

def solve (p : Polynomial) : Except Fault Outcome := do
  if p.terms.all (·.coefficient.isFinite) then
    let outcome ← p.solveByDegree
    if ← Root.allFinite outcome.roots then return outcome
    else .error (.equation (.rootOverflow outcome.roots))
  else .error (.equation (.coefficientOverflow p))

end Polynomial

end PolySolve
