import PolySolve.Binary64.Modulus
import PolySolve.Polynomial.Basic

/-!
# Evaluation

The value of a polynomial at a real or complex number, by Horner's rule over the coefficients at
the exponents from 0 to the degree; and the roots that a solver reports, with their residuals.
-/

namespace PolySolve

/-- A complex number with binary64 parts. -/
structure Complex where
  re : Binary64
  im : Binary64
  deriving DecidableEq

namespace Complex

def zero : Complex := ⟨.zero, .zero⟩

def ofReal (x : Binary64) : Complex := ⟨x, .zero⟩

def add (w z : Complex) : Complex := ⟨w.re + z.re, w.im + z.im⟩

def mul (w z : Complex) : Complex := ⟨w.re * z.re - w.im * z.im, w.re * z.im + w.im * z.re⟩

def modulus (z : Complex) : Binary64 := Binary64.hypot z.re z.im

end Complex

/-- A reported root. -/
inductive Root where
  | real (x : Binary64)
  | complex (z : Complex)
  deriving DecidableEq

namespace Root

def real? : Root → Option Binary64
  | real x => some x
  | complex _ => none

/-- The value itself, or the real part of a complex one. -/
def realPart : Root → Binary64
  | real x => x
  | complex z => z.re

end Root

namespace Polynomial

def evaluate (p : Polynomial) (x : Binary64) : Binary64 :=
  (p.dense p.degree).foldr (fun c y => y * x + c) .zero

def evaluateComplex (p : Polynomial) (z : Complex) : Complex :=
  (p.dense p.degree).foldr (fun c w => (w.mul z).add (.ofReal c)) .zero

/-- The distance from zero of the value at a root. -/
def residual (p : Polynomial) : Root → Binary64
  | .real x => (p.evaluate x).abs
  | .complex z => (p.evaluateComplex z).modulus

end Polynomial

end PolySolve
