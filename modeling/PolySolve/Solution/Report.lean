import PolySolve.Equation.Reading
import PolySolve.Log
import PolySolve.Solution.Solving

/-!
# Reports

The lines that tell an outcome, and the full report on an equation: its reduced form, the outcome,
the lines, and each root with its residual.

* `Report.outcome_eq`: a report's outcome is the one of its polynomial.
-/

namespace PolySolve

open Decimal

namespace Complex

/-- Both parts with six places, as in `0.500000 - 1.250000i`. -/
def fixedText (z : Complex) : List Char :=
  let sign := if z.im < .zero then " - ".toList else " + ".toList
  fixedChars 6 z.re ++ sign ++ fixedChars 6 z.im.abs ++ ['i']

end Complex

namespace Root

/-- A root with six places. -/
def fixedText : Root → List Char
  | real x => fixedChars 6 x
  | complex z => z.fixedText

end Root

/-- A residual with four digits. -/
def residualText (x : Binary64) : List Char := scientificChars 3 x

namespace Kind

/-- The line that tells an outcome without roots. -/
def verdict? : Kind → Option (List Char)
  | noSolution => some "No solution exists.".toList
  | allReals => some "Each real number is a solution.".toList
  | degreeTooHigh =>
    some "The polynomial degree is strictly greater than 2, I can't solve.".toList
  | _ => none

/-- The line above the roots of a quadratic equation. -/
def header? : Kind → Option (List Char)
  | pair => some "Discriminant is strictly positive, the two solutions are:".toList
  | single => some "Discriminant is zero, the solution is:".toList
  | complexPair => some "Discriminant is negative, the two complex solutions are:".toList
  | _ => none

end Kind

namespace Outcome

/-- The lines after the reduced form and the degree. -/
def answerLines (o : Outcome) : Except Fault (List (List Char)) :=
  match o.kind.verdict? with
  | some line => .ok [line]
  | none =>
    match o.discriminant with
    | none =>
      match o.roots with
      | [] => .error .missingRoot
      | r :: _ => .ok ["The solution is: ".toList ++ r.fixedText]
    | some d =>
      match o.kind.header? with
      | none => .error (.unknownKind o.kind.name)
      | some header =>
        .ok (("Discriminant: ".toList ++ plainChars d) :: header :: o.roots.map Root.fixedText)

/-- All lines that tell an outcome of a polynomial. -/
def lines (p : Polynomial) (o : Outcome) : Except Fault (List (List Char)) := do
  let answer ← o.answerLines
  return ("Reduced form: ".toList ++ p.form ++ " = 0".toList) ::
    ("Polynomial degree: ".toList ++ intChars o.degree) :: answer

end Outcome

/-- A reported root and the distance of the polynomial from zero there. -/
structure RootCheck where
  root : List Char
  residual : List Char
  deriving DecidableEq

/-- How long a report is, and the arithmetic that it names. -/
structure Summary where
  totalLines : Nat
  library : List Char
  deriving DecidableEq

structure Report where
  equation : List Char
  polynomial : Polynomial
  outcome : Outcome
  lines : List (List Char)
  deriving DecidableEq

namespace Report

def reducedForm (r : Report) : List Char := r.polynomial.form

def solutions (r : Report) : List (List Char) := r.outcome.roots.map Root.fixedText

def checks (r : Report) : List RootCheck :=
  r.outcome.roots.map fun root => ⟨root.fixedText, residualText (r.polynomial.residual root)⟩

def summary (r : Report) : Summary := ⟨r.lines.length, "Python float + NumPy".toList⟩

/-- The report on a polynomial that an equation was read as. -/
def ofPolynomial (equation : List Char) (p : Polynomial) : Except Fault Report := do
  let outcome ← p.solve
  let lines ← outcome.lines p
  return ⟨equation, p, outcome, lines⟩

/-- The report on an equation. -/
def ofEquation (equation : List Char) : Except Fault Report := do
  let p ← (Equation.polynomial equation).mapError Fault.equation
  ofPolynomial equation p

theorem outcome_eq {equation : List Char} {p : Polynomial} {r : Report}
    (h : ofPolynomial equation p = .ok r) : p.solve = .ok r.outcome ∧ r.polynomial = p := by
  unfold ofPolynomial at h
  cases ho : p.solve with
  | error e => rw [ho] at h; contradiction
  | ok o =>
    cases hl : o.lines p with
    | error e => rw [ho] at h; simp only [bind, Except.bind, hl] at h; contradiction
    | ok ls =>
      rw [ho] at h
      simp only [bind, Except.bind, hl, pure, Except.pure, Except.ok.injEq] at h
      subst h
      exact ⟨rfl, rfl⟩

end Report

/-! ## What solving logs -/

namespace Equation

def termsEntry (ts : Terms) : LogEntry where
  severity := .debug
  source := "solver.parser".toList
  message := "parsed ".toList ++ intChars ts.left.length ++ " left and ".toList ++
    intChars ts.right.length ++ " right terms".toList

/-- What collecting the terms logs. -/
def reducedEntry (ts : List Term) (p : Polynomial) : LogEntry where
  severity := .debug
  source := "solver.polynomial".toList
  message := "reduced ".toList ++ intChars ts.length ++ " raw terms to ".toList ++
    intChars p.terms.length ++ " (degree ".toList ++ intChars p.degree ++ [')']

def solvedEntry (p : Polynomial) (o : Outcome) : LogEntry where
  severity := .debug
  source := "solver.engine".toList
  message := "degree ".toList ++ intChars p.degree ++ " solved as ".toList ++ o.kind.name

/-- What reading an equation logs. -/
def readingEntries (text : List Char) : List LogEntry :=
  match check text, terms text with
  | .ok _, .ok ts => [termsEntry ts, reducedEntry ts.difference (.reduce ts.difference)]
  | _, _ => []

/-- What reading and solving an equation logs. -/
def entries (text : List Char) : List LogEntry :=
  readingEntries text ++
    match polynomial text with
    | .error _ => []
    | .ok p =>
      match p.solve with
      | .error _ => []
      | .ok o => [solvedEntry p o]

end Equation

end PolySolve
