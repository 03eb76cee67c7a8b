import PolySolve.Proofs.Binary64.Opposite
import PolySolve.Proofs.Decimal.Reading
import PolySolve.Proofs.Solution.Cases

/-!
# Reports agree with themselves

The lines of a report, its solutions and the checks of its roots are made apart
from each other out of one outcome. They tell the same, in the same order, in
each of the six cases of an outcome; and the discriminant that the lines show
reads back as the one that the report has.

* `Outcome.exists_answer_of_lines`: the lines are two for each polynomial, and an answer;
* `Polynomial.Answers`: what answers there are;
* `Polynomial.Case.Holds.exists_answers`: each case has one of them;
* `Polynomial.value?_discriminant`: the discriminant that is shown;
* `Report.Coherent`: what agrees in a report;
* `Report.coherent_of_equation`: it does in the report on any equation.
-/

namespace PolySolve

open Binary64 Decimal

-- The elaborator must not evaluate these powers of two.
attribute [local irreducible] overflowUnits unitsPerOne

namespace Outcome

variable {p : Polynomial} {o : Outcome} {ls : List (List Char)}

/-- The line that shows the reduced form. -/
def formLine (p : Polynomial) : List Char := "Reduced form: ".toList ++ p.form ++ " = 0".toList

def degreeLine (o : Outcome) : List Char := "Polynomial degree: ".toList ++ intChars o.degree

theorem exists_answer_of_lines (h : o.lines p = .ok ls) :
    ∃ answer, o.answerLines = .ok answer ∧ ls = formLine p :: o.degreeLine :: answer := by
  unfold lines at h
  cases ha : o.answerLines with
  | error e =>
    rw [ha] at h
    contradiction
  | ok answer =>
    rw [ha] at h
    exact ⟨answer, rfl, (Except.ok.inj h).symm⟩

end Outcome

namespace Polynomial

variable {p : Polynomial} {o : Outcome} {c : Case} {answer : List (List Char)}

/-! ## Answers -/

/-- What answers there are: a quadratic equation has a discriminant and a header over its roots, a
linear one its root, and any other a verdict. -/
inductive Answers (p : Polynomial) : Outcome → List (List Char) → Prop
  | quadratic {k : Kind} {header : List Char} {roots : List Root} (hk : k.header? = some header)
      (hd : p.discriminant.isFinite) :
      Answers p ⟨k, 2, some p.discriminant, roots⟩
        (("Discriminant: ".toList ++ plainChars p.discriminant) :: header ::
          roots.map Root.fixedText)
  | linear (x : Binary64) :
      Answers p ⟨.single, 1, none, [.real x]⟩
        ["The solution is: ".toList ++ (Root.real x).fixedText]
  | verdict {k : Kind} {line : List Char} {degree : Int} (hk : k.verdict? = some line)
      (h1 : degree ≠ 1) (h2 : degree ≠ 2) : Answers p ⟨k, degree, none, []⟩ [line]

/-- Each case has one of these answers. -/
theorem Case.Holds.exists_answers (h : c.Holds p o) :
    ∃ answer, o.answerLines = .ok answer ∧ Answers p o answer := by
  obtain ⟨kind, degree, discriminant, roots⟩ := o
  cases c with
  | tooHigh =>
    obtain ⟨hdegree, rfl, rfl, rfl⟩ := h
    have hdegree : 2 < degree := hdegree
    exact ⟨_, rfl, .verdict rfl (by omega) (by omega)⟩
  | twoReal =>
    obtain ⟨rfl, rfl, hfinite, -, rfl, -⟩ := h
    exact ⟨_, rfl, .quadratic rfl hfinite⟩
  | double =>
    obtain ⟨rfl, rfl, hfinite, -, rfl, -⟩ := h
    exact ⟨_, rfl, .quadratic rfl hfinite⟩
  | conjugate =>
    obtain ⟨rfl, rfl, hfinite, -, rfl, -⟩ := h
    exact ⟨_, rfl, .quadratic rfl hfinite⟩
  | linear =>
    obtain ⟨rfl, rfl, rfl, x, rfl⟩ := h
    exact ⟨_, rfl, .linear x⟩
  | constant =>
    obtain ⟨rfl, rfl, rfl, hkind⟩ := h
    cases hz : (p.coefficient 0).isZero <;> simp only [hz] at hkind <;> subst hkind <;>
      exact ⟨_, rfl, .verdict rfl (by decide) (by decide)⟩

theorem head?_of_verdict? {k : Kind} {line : List Char} (h : k.verdict? = some line) :
    line.head? ≠ some 'D' := by
  cases k with
  | noSolution | allReals | degreeTooHigh =>
    obtain rfl := Option.some.inj h
    decide
  | _ => contradiction

/-- The kinds of outcomes that have roots. -/
def rootKinds : List Kind := [.pair, .single, .complexPair]

theorem single_mem_rootKinds : Kind.single ∈ rootKinds := by decide

theorem mem_rootKinds_of_header? {k : Kind} {header : List Char} (h : k.header? = some header) :
    k ∈ rootKinds := by
  cases k with
  | pair | single | complexPair => decide
  | _ => contradiction

theorem not_mem_rootKinds_of_verdict? {k : Kind} {line : List Char}
    (h : k.verdict? = some line) : k ∉ rootKinds := by
  cases k with
  | noSolution | allReals | degreeTooHigh => decide
  | _ => contradiction

theorem Answers.kind_mem_iff (h : Answers p o answer) :
    o.kind ∈ rootKinds ↔ o.degree = 1 ∨ o.degree = 2 := by
  cases h with
  | quadratic hk hd => exact ⟨fun _ => Or.inr rfl, fun _ => mem_rootKinds_of_header? hk⟩
  | linear x => exact ⟨fun _ => Or.inl rfl, fun _ => single_mem_rootKinds⟩
  | verdict hk h1 h2 =>
    exact ⟨fun hmem => absurd hmem (not_mem_rootKinds_of_verdict? hk), fun hdegree =>
      absurd hdegree (not_or.2 ⟨h1, h2⟩)⟩

/-- A discriminant is no minus zero, so it reads back from its plain form. -/
theorem value?_discriminant (h : p.discriminant.isFinite) :
    value? (plainChars p.discriminant) = some p.discriminant :=
  value?_plainChars h (add_ne (mul_self_ne _) _)

end Polynomial

namespace Report

variable {r : Report}

/-- The parts of a report tell the same. -/
structure Coherent (r : Report) : Prop where
  /-- Degree, kind, discriminant and roots are those of the polynomial. -/
  outcome : r.polynomial.solve = .ok r.outcome
  form : r.lines[0]? = some ("Reduced form: ".toList ++ r.reducedForm ++ " = 0".toList)
  total : r.summary.totalLines = r.lines.length
  /-- One check for each solution, in the same order. -/
  checks : r.checks.map RootCheck.root = r.solutions
  quadratic : r.outcome.degree = 2 →
    r.lines.drop 4 = r.solutions ∧
      ∃ d text, r.outcome.discriminant = some d ∧
        r.lines[2]? = some ("Discriminant: ".toList ++ text) ∧ value? text = some d
  linear : r.outcome.degree = 1 →
    r.outcome.discriminant = none ∧ r.lines.length = 3 ∧
      ∃ solution, r.solutions = [solution] ∧
        r.lines[2]? = some ("The solution is: ".toList ++ solution)
  kinds : r.outcome.kind ∈ Polynomial.rootKinds ↔ r.outcome.degree = 1 ∨ r.outcome.degree = 2
  rootless : r.outcome.kind ∉ Polynomial.rootKinds →
    r.outcome.discriminant = none ∧ r.solutions = [] ∧ r.checks = [] ∧ r.lines.length = 3
  high : 2 < r.outcome.degree → ∀ line ∈ r.lines, ¬ "Discriminant".toList <+: line

theorem root_checks (r : Report) : r.checks.map RootCheck.root = r.solutions := by
  rw [checks, solutions, List.map_map]
  rfl

theorem not_isPrefix_discriminant {line : List Char} (h : line.head? ≠ some 'D') :
    ¬ "Discriminant".toList <+: line := by
  rintro ⟨rest, rfl⟩
  exact h rfl

/-- What a report is made of. -/
theorem exists_of_ofEquation {text : List Char} (h : ofEquation text = .ok r) :
    ∃ p o ls, Equation.polynomial text = .ok p ∧ p.solve = .ok o ∧ o.lines p = .ok ls ∧
      r = ⟨text, p, o, ls⟩ := by
  unfold ofEquation at h
  cases hp : Equation.polynomial text with
  | error e =>
    rw [hp] at h
    contradiction
  | ok p =>
    rw [hp] at h
    have h : ofPolynomial text p = .ok r := h
    unfold ofPolynomial at h
    cases ho : p.solve with
    | error f =>
      rw [ho] at h
      contradiction
    | ok o =>
      rw [ho] at h
      cases hl : o.lines p with
      | error f =>
        simp only [bind, Except.bind, hl] at h
        contradiction
      | ok ls =>
        simp only [bind, Except.bind, hl] at h
        exact ⟨p, o, ls, rfl, ho, hl, (Except.ok.inj h).symm⟩

theorem coherent_of_answers {text : List Char} {p : Polynomial} {o : Outcome}
    {answer : List (List Char)} (hsolve : p.solve = .ok o) (h : Polynomial.Answers p o answer) :
    Coherent ⟨text, p, o, Outcome.formLine p :: o.degreeLine :: answer⟩ where
  outcome := hsolve
  form := rfl
  total := rfl
  checks := root_checks _
  quadratic hdegree := by
    cases h with
    | quadratic hk hd => exact ⟨rfl, _, _, rfl, rfl, Polynomial.value?_discriminant hd⟩
    | linear x => exact absurd (show (1 : Int) = 2 from hdegree) (by decide)
    | verdict hk h1 h2 => exact absurd hdegree h2
  linear hdegree := by
    cases h with
    | quadratic hk hd => exact absurd (show (2 : Int) = 1 from hdegree) (by decide)
    | linear x => exact ⟨rfl, rfl, _, rfl, rfl⟩
    | verdict hk h1 h2 => exact absurd hdegree h1
  kinds := h.kind_mem_iff
  rootless hkind := by
    cases h with
    | quadratic hk hd => exact absurd (Polynomial.mem_rootKinds_of_header? hk) hkind
    | linear x => exact absurd Polynomial.single_mem_rootKinds hkind
    | verdict hk h1 h2 => exact ⟨rfl, rfl, rfl, rfl⟩
  high hdegree line hline := by
    cases h with
    | quadratic hk hd => exact absurd (show (2 : Int) < 2 from hdegree) (by decide)
    | linear x => exact absurd (show (2 : Int) < 1 from hdegree) (by decide)
    | verdict hk h1 h2 =>
      -- All three lines start with another letter.
      refine not_isPrefix_discriminant ?_
      rcases List.mem_cons.1 hline with rfl | hline
      · exact show some 'R' ≠ some 'D' by decide
      rcases List.mem_pair.1 hline with rfl | rfl
      · exact show some 'P' ≠ some 'D' by decide
      · exact Polynomial.head?_of_verdict? hk

/-- In the report on an equation all parts tell the same. -/
theorem coherent_of_equation {text : List Char} (h : ofEquation text = .ok r) :
    r.equation = text ∧ Equation.polynomial text = .ok r.polynomial ∧ r.Coherent := by
  obtain ⟨p, o, ls, hp, hsolve, hlines, rfl⟩ := exists_of_ofEquation h
  refine ⟨rfl, hp, ?_⟩
  have hlead := hasLead_of_equation hp
  obtain ⟨rfl, hbounded⟩ := Polynomial.isBounded_of_solve hlead hsolve
  obtain ⟨c, hc⟩ := Polynomial.exists_case hlead hbounded
  obtain ⟨answer, hanswer, hanswers⟩ := hc.exists_answers
  obtain ⟨answer', hanswer', rfl⟩ := Outcome.exists_answer_of_lines hlines
  obtain rfl : answer' = answer := Except.ok.inj (hanswer'.symm.trans hanswer)
  exact coherent_of_answers hsolve hanswers

/-- The report on `x^2 - 3*x + 2 = 0`. -/
theorem coherent_twoRoots :
    ∃ r, ofEquation "X^2-3*X^1+2*X^0=0".toList = .ok r ∧ r.Coherent ∧
      r.solutions = ["2.000000".toList, "1.000000".toList] := by
  have hsolved : (ofEquation "X^2-3*X^1+2*X^0=0".toList).map solutions =
      .ok ["2.000000".toList, "1.000000".toList] := by decide +kernel
  cases h : ofEquation "X^2-3*X^1+2*X^0=0".toList with
  | error f =>
    rw [h] at hsolved
    contradiction
  | ok r =>
    rw [h] at hsolved
    exact ⟨r, rfl, (coherent_of_equation h).2.2, Except.ok.inj hsolved⟩

end Report

end PolySolve
