import PolySolve.Proofs.Equation.Verdict
import PolySolve.Proofs.Polynomial.Reduction
import PolySolve.Solution.Report

/-!
# What solving fails by

A reduced polynomial is never divided by zero, and its outcome always has the
lines that tell it. So solving an equation fails by an error of the equation,
or by the modulus of a complex root: both parts of the root can be finite when
its modulus is not, and this alone is no error of the equation.

* `Polynomial.outcome`: the outcome, before anything is checked;
* `Polynomial.Overflows`: what is reported as an error of the equation;
* `Polynomial.ModulusOverflows`: what is not;
* `Polynomial.solve_eq`: solving as these say;
* `Report.faults_of_equation`: the faults of all texts.
-/

namespace PolySolve

open Binary64

namespace Complex

def conj (z : Complex) : Complex := ⟨z.re, -z.im⟩

theorem modulus_conj (z : Complex) : z.conj.modulus = z.modulus := hypot_neg z.re z.im

/-- Both parts are finite. -/
def isFinite (z : Complex) : Bool := z.re.isFinite && z.im.isFinite

theorem isFinite_conj (z : Complex) : z.conj.isFinite = z.isFinite := by
  have neg : (-z.im).isFinite = z.im.isFinite := by rw [← isFinite_abs, abs_neg, isFinite_abs]
  rw [isFinite, conj, neg, isFinite]

theorem isFinite_of_modulus {z : Complex} (h : z.modulus.isFinite) : z.isFinite :=
  Bool.and_eq_true_iff.2 (isFinite_of_hypot h)

end Complex

namespace Root

/-- No part of a root is infinite or nan. -/
def isFinite : Root → Bool
  | real x => x.isFinite
  | complex z => z.isFinite

theorem allFinite_reals (xs : List Binary64) :
    allFinite (xs.map real) = .ok (xs.all Binary64.isFinite) := by
  induction xs with
  | nil => rfl
  | cons x xs ih =>
    rw [List.map_cons, allFinite, List.all_cons]
    show (if x.abs.isFinite then allFinite (xs.map real) else .ok false) = _
    rw [isFinite_abs, ih]
    cases x.isFinite <;> rfl

/-- The two roots of a conjugate pair are as far from zero. -/
theorem allFinite_conj (z : Complex) :
    allFinite [complex z, complex z.conj] =
      if z.isFinite && !z.modulus.isFinite then .error .modulusOverflow
      else .ok z.modulus.isFinite := by
  have second : modulus (complex z.conj) = modulus (complex z) := by
    rw [modulus, z.modulus_conj, modulus]
    exact congrArg (fun b => if b && !z.modulus.isFinite then _ else _) z.isFinite_conj
  have first : modulus (complex z) =
      if z.isFinite && !z.modulus.isFinite then .error .modulusOverflow else .ok z.modulus := rfl
  rw [allFinite, allFinite, second, first]
  cases hz : z.isFinite && !z.modulus.isFinite with
  | true => rfl
  | false =>
    cases hm : z.modulus.isFinite with
    | true => simp [bind, Except.bind, hm, allFinite]
    | false => simp [bind, Except.bind, hm]

theorem allFinite_conj_of_isFinite {z : Complex} (h : z.isFinite = false) :
    allFinite [complex z, complex z.conj] = .ok false := by
  have hm : z.modulus.isFinite = false := by
    rw [Bool.eq_false_iff]
    intro hm
    rw [Complex.isFinite_of_modulus hm] at h
    contradiction
  rw [allFinite_conj, h, hm]
  rfl

end Root

namespace Polynomial

variable (p : Polynomial)

/-! ## Outcomes -/

/-- The complex root that is reported first. -/
def complexRoot : Complex :=
  ⟨(-p.coefficient 1 / (2 * p.coefficient 2)).unsignedZero,
    ((-p.discriminant).sqrt / (2 * p.coefficient 2)).abs⟩

/-- The outcome for a quadratic equation, if the discriminant is finite. -/
def quadraticOutcome : Outcome :=
  let a := p.coefficient 2
  let b := p.coefficient 1
  let delta := p.discriminant
  if .zero < delta then
    ⟨.pair, 2, some delta,
      [(-b + delta.sqrt) / (2 * a), (-b - delta.sqrt) / (2 * a)].map .real⟩
  else if delta.isZero then ⟨.single, 2, some delta, [(-b / (2 * a)).unsignedZero].map .real⟩
  else ⟨.complexPair, 2, some delta, [.complex p.complexRoot, .complex p.complexRoot.conj]⟩

/-- The outcome, before the coefficients, the discriminant and the roots are checked. -/
def outcome : Outcome :=
  if 2 < p.degree then ⟨.degreeTooHigh, p.degree, none, []⟩
  else if p.degree = 2 then p.quadraticOutcome
  else if p.degree = 1 then p.solveLinear
  else solveConstant (p.coefficient 0) 0

/-- The coefficient at a degree other than 0 is not zero. -/
def HasLead : Prop := p.degree ≠ 0 → (p.coefficient p.degree).isZero = false

theorem hasLead_reduce (ts : List Term) : (reduce ts).HasLead := isZero_leading_reduce

variable {p}

theorem HasLead.isZero_coefficient (hlead : p.HasLead) {d : Int} (hd : p.degree = d) (h : d ≠ 0) :
    (p.coefficient d).isZero = false := by
  subst hd
  exact hlead h

/-- With a finite discriminant the divisor of the roots is finite. -/
theorem isFinite_divisor (h : p.discriminant.isFinite) : (2 * p.coefficient 2).isFinite := by
  have hproduct : (4 * p.coefficient 2 * p.coefficient 0).isFinite := (isFinite_of_sub h).2
  exact isFinite_two_mul (isFinite_of_mul hproduct).1

theorem divide_of_isZero {x y : Binary64} (h : y.isZero = false) : divide x y = .ok (x / y) := by
  rw [divide, h]
  rfl

theorem solveQuadratic_eq (h : (p.coefficient 2).isZero = false) :
    p.solveQuadratic =
      if p.discriminant.isFinite then .ok p.quadraticOutcome
      else .error (.equation (.discriminantOverflow p.discriminant)) := by
  have divide_eq : ∀ x, divide x (2 * p.coefficient 2) = .ok (x / (2 * p.coefficient 2)) :=
    fun x => divide_of_isZero (isZero_two_mul h)
  unfold solveQuadratic quadraticOutcome
  simp only [divide_eq, bind, Except.bind, pure, Except.pure]
  cases p.discriminant.isFinite with
  | false => rfl
  | true =>
    by_cases hpos : zero < p.discriminant
    · simp only [hpos, if_true]; rfl
    · cases hz : p.discriminant.isZero <;> simp only [hpos, if_false] <;> rfl

theorem solveByDegree_eq (h : p.HasLead) :
    p.solveByDegree =
      if p.degree = 2 ∧ p.discriminant.isFinite = false then
        .error (.equation (.discriminantOverflow p.discriminant))
      else .ok p.outcome := by
  unfold solveByDegree outcome
  by_cases high : 2 < p.degree
  · rw [if_pos high, if_pos high, if_neg (by omega)]
  rw [if_neg high, if_neg high]
  by_cases hd : p.degree = 2
  · rw [if_pos hd, if_pos hd, solveQuadratic_eq (h.isZero_coefficient hd (by decide))]
    cases p.discriminant.isFinite <;> simp [hd]
  · have sound : ¬ (p.degree = 2 ∧ p.discriminant.isFinite = false) := fun hc => hd hc.1
    rw [if_neg hd, if_neg hd, if_neg sound]
    split <;> rfl

/-- The roots are real, or a conjugate pair if the discriminant is below zero. -/
theorem roots_outcome (h : p.degree = 2 → p.discriminant.isFinite) :
    (∃ xs : List Binary64, p.outcome.roots = xs.map .real) ∨
      p.degree = 2 ∧ p.discriminant < zero ∧
        p.outcome.roots = [.complex p.complexRoot, .complex p.complexRoot.conj] := by
  unfold outcome
  split
  · exact Or.inl ⟨[], rfl⟩
  split
  · rename_i hd
    unfold quadraticOutcome
    dsimp only
    split
    · exact Or.inl ⟨_, rfl⟩
    split
    · exact Or.inl ⟨_, rfl⟩
    · rename_i hpos hz
      exact Or.inr ⟨hd, (lt_zero_iff (h hd)).2 ⟨hpos, Bool.eq_false_iff.2 hz⟩, rfl⟩
  · refine Or.inl ?_
    split
    · unfold solveLinear
      dsimp only
      split
      · exact ⟨[], rfl⟩
      · exact ⟨[_], rfl⟩
    · exact ⟨[], rfl⟩

theorem roots_outcome_of_lt (hd : p.degree = 2) (hf : p.discriminant.isFinite)
    (h : p.discriminant < zero) :
    p.outcome.roots = [.complex p.complexRoot, .complex p.complexRoot.conj] := by
  obtain ⟨hpos, hz⟩ := (lt_zero_iff hf).1 h
  rw [outcome, if_neg (by omega), if_pos hd, quadraticOutcome]
  simp only [if_neg hpos, hz]
  rfl

/-- Each kind of outcome has its lines. -/
theorem exists_lines_outcome (p : Polynomial) : ∃ ls, p.outcome.lines p = .ok ls := by
  have constant : ∀ c d, ∃ ls, (solveConstant c d).answerLines = .ok ls := fun c d => by
    unfold solveConstant
    cases c.isZero <;> exact ⟨_, rfl⟩
  have answer : ∃ ls, p.outcome.answerLines = .ok ls := by
    unfold outcome
    split
    · exact ⟨_, rfl⟩
    split
    · unfold quadraticOutcome
      dsimp only
      split
      · exact ⟨_, rfl⟩
      · split <;> exact ⟨_, rfl⟩
    split
    · unfold solveLinear
      dsimp only
      split
      · exact constant _ _
      · exact ⟨_, rfl⟩
    · exact constant _ _
  obtain ⟨ls, h⟩ := answer
  rw [Outcome.lines, h]
  exact ⟨_, rfl⟩

/-! ## Overflows -/

/-- Solving meets a coefficient, a discriminant or a root that is not finite. -/
inductive Overflows (p : Polynomial) : EquationError → Prop
  | coefficient : p.terms.all (·.coefficient.isFinite) = false →
      Overflows p (.coefficientOverflow p)
  | discriminant : p.terms.all (·.coefficient.isFinite) → p.degree = 2 →
      p.discriminant.isFinite = false → Overflows p (.discriminantOverflow p.discriminant)
  | root {r} : p.terms.all (·.coefficient.isFinite) → (p.degree = 2 → p.discriminant.isFinite) →
      r ∈ p.outcome.roots → r.isFinite = false → Overflows p (.rootOverflow p.outcome.roots)

theorem Overflows.isNumeric {e : EquationError} (h : p.Overflows e) : e.isNumeric := by
  cases h <;> rfl

/-- Everything that solving meets is finite but the modulus of the complex roots. -/
structure ModulusOverflows (p : Polynomial) : Prop where
  coefficients : p.terms.all (·.coefficient.isFinite)
  degree : p.degree = 2
  discriminant : p.discriminant.isFinite
  negative : p.discriminant < zero
  root : p.complexRoot.isFinite
  modulus : p.complexRoot.modulus.isFinite = false

/-- What solving comes to. -/
inductive Solves (p : Polynomial) : Except Fault Outcome → Prop
  | overflow {e} : p.Overflows e → Solves p (.error (.equation e))
  | modulus : p.ModulusOverflows → Solves p (.error .modulusOverflow)
  | outcome : (∀ e, ¬ p.Overflows e) → ¬ p.ModulusOverflows → Solves p (.ok p.outcome)

theorem exists_solves (p : Polynomial) : ∃ r, p.Solves r := by
  by_cases h : ∃ e, p.Overflows e
  · obtain ⟨e, h⟩ := h
    exact ⟨_, .overflow h⟩
  by_cases hm : p.ModulusOverflows
  · exact ⟨_, .modulus hm⟩
  · exact ⟨_, .outcome (not_exists.1 h) hm⟩

theorem solve_of_finite (h : p.HasLead) (hc : p.terms.all (·.coefficient.isFinite))
    (hd : p.degree = 2 → p.discriminant.isFinite) :
    p.solve = (Root.allFinite p.outcome.roots).bind fun finite =>
      if finite then .ok p.outcome else .error (.equation (.rootOverflow p.outcome.roots)) := by
  have sound : ¬ (p.degree = 2 ∧ p.discriminant.isFinite = false) := fun ⟨h₂, hf⟩ => by
    rw [hd h₂] at hf
    contradiction
  rw [solve, if_pos hc, solveByDegree_eq h, if_neg sound]
  rfl

theorem Overflows.solve_eq {e : EquationError} (h : p.HasLead) (ho : p.Overflows e) :
    p.solve = .error (.equation e) := by
  cases ho with
  | coefficient hc =>
    rw [solve, hc]
    rfl
  | discriminant hc hd hf =>
    rw [solve, if_pos hc, solveByDegree_eq h, if_pos ⟨hd, hf⟩]
    rfl
  | @root r hc hd hr hf =>
    rw [solve_of_finite h hc hd]
    rcases roots_outcome hd with ⟨xs, hxs⟩ | ⟨-, -, hz⟩
    · rw [hxs] at hr ⊢
      obtain ⟨x, hx, rfl⟩ := List.mem_map.1 hr
      have hall : xs.all Binary64.isFinite = false :=
        List.all_eq_false.2 ⟨x, hx, Bool.eq_false_iff.1 hf⟩
      rw [Root.allFinite_reals, hall]
      rfl
    · rw [hz] at hr ⊢
      have hparts : p.complexRoot.isFinite = false := by
        rcases List.mem_pair.1 hr with rfl | rfl
        · exact hf
        · rw [← Complex.isFinite_conj]
          exact hf
      rw [Root.allFinite_conj_of_isFinite hparts]
      rfl

theorem ModulusOverflows.solve_eq (h : p.HasLead) (ho : p.ModulusOverflows) :
    p.solve = .error .modulusOverflow := by
  rw [solve_of_finite h ho.coefficients fun _ => ho.discriminant,
    roots_outcome_of_lt ho.degree ho.discriminant ho.negative, Root.allFinite_conj, ho.root,
    ho.modulus]
  rfl

/-- Nothing that solving meets is infinite or nan, but perhaps the modulus of the roots. -/
structure IsBounded (p : Polynomial) : Prop where
  coefficients : p.terms.all (·.coefficient.isFinite)
  discriminant : p.degree = 2 → p.discriminant.isFinite
  roots : ∀ r ∈ p.outcome.roots, r.isFinite

theorem isBounded_of_not_overflows (h : ∀ e, ¬ p.Overflows e) : p.IsBounded := by
  have hc : p.terms.all (·.coefficient.isFinite) := by
    rw [← Bool.not_eq_false]
    exact fun hf => h _ (.coefficient hf)
  have hd : p.degree = 2 → p.discriminant.isFinite := fun h₂ => by
    rw [← Bool.not_eq_false]
    exact fun hf => h _ (.discriminant hc h₂ hf)
  refine ⟨hc, hd, fun r hr => ?_⟩
  rw [← Bool.not_eq_false]
  exact fun hf => h _ (.root hc hd hr hf)

theorem IsBounded.not_overflows (h : p.IsBounded) (e : EquationError) : ¬ p.Overflows e := by
  intro ho
  cases ho with
  | coefficient hc =>
    rw [h.coefficients] at hc
    contradiction
  | discriminant hc hd hf =>
    rw [h.discriminant hd] at hf
    contradiction
  | root hc hd hr hf =>
    rw [h.roots _ hr] at hf
    contradiction

theorem solve_eq_outcome (h : p.HasLead) (ho : ∀ e, ¬ p.Overflows e) (hm : ¬ p.ModulusOverflows) :
    p.solve = .ok p.outcome := by
  obtain ⟨hc, hd, hr⟩ := isBounded_of_not_overflows ho
  rw [solve_of_finite h hc hd]
  rcases roots_outcome hd with ⟨xs, hxs⟩ | ⟨h₂, hneg, hz⟩
  · rw [hxs] at hr ⊢
    have hall : xs.all Binary64.isFinite :=
      List.all_eq_true.2 fun x hx => hr _ (List.mem_map_of_mem hx)
    rw [Root.allFinite_reals, hall]
    rfl
  · rw [hz] at hr ⊢
    have hparts : p.complexRoot.isFinite := hr _ List.mem_cons_self
    have hmodulus : p.complexRoot.modulus.isFinite := by
      rw [← Bool.not_eq_false]
      exact fun hf => hm ⟨hc, h₂, hd h₂, hneg, hparts, hf⟩
    rw [Root.allFinite_conj, hparts, hmodulus]
    rfl

theorem solve_eq_iff (h : p.HasLead) {r : Except Fault Outcome} : p.solve = r ↔ p.Solves r := by
  have solve_of_solves : ∀ {r}, p.Solves r → p.solve = r := fun hr => by
    cases hr with
    | overflow ho => exact ho.solve_eq h
    | modulus hm => exact hm.solve_eq h
    | outcome ho hm => exact solve_eq_outcome h ho hm
  refine ⟨fun hr => ?_, solve_of_solves⟩
  obtain ⟨r', hs⟩ := exists_solves p
  rwa [← hr, solve_of_solves hs]

theorem solve_eq_error_iff (h : p.HasLead) {e : EquationError} :
    p.solve = .error (.equation e) ↔ p.Overflows e := by
  rw [solve_eq_iff h]
  refine ⟨fun hs => ?_, .overflow⟩
  cases hs with
  | overflow ho => exact ho

/-- An outcome is reported only if everything is finite. -/
theorem isBounded_of_solve (h : p.HasLead) {o : Outcome} (ho : p.solve = .ok o) :
    o = p.outcome ∧ p.IsBounded := by
  cases (solve_eq_iff h).1 ho with
  | outcome sound => exact ⟨rfl, isBounded_of_not_overflows sound⟩

theorem solve_eq_modulusOverflow_iff (h : p.HasLead) :
    p.solve = .error .modulusOverflow ↔ p.ModulusOverflows := by
  rw [solve_eq_iff h]
  refine ⟨fun hs => ?_, .modulus⟩
  cases hs with
  | modulus hm => exact hm

end Polynomial

/-! ## Equations -/

namespace Report

variable {text : List Char} {p : Polynomial}

theorem hasLead_of_equation (h : Equation.polynomial text = .ok p) : p.HasLead := by
  cases Equation.polynomial_eq_iff_verdict.1 h with
  | read => exact Polynomial.hasLead_reduce _

theorem ofEquation_eq_error {e : EquationError} (h : Equation.polynomial text = .error e) :
    ofEquation text = .error (.equation e) := by
  rw [ofEquation, h]
  rfl

theorem ofEquation_eq_ofPolynomial (h : Equation.polynomial text = .ok p) :
    ofEquation text = ofPolynomial text p := by
  rw [ofEquation, h]
  rfl

/-- A report fails only if solving does. -/
theorem ofPolynomial_eq_error_iff (h : p.HasLead) {f : Fault} :
    ofPolynomial text p = .error f ↔ p.solve = .error f := by
  rw [ofPolynomial]
  cases hs : p.solve with
  | error g => simp [bind, Except.bind]
  | ok o =>
    cases (Polynomial.solve_eq_iff h).1 hs with
    | outcome =>
      obtain ⟨ls, hl⟩ := p.exists_lines_outcome
      simp [bind, Except.bind, hl, pure, Except.pure]

/-- With an outcome there is a report. -/
theorem exists_ofPolynomial (h : p.HasLead) {o : Outcome} (ho : p.solve = .ok o) :
    ∃ ls, ofPolynomial text p = .ok ⟨text, p, o, ls⟩ := by
  obtain ⟨rfl, -⟩ := Polynomial.isBounded_of_solve h ho
  obtain ⟨ls, hl⟩ := p.exists_lines_outcome
  refine ⟨ls, ?_⟩
  rw [ofPolynomial, ho]
  simp [bind, Except.bind, hl, pure, Except.pure]

/-- A text has a report, or an error of the equation, or complex roots whose modulus overflows. All
other overflows are errors of the equation, and errors about numbers. -/
theorem faults_of_equation (text : List Char) :
    ((∃ r, ofEquation text = .ok r) ∨ (∃ e, ofEquation text = .error (.equation e)) ∨
      ofEquation text = .error .modulusOverflow) ∧
    (ofEquation text = .error .modulusOverflow ↔
      ∃ p, Equation.polynomial text = .ok p ∧ p.ModulusOverflows) ∧
    ∀ e, ofEquation text = .error (.equation e) ↔
      Equation.polynomial text = .error e ∨
        e.isNumeric ∧ ∃ p, Equation.polynomial text = .ok p ∧ p.Overflows e := by
  cases hp : Equation.polynomial text with
  | error e =>
    rw [ofEquation_eq_error hp]
    exact ⟨Or.inr (Or.inl ⟨e, rfl⟩), by simp, fun e' => by simp⟩
  | ok p =>
    have lead := hasLead_of_equation hp
    have fault : ∀ f, ofPolynomial text p = .error f ↔ p.solve = .error f :=
      fun f => ofPolynomial_eq_error_iff lead
    rw [ofEquation_eq_ofPolynomial hp]
    refine ⟨?_, ?_, fun e => ?_⟩
    · cases hr : ofPolynomial text p with
      | ok r => exact Or.inl ⟨r, rfl⟩
      | error f =>
        cases (Polynomial.solve_eq_iff lead).1 ((fault f).1 hr) with
        | overflow => exact Or.inr (Or.inl ⟨_, rfl⟩)
        | modulus => exact Or.inr (Or.inr rfl)
    · rw [fault, Polynomial.solve_eq_modulusOverflow_iff lead]
      simp
    · rw [fault, Polynomial.solve_eq_error_iff lead]
      refine ⟨fun h => Or.inr ⟨h.isNumeric, p, rfl, h⟩, ?_⟩
      rintro (h | ⟨-, q, h, ho⟩)
      · contradiction
      · rwa [Except.ok.inj h]

/-! ## Wide roots -/

/-- The left side `0.00…05*X^2+1.2*X^1+1700…0*X^0`, with 308 zeros after the point and 307 zeros at
the end of the constant. -/
def wideSide : List Char :=
  ['0', '.'] ++ Decimal.zeros 308 ++
    ['5', '*', 'X', '^', '2', '+', '1', '.', '2', '*', 'X', '^', '1', '+', '1', '7'] ++
    Decimal.zeros 307 ++ ['*', 'X', '^', '0']

def wideTerms : Equation.Terms where
  left := [⟨(⟨5, -309⟩ : Decimal).toBinary64 false, 2⟩, ⟨(⟨12, -1⟩ : Decimal).toBinary64 false, 1⟩,
    ⟨(⟨17, 307⟩ : Decimal).toBinary64 false, 0⟩]
  right := [⟨.zero, 0⟩]

def wideRoot : Complex :=
  ⟨(⟨12000000000000001, 292⟩ : Decimal).toBinary64 true, (⟨14, 307⟩ : Decimal).toBinary64 false⟩

-- A square root takes the kernel one step for each bit.
set_option maxRecDepth 2048 in
theorem isFinite_modulus_wideRoot : wideRoot.modulus.isFinite = false := by decide +kernel

theorem modulusOverflows_wideTerms :
    (Polynomial.reduce wideTerms.difference).ModulusOverflows := by
  have hroot : (Polynomial.reduce wideTerms.difference).complexRoot = wideRoot := by decide +kernel
  exact {
    coefficients := by decide +kernel
    degree := by decide +kernel
    discriminant := by decide +kernel
    negative := by decide +kernel
    root := by rw [hroot]; decide +kernel
    modulus := by rw [hroot]; exact isFinite_modulus_wideRoot }

/-- A text with a fault that is no error of the equation. -/
theorem ofEquation_wideSide : ofEquation (wideSide ++ ['=', '0']) = .error .modulusOverflow := by
  have ht : Equation.terms (wideSide ++ ['=', '0']) = .ok wideTerms := by decide +kernel
  have hp : Equation.polynomial (wideSide ++ ['=', '0']) =
      .ok (Polynomial.reduce wideTerms.difference) := by
    rw [Equation.polynomial_of_check_eq_ok (Equation.check_of_terms ht), ht]
    rfl
  have lead := hasLead_of_equation hp
  rw [ofEquation_eq_ofPolynomial hp, ofPolynomial_eq_error_iff lead,
    Polynomial.solve_eq_modulusOverflow_iff lead]
  exact modulusOverflows_wideTerms

end Report

end PolySolve
