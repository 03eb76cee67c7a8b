import PolySolve.Proofs.Equation.FormReading
import PolySolve.Proofs.Polynomial.Cancelling
import PolySolve.Proofs.Solution.Overflow

/-!
# Equations of a side with itself

An equation whose sides are the same text is true of every number. It is
reported so exactly if the terms of the side cancel: the terms on the right are
taken away one by one, in their order, and each difference is rounded. Where
like terms add up exactly nothing is left, and so in particular if no exponent
occurs twice; otherwise a rounded sum can leave a little.

* `Polynomial.solve_of_isNull`: the outcome without any terms;
* `Equation.polynomial_withItself`: the polynomial of such an equation;
* `Equation.withItself_solved`: when it is reported to be true.
-/

namespace PolySolve

open Binary64 Text

namespace Polynomial

variable {p : Polynomial} {ts : List Term}

theorem degree_of_isNull (h : p.IsNull) : p.degree = 0 := by
  rcases p.isTopExponent_degree with ⟨-, hd⟩ | ⟨⟨t, ht, he⟩, -⟩
  · exact hd
  · rw [← he, (h t ht).1]

theorem coefficient_of_isNull (h : p.IsNull) (e : Int) : p.coefficient e = .zero := by
  rcases p.coefficient_eq_or e with ⟨t, ht, -, he⟩ | ⟨-, he⟩
  · rw [he, (h t ht).2]
  · exact he

theorem solve_of_isNull (h : p.IsNull) : p.solve = .ok ⟨.allReals, 0, none, []⟩ := by
  have hfinite : p.terms.all (·.coefficient.isFinite) :=
    List.all_eq_true.2 fun t ht => by rw [(h t ht).2]; rfl
  have hdegree := degree_of_isNull h
  rw [solve, if_pos hfinite, solveByDegree, if_neg (by omega), if_neg (by omega),
    if_neg (by omega), coefficient_of_isNull h]
  rfl

end Polynomial

namespace Equation

variable {side : List Char} {ts : List Term}

/-! ## Sides that are read -/

/-- No side has an equals sign in it. -/
theorem not_mem_of_wellFormed (h : WellFormed side) : '=' ∉ side := fun hm =>
  absurd (isWrittenChar_of_wellFormed h '=' hm) (by decide)

theorem readable_of_sideTerms (h : sideTerms side = .ok ts) : Readable side := by
  rcases wellFormed_or_formFault side with hw | ⟨e, he⟩
  · rcases readable_or_firstOutOfRange hw with hr | ⟨w, hw⟩
    · exact hr
    · rw [sideTerms_of_firstOutOfRange hw] at h
      contradiction
  · rw [sideTerms_of_formFault he] at h
    contradiction

theorem isFinite_of_denotes {w : WrittenTerm} {t : Term} (h : w.Denotes t)
    (hw : ¬ w.OutOfRange) : t.coefficient.isFinite := by
  obtain ⟨x, hx, he⟩ := h.coefficient
  have hfinite : x.isFinite := by
    refine hx.isFinite_or.resolve_right fun hinf => hw (Or.inl ?_)
    rwa [hinf] at hx
  rw [he]
  induction w.minuses with
  | zero => exact hfinite
  | succ n ih =>
    rw [Function.iterate_succ_apply', isFinite_neg]
    exact ih

theorem isFinite_of_sideTerms (h : sideTerms side = .ok ts) :
    ∀ t ∈ ts, t.coefficient.isFinite :=
  forall_of_sideTerms (readable_of_sideTerms h) h rfl fun _ _ => isFinite_of_denotes

/-! ## The equation -/

/-- The equation of a side with itself. -/
def withItself (side : List Char) : List Char := side ++ '=' :: side

/-- The equation of two sides that are read. -/
theorem polynomial_of_sideTerms {left right : List Char} {xs ys : List Term}
    (hl : sideTerms left = .ok xs) (hr : sideTerms right = .ok ys) :
    polynomial (left ++ '=' :: right) = .ok (Polynomial.reduce (xs ++ ys.map Term.neg)) := by
  have hwell := (readable_of_sideTerms hl).wellFormed
  have hwell' := (readable_of_sideTerms hr).wellFormed
  have hsides : Sides (left ++ '=' :: right) left right :=
    ⟨rfl, not_mem_of_wellFormed hwell, not_mem_of_wellFormed hwell'⟩
  rw [polynomial_of_check_eq_ok (check_of_wellFormed hsides hwell hwell'), terms_of_sides hsides,
    hl, hr]
  rfl

theorem polynomial_withItself (h : sideTerms side = .ok ts) :
    polynomial (withItself side) = .ok (Polynomial.reduce (ts ++ ts.map Term.neg)) :=
  polynomial_of_sideTerms h h

end Equation

namespace Report

/-- A report that an equation is true of every number: nothing is left of its polynomial. -/
structure TellsIdentity (r : Report) : Prop where
  kind : r.outcome.kind = .allReals
  degree : r.outcome.degree = 0
  polynomial : r.polynomial.IsNull

end Report

namespace Equation

variable {side : List Char} {ts : List Term}

/-- An equation is reported to be true of every number. -/
def IsSolvedAsIdentity (text : List Char) : Prop :=
  ∃ r, Report.ofEquation text = .ok r ∧ r.TellsIdentity

theorem report_withItself (h : sideTerms side = .ok ts) :
    Report.ofEquation (withItself side) =
      Report.ofPolynomial (withItself side) (Polynomial.reduce (ts ++ ts.map Term.neg)) :=
  Report.ofEquation_eq_ofPolynomial (polynomial_withItself h)

/-- What is left at every exponent settles whether the equation is reported to be true. -/
theorem isSolvedAsIdentity_iff (h : sideTerms side = .ok ts) :
    IsSolvedAsIdentity (withItself side) ↔ ∀ e, (Term.leftover e ts).isZero := by
  have hnull : (Polynomial.reduce (ts ++ ts.map Term.neg)).IsNull ↔
      ∀ e, (Term.leftover e ts).isZero := by
    rw [Polynomial.isNull_reduce_iff]
    exact forall_congr' fun e => by rw [Polynomial.coefficient_sums_cancelling]
  rw [← hnull, IsSolvedAsIdentity, report_withItself h]
  constructor
  · rintro ⟨r, hr, htells⟩
    rw [← (Report.outcome_eq hr).2]
    exact htells.polynomial
  · intro hp
    obtain ⟨ls, hls⟩ :=
      Report.exists_ofPolynomial (Polynomial.hasLead_reduce _) (Polynomial.solve_of_isNull hp)
    exact ⟨_, hls, rfl, rfl, hp⟩

/-- The equation of a side with itself is reported to be true of every number exactly if at each
exponent nothing is left when the coefficients are taken away one by one from their rounded sum.
This is so if like terms add up exactly, and so if no exponent occurs twice. -/
theorem withItself_solved (h : sideTerms side = .ok ts) :
    (IsSolvedAsIdentity (withItself side) ↔ ∀ e, (Term.leftover e ts).isZero) ∧
    (Term.AddExactly ts → IsSolvedAsIdentity (withItself side)) ∧
    ((ts.map Term.exponent).Nodup → IsSolvedAsIdentity (withItself side)) := by
  have hiff := isSolvedAsIdentity_iff h
  have hexact : Term.AddExactly ts → IsSolvedAsIdentity (withItself side) := fun hexact =>
    hiff.2 (Term.isZero_leftover hexact)
  exact ⟨hiff, hexact, fun hts =>
    hexact (Term.addExactly_of_nodup hts (isFinite_of_sideTerms h))⟩

/-! ## Two sides -/

/-- Three like terms whose sum is not rounded. -/
def likeTermsSide : List Char := "5*X^1-3*X^1+X^0-7*X^1".toList

def likeTerms : List Term := [⟨5, 1⟩, ⟨-3, 1⟩, ⟨1, 0⟩, ⟨-7, 1⟩]

theorem addExactly_likeTerms : Term.AddExactly likeTerms := by
  intro e
  by_cases h1 : e = 1
  · subst h1
    exact ⟨unitPlaces, by decide +kernel, by decide +kernel, by decide +kernel, by decide +kernel⟩
  by_cases h0 : e = 0
  · subst h0
    exact addsExactly_singleton (x := 1) (by decide +kernel)
  · have hnone : Term.coefficientsAt e likeTerms = [] := by
      simp [Term.coefficientsAt, likeTerms, Ne.symm h0, Ne.symm h1]
    rw [hnone]
    exact addsExactly_nil

theorem withItself_solved_likeTerms :
    sideTerms likeTermsSide = .ok likeTerms ∧ IsSolvedAsIdentity (withItself likeTermsSide) := by
  have h : sideTerms likeTermsSide = .ok likeTerms := by decide +kernel
  exact ⟨h, (withItself_solved h).2.1 addExactly_likeTerms⟩

/-- Three tenths whose sum is rounded. -/
def tenthsSide : List Char := "0.1*X^0+0.2*X^0+0.3*X^0".toList

def tenths : List Term :=
  [⟨(⟨1, -1⟩ : Decimal).toBinary64 false, 0⟩, ⟨(⟨2, -1⟩ : Decimal).toBinary64 false, 0⟩,
    ⟨(⟨3, -1⟩ : Decimal).toBinary64 false, 0⟩]

/-- A side with finite sums that is not equal to itself: a little is left of the constant. -/
theorem withItself_tenths_noSolution :
    sideTerms tenthsSide = .ok tenths ∧
      (∀ e, ((Polynomial.sums tenths).coefficient e).isFinite) ∧
      ∃ r, Report.ofEquation (withItself tenthsSide) = .ok r ∧ r.outcome.kind = .noSolution := by
  have h : sideTerms tenthsSide = .ok tenths := by decide +kernel
  refine ⟨h, fun e => ?_, ?_⟩
  · have hall : ∀ t ∈ (Polynomial.sums tenths).terms, t.coefficient.isFinite := by decide +kernel
    rcases (Polynomial.sums tenths).coefficient_eq_or e with ⟨t, ht, -, he⟩ | ⟨-, he⟩
    · rw [he]
      exact hall t ht
    · rw [he]
      rfl
  · have hsolve : (Polynomial.reduce (tenths ++ tenths.map Term.neg)).solve =
        .ok ⟨.noSolution, 0, none, []⟩ := by decide +kernel
    obtain ⟨ls, hls⟩ := Report.exists_ofPolynomial (Polynomial.hasLead_reduce _) hsolve
    exact ⟨_, (report_withItself h).trans hls, rfl⟩

end Equation

end PolySolve
