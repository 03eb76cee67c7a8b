import PolySolve.Polynomial.Evaluation
import PolySolve.Proofs.Binary64.Opposite
import PolySolve.Proofs.Polynomial.Cancelling

/-!
# Opposite polynomials

Two polynomials are opposite if the coefficients of one are those of the other
with the opposite sign, whatever the signs of zeros are. The sums of terms and of
their negatives are opposite, and so are the sums of two lists of terms each taken
away from the other, as long as no list has two terms of one exponent: a sum of
two values is rounded once, in either order.

* `Opposite`: opposite polynomials;
* `opposite_negated`, `opposite_reduce_difference`: where they come from;
* `Opposite.evaluate`, `Opposite.evaluateComplex`: their values are opposite;
* `Opposite.residual`: so they are as far from zero.
-/

namespace PolySolve

open Binary64

namespace Polynomial

/-- The degree is the same and each coefficient is opposite, but for the sign of a zero. -/
structure Opposite (p q : Polynomial) : Prop where
  degree : q.degree = p.degree
  coefficient : ∀ e, SameValue (q.coefficient e) (-p.coefficient e)

variable {p q : Polynomial}

theorem Opposite.symm (h : p.Opposite q) : q.Opposite p where
  degree := h.degree.symm
  coefficient e := by
    have hneg := (h.coefficient e).neg
    rw [neg_neg] at hneg
    exact hneg.symm

/-! ## All coefficients negated -/

/-- The same exponents with the coefficients negated. -/
def negated (p : Polynomial) : Polynomial where
  terms := p.terms.map Term.neg
  ascending := List.pairwise_map.2 p.ascending

theorem find?_map_neg (e : Int) (ts : List Term) :
    Term.find? e (ts.map Term.neg) = (Term.find? e ts).map (- ·) := by
  induction ts with
  | nil => rfl
  | cons t ts ih =>
    show (if t.exponent = e then some (-t.coefficient) else Term.find? e (ts.map Term.neg)) = _
    rw [Term.find?, ih]
    split <;> rfl

theorem opposite_negated (p : Polynomial) : p.Opposite p.negated where
  degree := by
    show ((p.terms.map Term.neg).getLast?.map Term.exponent).getD 0 = p.degree
    rw [List.getLast?_map, Option.map_map]
    rfl
  coefficient e := by
    show SameValue ((Term.find? e (p.terms.map Term.neg)).getD .zero) (-p.coefficient e)
    rw [find?_map_neg, coefficient, coefficient?]
    cases Term.find? e p.terms with
    | none => exact sameValue_of_isZero rfl rfl
    | some c => exact .refl _

/-! ## Differences -/

/-- A stored sum, or a zero one that is dropped. -/
theorem coefficient_reduce (ts : List Term) (e : Int) :
    (reduce ts).coefficient e = ((sums ts).coefficient e).unsignedZero := by
  rcases (reduce ts).coefficient_eq_or e with ⟨t, ht, he, hc⟩ | ⟨hnone, hc⟩
  · obtain ⟨u, hu, rfl⟩ := List.mem_map.1 ht
    obtain rfl : u.exponent = e := he
    rw [hc, coefficient_of_mem _ (List.mem_filter.1 hu).1]
    rfl
  · rw [hc]
    rcases (sums ts).coefficient_eq_or e with ⟨t, ht, he, hs⟩ | ⟨-, hs⟩
    · have hdropped : isKept t = false := by
        rw [Bool.eq_false_iff]
        exact fun hkept => hnone _ (List.mem_map_of_mem (List.mem_filter.2 ⟨ht, hkept⟩)) he
      rw [isKept, Bool.or_eq_false_iff, Bool.not_eq_false'] at hdropped
      rw [hs, unsignedZero_eq_zero hdropped.1]
    · rw [hs]
      exact (unsignedZero_eq_zero rfl).symm

/-- At most one coefficient is added to at most one that is taken away. -/
theorem sameValue_difference (x y : Option Binary64) :
    SameValue ((y.toList ++ x.toList.map (- ·)).foldl (· + ·) .zero)
      (-(x.toList ++ y.toList.map (- ·)).foldl (· + ·) .zero) := by
  have hstart (x : Binary64) : SameValue (.zero + x) x := sameValue_add_of_isZero rfl x
  cases x with
  | none =>
    cases y with
    | none => exact sameValue_of_isZero rfl rfl
    | some y =>
      show SameValue (.zero + y) (-(.zero + -y))
      have hneg := (hstart (-y)).neg
      rw [neg_neg] at hneg
      exact (hstart y).trans hneg.symm
  | some x =>
    cases y with
    | none =>
      show SameValue (.zero + -x) (-(.zero + x))
      exact (hstart (-x)).trans (hstart x).neg.symm
    | some y =>
      show SameValue (.zero + y + -x) (-(.zero + x + -y))
      have hsum : SameValue (y + -x) (-(x + -y)) := by
        have hneg := sameValue_neg_add x (-y)
        rwa [neg_neg, add_swap] at hneg
      exact ((hstart y).add_right (-x)).trans (hsum.trans ((hstart x).add_right (-y)).neg.symm)

theorem exists_coefficientsAt_eq {ts : List Term} (h : (ts.map Term.exponent).Nodup) (e : Int) :
    ∃ x : Option Binary64, Term.coefficientsAt e ts = x.toList := by
  rcases Term.coefficientsAt_of_nodup h e with hnil | ⟨t, -, hone⟩
  · exact ⟨none, hnil⟩
  · exact ⟨some t.coefficient, hone⟩

/-- The greatest exponent with a coefficient that is not zero is the degree. -/
theorem degree_reduce_le {ts us : List Term} (hus : ∀ t ∈ us, 0 ≤ t.exponent)
    (h : ∀ e, ((reduce us).coefficient e).isZero = ((reduce ts).coefficient e).isZero) :
    (reduce ts).degree ≤ (reduce us).degree := by
  by_cases hd : (reduce ts).degree = 0
  · have := degree_reduce_nonneg hus
    omega
  · have hlead := isZero_leading_reduce hd
    rw [← h] at hlead
    rcases (reduce us).coefficient_eq_or (reduce ts).degree with ⟨t, ht, he, -⟩ | ⟨-, hc⟩
    · rcases (reduce us).isTopExponent_degree with ⟨hnil, -⟩ | ⟨-, htop⟩
      · rw [hnil] at ht
        contradiction
      · rw [← he]
        exact htop t ht
    · rw [hc] at hlead
      contradiction

/-- Two lists of terms without like terms, each taken away from the other. -/
theorem opposite_reduce_difference {ts us : List Term} (hts : (ts.map Term.exponent).Nodup)
    (hus : (us.map Term.exponent).Nodup) (hexp : ∀ t ∈ ts ++ us, 0 ≤ t.exponent) :
    (reduce (ts ++ us.map Term.neg)).Opposite (reduce (us ++ ts.map Term.neg)) := by
  have hcoefficient (e : Int) :
      SameValue ((reduce (us ++ ts.map Term.neg)).coefficient e)
        (-(reduce (ts ++ us.map Term.neg)).coefficient e) := by
    obtain ⟨x, hx⟩ := exists_coefficientsAt_eq hts e
    obtain ⟨y, hy⟩ := exists_coefficientsAt_eq hus e
    have hstored (x : Binary64) : SameValue x.unsignedZero x := by
      rw [SameValue, unsignedZero_of_ne x.unsignedZero_ne]
    rw [coefficient_reduce, coefficient_reduce, coefficient_sums, coefficient_sums,
      Term.coefficientsAt_append, Term.coefficientsAt_append, Term.coefficientsAt_neg,
      Term.coefficientsAt_neg, hx, hy]
    exact (hstored _).trans ((sameValue_difference x y).trans (hstored _).neg.symm)
  have hzero (e : Int) : ((reduce (us ++ ts.map Term.neg)).coefficient e).isZero =
      ((reduce (ts ++ us.map Term.neg)).coefficient e).isZero := by
    rw [(hcoefficient e).isZero, isZero_neg]
  have hnonneg {vs ws : List Term} (h : ∀ t ∈ vs ++ ws, 0 ≤ t.exponent) :
      ∀ t ∈ vs ++ ws.map Term.neg, 0 ≤ t.exponent := fun t ht => by
    rcases List.mem_append.1 ht with ht | ht
    · exact h t (List.mem_append_left _ ht)
    · obtain ⟨u, hu, rfl⟩ := List.mem_map.1 ht
      exact h u (List.mem_append_right _ hu)
  have hexp' : ∀ t ∈ us ++ ts, 0 ≤ t.exponent := fun t ht => by
    rw [List.mem_append, or_comm, ← List.mem_append] at ht
    exact hexp t ht
  exact ⟨Int.le_antisymm (degree_reduce_le (hnonneg hexp) fun e => (hzero e).symm)
    (degree_reduce_le (hnonneg hexp') hzero), hcoefficient⟩

/-! ## Values -/

theorem Opposite.dense (h : p.Opposite q) :
    List.Forall₂ (fun c d => SameValue d (-c)) (p.dense p.degree) (q.dense q.degree) := by
  rw [h.degree]
  unfold Polynomial.dense
  rw [List.forall₂_map_left_iff, List.forall₂_map_right_iff, List.forall₂_same]
  exact fun e _ => h.coefficient e

/-- A step of the evaluation keeps values opposite. -/
theorem Opposite.evaluate (h : p.Opposite q) {x x' : Binary64} (hx : SameValue x' x) :
    SameValue (q.evaluate x') (-p.evaluate x) := by
  unfold Polynomial.evaluate
  have hdense := h.dense
  generalize p.dense p.degree = cs, q.dense q.degree = ds at hdense ⊢
  induction hdense with
  | nil => exact sameValue_of_isZero rfl rfl
  | @cons c d cs ds hc _ ih =>
    rw [List.foldr_cons, List.foldr_cons]
    have hproduct := ih.mul hx
    rw [neg_mul_left] at hproduct
    exact (hproduct.add hc).trans (sameValue_neg_add _ c)

end Polynomial

namespace Complex

/-- Both parts are opposite, but for the signs of zeros. -/
structure Opposite (w z : Complex) : Prop where
  re : SameValue z.re (-w.re)
  im : SameValue z.im (-w.im)

variable {w w' : Complex}

theorem Opposite.mul (h : w.Opposite w') (z : Complex) : (w.mul z).Opposite (w'.mul z) := by
  have hproduct {x x' : Binary64} (hx : SameValue x' (-x)) (y : Binary64) :
      SameValue (x' * y) (-(x * y)) := by
    have := hx.mul_right y
    rwa [neg_mul_left] at this
  constructor
  · exact ((hproduct h.re z.re).sub (hproduct h.im z.im)).trans (sameValue_neg_add _ _)
  · exact ((hproduct h.re z.im).add (hproduct h.im z.re)).trans (sameValue_neg_add _ _)

theorem Opposite.add_ofReal (h : w.Opposite w') {c c' : Binary64} (hc : SameValue c' (-c)) :
    (w.add (.ofReal c)).Opposite (w'.add (.ofReal c')) := by
  have hzero : SameValue .zero (-.zero) := sameValue_of_isZero rfl rfl
  exact ⟨(h.re.add hc).trans (sameValue_neg_add _ _),
    (h.im.add hzero).trans (sameValue_neg_add _ _)⟩

theorem hypot_abs (x y : Binary64) : hypot x.abs y.abs = hypot x y := by
  cases x <;> cases y <;> rfl

theorem Opposite.modulus (h : w.Opposite w') : w'.modulus = w.modulus := by
  rw [Complex.modulus, Complex.modulus, ← hypot_abs w'.re, h.re.abs, h.im.abs, abs_neg, abs_neg,
    hypot_abs]

end Complex

/-- The same root, but for the sign of a zero that is real. -/
inductive Root.SameValue : Root → Root → Prop
  | real {x y : Binary64} : Binary64.SameValue x y → SameValue (.real x) (.real y)
  | complex (z : Complex) : SameValue (.complex z) (.complex z)

namespace Polynomial

variable {p q : Polynomial}

theorem Opposite.evaluateComplex (h : p.Opposite q) (z : Complex) :
    (p.evaluateComplex z).Opposite (q.evaluateComplex z) := by
  unfold Polynomial.evaluateComplex
  have hdense := h.dense
  generalize p.dense p.degree = cs, q.dense q.degree = ds at hdense ⊢
  induction hdense with
  | nil => exact ⟨sameValue_of_isZero rfl rfl, sameValue_of_isZero rfl rfl⟩
  | @cons c d cs ds hc _ ih =>
    rw [List.foldr_cons, List.foldr_cons]
    exact (ih.mul z).add_ofReal hc

/-- Opposite polynomials are as far from zero. -/
theorem Opposite.residual (h : p.Opposite q) {r s : Root} (hr : r.SameValue s) :
    q.residual s = p.residual r := by
  cases hr with
  | real hx =>
    have habs := (h.evaluate hx.symm).abs
    rwa [abs_neg] at habs
  | complex z => exact (h.evaluateComplex z).modulus

end Polynomial

end PolySolve
