import Mathlib.Algebra.QuadraticDiscriminant
import Mathlib.Analysis.Real.Sqrt
import Mathlib.Data.Set.Card
import PolySolve.Proofs.Binary64.Bounds
import PolySolve.Proofs.Polynomial.Opposite
import PolySolve.Proofs.Solution.Residual

/-!
# Quadratic equations with whole coefficients

If the coefficients of a quadratic polynomial are whole numbers that are not too
large, its discriminant is found without rounding, so its sign is the true one
and the kind of the outcome tells how many real zeros the polynomial has. Every
step after the discriminant stays in range, and so does the modulus of the
complex roots: there always is an outcome.

* `IsWholeQuadratic`: no exponents but 2, 1 and 0, and whole coefficients;
* `IsModest`: how large the coefficients may be;
* `toInt?_discriminant`: the discriminant is exact;
* `solve_of_modest`: there is an outcome;
* `encard_realZeros_of_pos`, `encard_realZeros_of_eq`, `encard_realZeros_of_neg`: the real zeros in
  exact arithmetic;
* `isWholeQuadratic_reduce`: what the terms of a quadratic equation are reduced to;
* `classified_of_whole`: the kind tells the number of real zeros.
-/

namespace PolySolve.Polynomial

open Binary64

-- The elaborator must not evaluate these powers of two.
attribute [local irreducible] overflowUnits unitsPerOne

/-- A polynomial of degree 2 with whole coefficients; those that are zero may be stored or not. -/
structure IsWholeQuadratic (p : Polynomial) (a b c : Int) : Prop
    extends HasWholeCoefficients p a b c where
  exponents : ∀ t ∈ p.terms, t.exponent = 0 ∨ t.exponent = 1 ∨ t.exponent = 2

variable {p : Polynomial} {a b c : Int}

namespace IsWholeQuadratic

theorem degree_eq (h : p.IsWholeQuadratic a b c) : p.degree = 2 := by
  have hlead := h.toHasWholeCoefficients.isZero_lead
  obtain ⟨t, ht, he⟩ : ∃ t ∈ p.terms, t.exponent = 2 := by
    rcases p.coefficient_eq_or 2 with ⟨t, ht, he, -⟩ | ⟨-, hzero⟩
    · exact ⟨t, ht, he⟩
    · rw [hzero] at hlead
      contradiction
  rcases p.isTopExponent_degree with ⟨hnil, -⟩ | ⟨⟨u, hu, hdegree⟩, htop⟩
  · rw [hnil] at ht
    contradiction
  · have hle := htop t ht
    have hexponent := h.exponents u hu
    omega

theorem hasLead (h : p.IsWholeQuadratic a b c) : p.HasLead := fun _ => by
  rw [h.degree_eq]
  exact h.toHasWholeCoefficients.isZero_lead

theorem coefficients_finite (h : p.IsWholeQuadratic a b c) :
    p.terms.all (·.coefficient.isFinite) := by
  refine List.all_eq_true.2 fun t ht => ?_
  rw [← p.coefficient_of_mem ht]
  rcases h.exponents t ht with he | he | he <;> rw [he]
  · exact isFinite_of_toInt? h.constant
  · exact isFinite_of_toInt? h.middle
  · exact isFinite_of_toInt? h.lead

theorem outcome_eq (h : p.IsWholeQuadratic a b c) : p.outcome = p.quadraticOutcome := by
  have hdegree := h.degree_eq
  rw [outcome, if_neg (by omega), if_pos hdegree]

end IsWholeQuadratic

/-! ## The discriminant -/

/-- The terms of the discriminant, and what comes before them, are whole numbers of 53 bits. -/
structure IsModest (a b c : Int) : Prop where
  lead : |a| ≤ 2 ^ 26
  square : b ^ 2 ≤ 2 ^ 52
  product : |4 * a * c| ≤ 2 ^ 52

namespace IsModest

theorem middle (h : IsModest a b c) : |b| ≤ 2 ^ 26 :=
  abs_le_of_sq_le_sq (h.square.trans (by norm_num)) (by norm_num)

theorem discriminant (h : IsModest a b c) : |b ^ 2 - 4 * a * c| ≤ 2 ^ 53 := by
  obtain ⟨hlow, hhigh⟩ := abs_le.1 h.product
  have hnonneg := sq_nonneg b
  have hsquare := h.square
  rw [abs_le]
  omega

theorem divisor (h : IsModest a b c) : |2 * a| ≤ 2 ^ 53 := by
  have hlead := h.lead
  rw [abs_mul, abs_two]
  omega

theorem of_abs_le (ha : |a| ≤ 2 ^ 25) (hb : |b| ≤ 2 ^ 25) (hc : |c| ≤ 2 ^ 25) :
    IsModest a b c where
  lead := ha.trans (by norm_num)
  square := (sq_le_sq' (abs_le.1 hb).1 (abs_le.1 hb).2).trans (by norm_num)
  product := by
    have hproduct := mul_le_mul ha hc (abs_nonneg c) (by norm_num)
    have hfour : |(4 : Int)| = 4 := rfl
    rw [mul_assoc, abs_mul, abs_mul, hfour]
    omega

end IsModest

section

variable (hw : p.HasWholeCoefficients a b c) (hm : IsModest a b c)

include hw hm

/-- No step of the discriminant is rounded. -/
theorem toInt?_discriminant : p.discriminant.toInt? = some (b ^ 2 - 4 * a * c) := by
  have hlead := hm.lead
  have hsquare : (p.coefficient 1 * p.coefficient 1).toInt? = some (b ^ 2) := by
    rw [sq]
    apply toInt?_mul hw.middle hw.middle
    rw [← sq, abs_of_nonneg (sq_nonneg b)]
    exact hm.square.trans (by norm_num)
  have hfour : (4 * p.coefficient 2).toInt? = some (4 * a) := by
    apply toInt?_mul toInt?_four hw.lead
    have hfour : |(4 : Int)| = 4 := rfl
    rw [abs_mul, hfour]
    omega
  have hproduct : (4 * p.coefficient 2 * p.coefficient 0).toInt? = some (4 * a * c) :=
    toInt?_mul hfour hw.constant (hm.product.trans (by norm_num))
  exact toInt?_sub hsquare hproduct hm.discriminant

theorem zero_lt_discriminant_iff : zero < p.discriminant ↔ 0 < b ^ 2 - 4 * a * c :=
  lt_iff_of_toInt? toInt?_zero (toInt?_discriminant hw hm)

theorem isZero_discriminant_iff : p.discriminant.isZero ↔ b ^ 2 - 4 * a * c = 0 :=
  isZero_iff_of_toInt? (toInt?_discriminant hw hm)

/-! ## Results in range -/

theorem within_neg_middle : Within 53 (-p.coefficient 1) := by
  have hopposite : |-b| ≤ 2 ^ 26 := (abs_neg b).trans_le hm.middle
  exact .of_toInt? (toInt?_neg hw.middle) (hopposite.trans (by norm_num))

theorem toInt?_divisor : (2 * p.coefficient 2).toInt? = some (2 * a) :=
  toInt?_mul toInt?_two hw.lead hm.divisor

theorem within_divisor : Within 53 (2 * p.coefficient 2) :=
  .of_toInt? (toInt?_divisor hw hm) hm.divisor

theorem units_divisor_ne : units (2 * p.coefficient 2) ≠ 0 := by
  rw [units_of_toInt? (toInt?_divisor hw hm)]
  exact mul_ne_zero (mul_ne_zero two_ne_zero hw.lead_ne)
    (Int.natCast_ne_zero.2 unitsPerOne_pos.ne')

theorem within_discriminant : Within 53 p.discriminant :=
  .of_toInt? (toInt?_discriminant hw hm) hm.discriminant

/-- A sum with the square root, divided. -/
theorem isFinite_root (hpos : zero < p.discriminant) {r : Binary64}
    (hr : r = p.discriminant.sqrt ∨ r = -p.discriminant.sqrt) :
    ((-p.coefficient 1 + r) / (2 * p.coefficient 2)).isFinite := by
  have hdiscriminant := within_discriminant hw hm
  have hunits := (lt_iff_units rfl hdiscriminant.atMost.isFinite).1 hpos
  have hroot : AtMost 53 p.discriminant.sqrt := hdiscriminant.atMost.sqrt hunits.le (by decide)
  have hr : AtMost 53 r := by
    rcases hr with rfl | rfl
    · exact hroot
    · exact hroot.neg
  have hsum : AtMost 54 (-p.coefficient 1 + r) :=
    (within_neg_middle hw hm).atMost.add hr (by decide)
  have hdivisor := within_divisor hw hm
  have hlow := hdivisor.atLeast.resolve_left (units_divisor_ne hw hm)
  exact (hsum.div hdivisor.atMost.isFinite hlow (l := 107) (by decide)).isFinite

theorem within_vertex : Within 106 (-p.coefficient 1 / (2 * p.coefficient 2)).unsignedZero :=
  ((within_neg_middle hw hm).div (within_divisor hw hm) (units_divisor_ne hw hm)
    (by decide)).unsignedZero

/-- Both parts of the complex roots, and so the modulus. -/
theorem isFinite_complexRoot (hneg : p.discriminant < zero) :
    p.complexRoot.isFinite ∧ p.complexRoot.modulus.isFinite := by
  have hdiscriminant := toInt?_discriminant hw hm
  have hvalue := (lt_iff_of_toInt? hdiscriminant toInt?_zero).1 hneg
  have hbound : |-(b ^ 2 - 4 * a * c)| ≤ 2 ^ 53 := by
    rw [neg_sub, abs_sub_comm]
    exact hm.discriminant
  have hopposite : Within 53 (-p.discriminant) := .of_toInt? (toInt?_neg hdiscriminant) hbound
  have hnonneg : 0 ≤ units (-p.discriminant) := by
    rw [units_neg, units_of_toInt? hdiscriminant, ← neg_mul]
    exact mul_nonneg (by omega) (Int.natCast_nonneg _)
  have hroot : Within 53 (-p.discriminant).sqrt := hopposite.sqrt hnonneg (by decide)
  have him : Within 106 p.complexRoot.im :=
    (hroot.div (within_divisor hw hm) (units_divisor_ne hw hm) (by decide)).abs
  have hre : Within 106 p.complexRoot.re := within_vertex hw hm
  have hmodulus : p.complexRoot.modulus.isFinite := isFinite_hypot hre him (by decide)
  exact ⟨Complex.isFinite_of_modulus hmodulus, hmodulus⟩

theorem isFinite_of_mem_roots : ∀ r ∈ p.quadraticOutcome.roots, r.isFinite := by
  intro r hr
  unfold quadraticOutcome at hr
  dsimp only at hr
  split at hr
  · rename_i hpos
    rcases List.mem_pair.1 hr with rfl | rfl
    · exact isFinite_root hw hm hpos (Or.inl rfl)
    · exact isFinite_root hw hm hpos (Or.inr rfl)
  rename_i hpos
  split at hr
  · rw [List.mem_singleton.1 hr]
    exact (within_vertex hw hm).atMost.isFinite
  · rename_i hzero
    have hneg : p.discriminant < zero :=
      (lt_zero_iff (within_discriminant hw hm).atMost.isFinite).2
        ⟨hpos, Bool.eq_false_iff.2 hzero⟩
    have hroot := (isFinite_complexRoot hw hm hneg).1
    rcases List.mem_pair.1 hr with rfl | rfl
    · exact hroot
    · exact (Complex.isFinite_conj _).trans hroot

end

/-- There is an outcome, as the formula gives it. -/
theorem solve_of_modest (h : p.IsWholeQuadratic a b c) (hm : IsModest a b c) :
    p.solve = .ok p.quadraticOutcome := by
  have hw := h.toHasWholeCoefficients
  have hbounded : p.IsBounded := by
    refine ⟨h.coefficients_finite, fun _ => (within_discriminant hw hm).atMost.isFinite, ?_⟩
    rw [h.outcome_eq]
    exact isFinite_of_mem_roots hw hm
  have hmodulus : ¬ p.ModulusOverflows := fun ho => by
    have hfinite := (isFinite_complexRoot hw hm ho.negative).2
    rw [ho.modulus] at hfinite
    contradiction
  rw [solve_eq_outcome h.hasLead hbounded.not_overflows hmodulus, h.outcome_eq]

/-! ## Real zeros -/

/-- The zeros in exact arithmetic. -/
def realZeros (a b c : Int) : Set ℝ := {x | (a : ℝ) * x ^ 2 + b * x + c = 0}

theorem mem_realZeros {x : ℝ} :
    x ∈ realZeros a b c ↔ (a : ℝ) * (x * x) + b * x + c = 0 := by
  rw [← sq]
  rfl

theorem discrim_cast (a b c : Int) :
    discrim (a : ℝ) b c = ((b ^ 2 - 4 * a * c : Int) : ℝ) := by
  rw [discrim]
  push_cast
  rfl

theorem encard_realZeros_of_pos (ha : a ≠ 0) (h : 0 < b ^ 2 - 4 * a * c) :
    (realZeros a b c).encard = 2 := by
  have haR : (a : ℝ) ≠ 0 := by exact_mod_cast ha
  have hpos : 0 < discrim (a : ℝ) b c := by
    rw [discrim_cast]
    exact_mod_cast h
  have hroot := (Real.mul_self_sqrt hpos.le).symm
  have hset : realZeros a b c = {(-b + √(discrim (a : ℝ) b c)) / (2 * a),
      (-b - √(discrim (a : ℝ) b c)) / (2 * a)} := by
    ext x
    rw [mem_realZeros, quadratic_eq_zero_iff haR hroot]
    rfl
  rw [hset]
  apply Set.encard_pair
  intro heq
  have hnumerators := (div_left_inj' (mul_ne_zero two_ne_zero haR)).1 heq
  have := Real.sqrt_pos.2 hpos
  linarith

theorem encard_realZeros_of_eq (ha : a ≠ 0) (h : b ^ 2 - 4 * a * c = 0) :
    (realZeros a b c).encard = 1 := by
  have haR : (a : ℝ) ≠ 0 := by exact_mod_cast ha
  have hzero : discrim (a : ℝ) b c = 0 := by
    rw [discrim_cast, h, Int.cast_zero]
  have hset : realZeros a b c = {-(b : ℝ) / (2 * a)} := by
    ext x
    rw [mem_realZeros, quadratic_eq_zero_iff_of_discrim_eq_zero haR hzero]
    rfl
  rw [hset, Set.encard_singleton]

theorem encard_realZeros_of_neg (h : b ^ 2 - 4 * a * c < 0) : (realZeros a b c).encard = 0 := by
  have hneg : discrim (a : ℝ) b c < 0 := by
    rw [discrim_cast]
    exact_mod_cast h
  rw [Set.encard_eq_zero, Set.eq_empty_iff_forall_notMem]
  intro x hx
  refine quadratic_ne_zero_of_discrim_ne_sq (fun s hs => ?_) x (mem_realZeros.1 hx)
  have := sq_nonneg s
  linarith

/-! ## The terms of a quadratic equation -/

/-- The terms of `a * x ^ 2 + b * x + c`. -/
def wholeTerms (a b c : Int) : List Term := [⟨.ofInt a, 2⟩, ⟨.ofInt b, 1⟩, ⟨.ofInt c, 0⟩]

theorem toInt?_coefficient_reduce {ts : List Term} {e n : Int}
    (h : Term.coefficientsAt e ts = [.ofInt n]) (hn : |n| ≤ 2 ^ 53) :
    ((reduce ts).coefficient e).toInt? = some n := by
  have hsum : (zero + .ofInt n).toInt? = some (0 + n) :=
    toInt?_add toInt?_zero (toInt?_ofInt hn) (by rwa [Int.zero_add])
  rw [Int.zero_add] at hsum
  rw [coefficient_reduce, coefficient_sums, h, List.foldl_cons, List.foldl_nil]
  exact toInt?_unsignedZero hsum hn

/-- In any order the terms add up to the polynomial; a coefficient that is zero may be dropped. -/
theorem isWholeQuadratic_reduce {ts : List Term} (h : ts.Perm (wholeTerms a b c)) (h0 : a ≠ 0)
    (ha : |a| ≤ 2 ^ 53) (hb : |b| ≤ 2 ^ 53) (hc : |c| ≤ 2 ^ 53) :
    (reduce ts).IsWholeQuadratic a b c := by
  have hsingle {e n : Int} (hone : Term.coefficientsAt e (wholeTerms a b c) = [.ofInt n]) :
      Term.coefficientsAt e ts = [.ofInt n] := by
    rw [← List.perm_singleton, ← hone]
    exact (h.filter _).map _
  refine {
    lead := toInt?_coefficient_reduce (hsingle rfl) ha
    middle := toInt?_coefficient_reduce (hsingle rfl) hb
    constant := toInt?_coefficient_reduce (hsingle rfl) hc
    lead_ne := h0
    exponents := fun t ht => ?_ }
  obtain ⟨u, hu, he⟩ := exists_mem_of_mem_reduce ht
  rw [← he]
  rcases List.mem_cons.1 (h.mem_iff.1 hu) with rfl | hu
  · exact Or.inr (Or.inr rfl)
  rcases List.mem_pair.1 hu with rfl | rfl
  · exact Or.inr (Or.inl rfl)
  · exact Or.inl rfl

/-- The kind of the outcome tells how many real zeros there are. -/
theorem kind_quadraticOutcome (hw : p.HasWholeCoefficients a b c) (hm : IsModest a b c) :
    p.quadraticOutcome.kind = .pair ∧ (realZeros a b c).encard = 2 ∨
      p.quadraticOutcome.kind = .single ∧ (realZeros a b c).encard = 1 ∨
        p.quadraticOutcome.kind = .complexPair ∧ (realZeros a b c).encard = 0 := by
  have hpos := zero_lt_discriminant_iff hw hm
  have hzero := isZero_discriminant_iff hw hm
  unfold quadraticOutcome
  dsimp only
  rcases lt_trichotomy (b ^ 2 - 4 * a * c) 0 with hlt | heq | hgt
  · rw [if_neg (by rw [hpos]; omega), if_neg (by rw [hzero]; omega)]
    exact Or.inr (Or.inr ⟨rfl, encard_realZeros_of_neg hlt⟩)
  · rw [if_neg (by rw [hpos]; omega), if_pos (hzero.2 heq)]
    exact Or.inr (Or.inl ⟨rfl, encard_realZeros_of_eq hw.lead_ne heq⟩)
  · rw [if_pos (hpos.2 hgt)]
    exact Or.inl ⟨rfl, encard_realZeros_of_pos hw.lead_ne hgt⟩

theorem discriminant_quadraticOutcome (p : Polynomial) :
    p.quadraticOutcome.discriminant = some p.discriminant := by
  unfold quadraticOutcome
  dsimp only
  split
  · rfl
  · split <;> rfl

/-- For whole coefficients up to `2 ^ 25` there is an outcome, its discriminant is the exact one,
and its kind tells how many real zeros the polynomial has. -/
theorem classified_of_whole {ts : List Term} (hts : ts.Perm (wholeTerms a b c)) (h0 : a ≠ 0)
    (ha : |a| ≤ 2 ^ 25) (hb : |b| ≤ 2 ^ 25) (hc : |c| ≤ 2 ^ 25) :
    ∃ o d, (reduce ts).solve = .ok o ∧
      o.discriminant = some d ∧ d.toInt? = some (b ^ 2 - 4 * a * c) ∧
      (o.kind = .pair ↔ (realZeros a b c).encard = 2) ∧
      (o.kind = .single ↔ (realZeros a b c).encard = 1) ∧
      (o.kind = .complexPair ↔ (realZeros a b c).encard = 0) := by
  have hm := IsModest.of_abs_le ha hb hc
  have hquadratic := isWholeQuadratic_reduce hts h0 (ha.trans (by norm_num))
    (hb.trans (by norm_num)) (hc.trans (by norm_num))
  have hw := hquadratic.toHasWholeCoefficients
  refine ⟨_, _, solve_of_modest hquadratic hm, discriminant_quadraticOutcome _,
    toInt?_discriminant hw hm, ?_⟩
  rcases kind_quadraticOutcome hw hm with ⟨hkind, hcard⟩ | ⟨hkind, hcard⟩ | ⟨hkind, hcard⟩ <;>
    rw [hkind, hcard] <;> simp

/-- The terms of `x ^ 2 - 1`, without a linear one that is not zero. -/
theorem classified_unitRoots :
    ∃ o d, (reduce (wholeTerms 1 0 (-1))).solve = .ok o ∧ o.discriminant = some d ∧
      d.toInt? = some 4 ∧ (o.kind = .pair ↔ (realZeros 1 0 (-1)).encard = 2) := by
  obtain ⟨o, d, hsolve, hd, hvalue, hpair, -⟩ :=
    classified_of_whole (List.Perm.refl (wholeTerms 1 0 (-1))) (by decide) (by norm_num)
      (by norm_num) (by norm_num)
  exact ⟨o, d, hsolve, hd, hvalue, hpair⟩

end PolySolve.Polynomial
