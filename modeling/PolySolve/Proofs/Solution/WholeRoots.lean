import PolySolve.Proofs.Solution.Whole

/-!
# Whole roots

The roots of `a * (x - r₁) * (x - r₂)` are found without rounding if all of these
are whole numbers and not too large: the discriminant is a square, its root is
exact, what is divided by `2 * a` is a multiple of it, and Horner's rule ends at
zero for each root. Which root comes first is told by the sign of `a`.

* `HasModestRoots`: how large the roots may be;
* `HasModestRoots.isModest`: the discriminant is exact;
* `toInt?_sqrt_discriminant`, `toInt?_root`, `toInt?_roots`: the steps of the formula;
* `residual_eq_zero`: Horner's rule at a whole root;
* `residual_eq_zero_of_roots`: the check of each root;
* `solve_of_modestRoots`: both roots are found, and both residuals are zero.
-/

namespace PolySolve.Polynomial

open Binary64

-- The elaborator must not evaluate these powers of two.
attribute [local irreducible] overflowUnits unitsPerOne

variable {p : Polynomial} {a b c r₁ r₂ : Int}

/-! ## Bounds -/

/-- Two whole roots, the greater one first, for which the discriminant of `a * (x - r₁) * (x - r₂)`
has terms of 53 bits. -/
structure HasModestRoots (a r₁ r₂ : Int) : Prop where
  lead_ne : a ≠ 0
  lt : r₂ < r₁
  square : a ^ 2 * (r₁ + r₂) ^ 2 ≤ 2 ^ 52
  product : 4 * a ^ 2 * |r₁ * r₂| ≤ 2 ^ 52

namespace HasModestRoots

variable (h : HasModestRoots a r₁ r₂)

include h

/-- The sum and the product of the roots are not both zero. -/
theorem lead_sq_le : a ^ 2 ≤ 2 ^ 52 := by
  have hnonneg := sq_nonneg a
  by_cases h0 : r₁ * r₂ = 0
  · have hlt := h.lt
    have hne : r₁ + r₂ ≠ 0 := by
      rcases mul_eq_zero.1 h0 with hzero | hzero <;> omega
    have hsum : 0 < (r₁ + r₂) ^ 2 := by positivity
    exact (le_mul_of_one_le_right hnonneg hsum).trans h.square
  · have hproduct := (le_mul_of_one_le_right (mul_nonneg (by norm_num) hnonneg)
      (Int.one_le_abs h0)).trans h.product
    omega

theorem isModest : IsModest a (-(a * (r₁ + r₂))) (a * r₁ * r₂) where
  lead := abs_le_of_sq_le_sq (h.lead_sq_le.trans (by norm_num)) (by norm_num)
  square := by
    rw [neg_sq, mul_pow]
    exact h.square
  product := by
    have hfactor : 4 * a * (a * r₁ * r₂) = 4 * a ^ 2 * (r₁ * r₂) := by ring
    have hnonneg : 0 ≤ 4 * a ^ 2 := by positivity
    rw [hfactor, abs_mul, abs_of_nonneg hnonneg]
    exact h.product

theorem constant_le : |a * r₁ * r₂| ≤ 2 ^ 52 := by
  have hproduct := h.isModest.product
  rw [abs_mul] at hproduct
  have hfactor := Int.one_le_abs (mul_ne_zero four_ne_zero h.lead_ne)
  exact (le_mul_of_one_le_left (abs_nonneg _) hfactor).trans hproduct

/-- The square root of the discriminant. -/
theorem spread_le : |a * (r₁ - r₂)| ≤ 2 ^ 27 := by
  apply abs_le_of_sq_le_sq _ (by norm_num)
  have hexpand : (a * (r₁ - r₂)) ^ 2 = a ^ 2 * (r₁ + r₂) ^ 2 - 4 * a ^ 2 * (r₁ * r₂) := by ring
  have hproduct : -(4 * a ^ 2 * (r₁ * r₂)) ≤ 4 * a ^ 2 * |r₁ * r₂| := by
    rw [← mul_neg]
    exact mul_le_mul_of_nonneg_left (neg_le_abs _) (by positivity)
  have hsquare := h.square
  have hbound := h.product
  rw [hexpand]
  omega

/-- What is divided by the leading coefficient and two. -/
theorem numerator_le {r : Int} (hr : r = r₁ ∨ r = r₂) : |r * (2 * a)| ≤ 2 ^ 28 := by
  have hmiddle := h.isModest.middle
  have hspread := h.spread_le
  rw [abs_le] at hmiddle hspread ⊢
  rcases hr with rfl | rfl
  · have hsplit : r * (2 * a) = a * (r + r₂) + a * (r - r₂) := by ring
    omega
  · have hsplit : r * (2 * a) = a * (r₁ + r) - a * (r₁ - r) := by ring
    omega

theorem root_le {r : Int} (hr : r = r₁ ∨ r = r₂) : |r| ≤ 2 ^ 28 ∧ |a * r| ≤ 2 ^ 28 := by
  have hnumerator := h.numerator_le hr
  have hlead := Int.one_le_abs h.lead_ne
  have hleft := le_mul_of_one_le_right (abs_nonneg r) hlead
  have hproduct : |r * (2 * a)| = 2 * (|r| * |a|) := by
    rw [abs_mul, abs_mul, abs_two]
    ring
  have hcommute : |a * r| = |r| * |a| := by rw [abs_mul, mul_comm]
  have hnonneg := mul_nonneg (abs_nonneg r) (abs_nonneg a)
  rw [hproduct] at hnumerator
  rw [hcommute]
  constructor <;> omega

end HasModestRoots

/-! ## The formula -/

section

variable (hw : p.HasWholeCoefficients a (-(a * (r₁ + r₂))) (a * r₁ * r₂))
  (h : HasModestRoots a r₁ r₂)

include hw h

theorem toInt?_discriminant_of_roots :
    p.discriminant.toInt? = some (a ^ 2 * (r₁ - r₂) ^ 2) := by
  have hsquare : (-(a * (r₁ + r₂))) ^ 2 - 4 * a * (a * r₁ * r₂) = a ^ 2 * (r₁ - r₂) ^ 2 := by ring
  rw [← hsquare]
  exact toInt?_discriminant hw h.isModest

theorem toInt?_sqrt_discriminant : p.discriminant.sqrt.toInt? = some |a * (r₁ - r₂)| := by
  have hdiscriminant := toInt?_discriminant_of_roots hw h
  have hsquare : a ^ 2 * (r₁ - r₂) ^ 2 = |a * (r₁ - r₂)| * |a * (r₁ - r₂)| := by
    rw [abs_mul_abs_self]
    ring
  rw [hsquare] at hdiscriminant
  exact toInt?_sqrt hdiscriminant (abs_nonneg _) (h.spread_le.trans (by norm_num))

theorem zero_lt_discriminant : zero < p.discriminant := by
  rw [lt_iff_of_toInt? toInt?_zero (toInt?_discriminant_of_roots hw h)]
  have hspread := sub_pos.2 h.lt
  have hlead := h.lead_ne
  positivity

/-- The square root with its sign is taken away from the middle coefficient, and the difference is
divided. -/
theorem toInt?_root {s : Binary64} {t r : Int} (hs : s.toInt? = some t) (hr : r = r₁ ∨ r = r₂)
    (ht : a * (r₁ + r₂) + t = r * (2 * a)) :
    ((-p.coefficient 1 + s) / (2 * p.coefficient 2)).toInt? = some r := by
  have hbound := h.numerator_le hr
  have hopposite : (-p.coefficient 1).toInt? = some (a * (r₁ + r₂)) := by
    have hneg := toInt?_neg hw.middle
    rwa [Int.neg_neg] at hneg
  have hnumerator : (-p.coefficient 1 + s).toInt? = some (r * (2 * a)) := by
    rw [← ht] at hbound ⊢
    exact toInt?_add hopposite hs (hbound.trans (by norm_num))
  exact toInt?_div hnumerator (toInt?_divisor hw h.isModest) (mul_ne_zero two_ne_zero h.lead_ne)
    ((h.root_le hr).1.trans (by norm_num))

/-- The two roots in the order of the formula. -/
theorem toInt?_roots {r s : Int} (horder : r = r₁ ∧ s = r₂ ∨ r = r₂ ∧ s = r₁)
    (hspread : |a * (r₁ - r₂)| = a * (r - s)) :
    ((-p.coefficient 1 + p.discriminant.sqrt) / (2 * p.coefficient 2)).toInt? = some r ∧
      ((-p.coefficient 1 - p.discriminant.sqrt) / (2 * p.coefficient 2)).toInt? = some s := by
  have hsqrt := toInt?_sqrt_discriminant hw h
  rw [hspread] at hsqrt
  have hsum : r₁ + r₂ = r + s := by omega
  constructor
  · apply toInt?_root hw h hsqrt (horder.imp And.left And.left)
    rw [hsum]
    ring
  · apply toInt?_root hw h (toInt?_neg hsqrt) (horder.symm.imp And.right And.right)
    rw [hsum]
    ring

end

/-! ## Horner's rule -/

theorem dense_two (p : Polynomial) :
    p.dense 2 = [p.coefficient 0, p.coefficient 1, p.coefficient 2] := rfl

/-- At a whole zero no step is rounded if the first two are not too large; the third takes away the
constant from itself. -/
theorem residual_eq_zero (hw : p.HasWholeCoefficients a b c) (hdegree : p.degree = 2)
    {x : Binary64} {r : Int} (hx : x.toInt? = some r) (ha : |a| ≤ 2 ^ 53)
    (hproduct : |a * r| ≤ 2 ^ 53) (hsum : |a * r + b| ≤ 2 ^ 53) (hc : |c| ≤ 2 ^ 53)
    (hroot : (a * r + b) * r + c = 0) : p.residual (.real x) = zero := by
  have hstart : (zero * x).toInt? = some 0 := by
    have hzero := toInt?_mul toInt?_zero hx (by rw [zero_mul]; norm_num)
    rwa [zero_mul] at hzero
  have hlead : (zero * x + p.coefficient 2).toInt? = some a := by
    have hadd := toInt?_add hstart hw.lead (by rwa [Int.zero_add])
    rwa [Int.zero_add] at hadd
  have hmiddle := toInt?_add (toInt?_mul hlead hx hproduct) hw.middle hsum
  have hlast : |(a * r + b) * r| ≤ 2 ^ 53 := by
    rw [abs_le] at hc ⊢
    omega
  have hvalue := toInt?_add (toInt?_mul hmiddle hx hlast) hw.constant (by rw [hroot]; norm_num)
  rw [hroot] at hvalue
  have hzero : (p.evaluate x).isZero := by
    rw [evaluate, hdegree, dense_two, List.foldr_cons, List.foldr_cons, List.foldr_cons,
      List.foldr_nil]
    exact (isZero_iff_of_toInt? hvalue).2 rfl
  have hsame : SameValue (p.evaluate x) zero := sameValue_of_isZero hzero rfl
  exact hsame.abs

theorem residual_eq_zero_of_roots (h : HasModestRoots a r₁ r₂)
    (hq : p.IsWholeQuadratic a (-(a * (r₁ + r₂))) (a * r₁ * r₂)) {x : Binary64} {r : Int}
    (hx : x.toInt? = some r) (hr : r = r₁ ∨ r = r₂) : p.residual (.real x) = zero := by
  have hlead := h.isModest.lead
  have hconstant : |a * r₁ * r₂| ≤ 2 ^ 53 := h.constant_le.trans (by norm_num)
  refine residual_eq_zero hq.toHasWholeCoefficients hq.degree_eq hx (hlead.trans (by norm_num))
    ((h.root_le hr).2.trans (by norm_num)) ?_ hconstant ?_
  · -- What is left of the middle coefficient belongs to the other root.
    have hfirst := (h.root_le (Or.inl rfl)).2
    have hsecond := (h.root_le (Or.inr rfl)).2
    rw [abs_le] at hfirst hsecond ⊢
    rcases hr with rfl | rfl
    · have hsplit : a * r + -(a * (r + r₂)) = -(a * r₂) := by ring
      omega
    · have hsplit : a * r + -(a * (r₁ + r)) = -(a * r₁) := by ring
      omega
  · rcases hr with rfl | rfl <;> ring

/-! ## Both roots -/

theorem quadraticOutcome_of_pos (h : zero < p.discriminant) :
    p.quadraticOutcome.kind = .pair ∧ p.quadraticOutcome.roots =
      [.real ((-p.coefficient 1 + p.discriminant.sqrt) / (2 * p.coefficient 2)),
        .real ((-p.coefficient 1 - p.discriminant.sqrt) / (2 * p.coefficient 2))] := by
  unfold quadraticOutcome
  dsimp only
  rw [if_pos h]
  exact ⟨rfl, rfl⟩

/-- The root with the square root added comes first: it is the greater one if the leading
coefficient is positive. -/
theorem solve_of_modestRoots (hq : p.IsWholeQuadratic a (-(a * (r₁ + r₂))) (a * r₁ * r₂))
    (h : HasModestRoots a r₁ r₂) :
    ∃ o d x y, p.solve = .ok o ∧ o.kind = .pair ∧
      o.discriminant = some d ∧ d.toInt? = some (a ^ 2 * (r₁ - r₂) ^ 2) ∧
      o.roots = [.real x, .real y] ∧
      (0 < a → x.toInt? = some r₁ ∧ y.toInt? = some r₂) ∧
      (a < 0 → x.toInt? = some r₂ ∧ y.toInt? = some r₁) ∧
      o.roots.map p.residual = [zero, zero] := by
  have hw := hq.toHasWholeCoefficients
  obtain ⟨hkind, hroots⟩ := quadraticOutcome_of_pos (zero_lt_discriminant hw h)
  refine ⟨_, _, _, _, solve_of_modest hq h.isModest, hkind, discriminant_quadraticOutcome p,
    toInt?_discriminant_of_roots hw h, hroots, ?_⟩
  have hresiduals {x y : Binary64} {r s : Int} (hx : x.toInt? = some r) (hy : y.toInt? = some s)
      (hr : r = r₁ ∨ r = r₂) (hs : s = r₁ ∨ s = r₂) :
      [.real x, .real y].map p.residual = [zero, zero] := by
    rw [List.map_cons, List.map_singleton, residual_eq_zero_of_roots h hq hx hr,
      residual_eq_zero_of_roots h hq hy hs]
  rw [hroots]
  have hspread := sub_pos.2 h.lt
  rcases lt_or_gt_of_ne h.lead_ne with hlead | hlead
  · have habs : |a * (r₁ - r₂)| = a * (r₂ - r₁) := by
      rw [abs_of_neg (mul_neg_of_neg_of_pos hlead hspread)]
      ring
    obtain ⟨hx, hy⟩ := toInt?_roots hw h (Or.inr ⟨rfl, rfl⟩) habs
    exact ⟨fun ha => absurd ha hlead.not_gt, fun _ => ⟨hx, hy⟩,
      hresiduals hx hy (Or.inr rfl) (Or.inl rfl)⟩
  · have habs : |a * (r₁ - r₂)| = a * (r₁ - r₂) := abs_of_pos (mul_pos hlead hspread)
    obtain ⟨hx, hy⟩ := toInt?_roots hw h (Or.inl ⟨rfl, rfl⟩) habs
    exact ⟨fun _ => ⟨hx, hy⟩, fun ha => absurd ha hlead.not_gt,
      hresiduals hx hy (Or.inl rfl) (Or.inr rfl)⟩

/-- The terms of `-(x - 2) * (x - 1)`: the lesser root comes first. -/
theorem solve_oneAndTwo :
    ∃ o x y, (reduce (wholeTerms (-1) 3 (-2))).solve = .ok o ∧ o.roots = [.real x, .real y] ∧
      x.toInt? = some 1 ∧ y.toInt? = some 2 := by
  have hq : (reduce (wholeTerms (-1) 3 (-2))).IsWholeQuadratic (-1) (-(-1 * (2 + 1)))
      (-1 * 2 * 1) :=
    isWholeQuadratic_reduce (List.Perm.refl _) (by decide) (by norm_num) (by norm_num)
      (by norm_num)
  have h : HasModestRoots (-1) 2 1 :=
    { lead_ne := by decide
      lt := by decide
      square := by norm_num
      product := by norm_num }
  obtain ⟨o, d, x, y, hsolve, -, -, -, hroots, -, horder, -⟩ := solve_of_modestRoots hq h
  obtain ⟨hx, hy⟩ := horder (by decide)
  exact ⟨o, x, y, hsolve, hroots, hx, hy⟩

end PolySolve.Polynomial
