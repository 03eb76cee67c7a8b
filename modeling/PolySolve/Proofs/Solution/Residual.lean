import PolySolve.Proofs.Binary64.Whole
import PolySolve.Proofs.Solution.Overflow

/-!
# How near the roots are

Where the polynomial `a * x ^ 2 + b * x + c` has whole coefficients, its value at a reported root
can be told in exact arithmetic. The formula is accurate where the square root is added to a number
of its own sign. Where it is taken away, and `b ^ 2` is much more than `a * c`, most of the bits of
the difference are rounding errors: the root may be lost, and zero reported in its place.

* `RoundedFormula`: a root with the errors of all steps, and what the polynomial is worth there;
* `IsNearRoot`: the value is small beside the terms it is a sum of;
* `IsBalanced`: `b ^ 2` is at most `2 ^ 30` times `a * c`;
* `HasWholeCoefficients.roundedFormula`: both roots come from the formula;
* `HasWholeCoefficients.units_root`: with `c = 0` the root at zero is found exactly;
* `nearRoots_of_solve`: which reported roots are near.
-/

namespace PolySolve

open Binary64

-- The elaborator must not evaluate these powers of two.
attribute [local irreducible] overflowUnits unitsPerOne

/-! ## The formula with rounded steps -/

/-- `x` comes from the formula for the roots of `a * x ^ 2 + b * x + c`, each step rounded. The
square root has the sign of `t`. -/
structure RoundedFormula (a b c t x : ℚ) : Prop where
  lead_ne : a ≠ 0
  root : |t ^ 2 - (b ^ 2 - 4 * a * c)| ≤ 5 * roundoff * (b ^ 2 + |4 * a * c|)
  quotient : |2 * a * x - (t - b)| ≤ (2 * roundoff + roundoff ^ 2) * |t - b|

namespace RoundedFormula

variable {a b c t x : ℚ}

/-- Three roundings come before the square root, which is rounded too. -/
theorem root_le {square product delta : ℚ} (hsquare : Approximates square (b ^ 2))
    (hproduct : Approximates product (4 * a * c)) (hdelta : Approximates delta (square - product))
    (hpos : 0 ≤ delta) (hlow : (1 - roundoff) ^ 2 * delta ≤ t ^ 2)
    (hhigh : t ^ 2 ≤ (1 + roundoff) ^ 2 * delta) :
    |t ^ 2 - (b ^ 2 - 4 * a * c)| ≤ 5 * roundoff * (b ^ 2 + |4 * a * c|) := by
  unfold Approximates at hsquare hproduct hdelta
  have hp : 0 ≤ b ^ 2 := sq_nonneg b
  rw [abs_of_nonneg hp] at hsquare
  generalize 4 * a * c = q at *
  generalize b ^ 2 = p at *
  obtain ⟨hq₁, hq₂⟩ := abs_le.1 (le_refl |q|)
  obtain ⟨hs₁, hs₂⟩ := abs_le.1 hsquare
  obtain ⟨hm₁, hm₂⟩ := abs_le.1 hproduct
  unfold roundoff at *
  have hdifference : |square - product| ≤ (1 + 1 / 2 ^ 53) * (p + |q|) := by
    rw [abs_le]
    constructor <;> linarith
  obtain ⟨hd₁, hd₂⟩ := abs_le.1 hdelta
  rw [abs_le]
  constructor <;> linarith

/-- Two roundings come after the square root. -/
theorem quotient_le {numerator : ℚ} (ha : a ≠ 0) (hnumerator : Approximates numerator (t - b))
    (hquotient : Approximates x (numerator / (2 * a))) :
    |2 * a * x - (t - b)| ≤ (2 * roundoff + roundoff ^ 2) * |t - b| := by
  have h2a : 2 * a ≠ 0 := mul_ne_zero two_ne_zero ha
  have hscaled : |2 * a * x - numerator| ≤ roundoff * |numerator| := by
    have hfactor : 2 * a * x - numerator = 2 * a * (x - numerator / (2 * a)) := by
      field_simp
    calc |2 * a * x - numerator| = |2 * a| * |x - numerator / (2 * a)| := by
          rw [hfactor, abs_mul]
      _ ≤ |2 * a| * (roundoff * |numerator / (2 * a)|) :=
          mul_le_mul_of_nonneg_left hquotient (abs_nonneg _)
      _ = roundoff * |numerator| := by
          rw [abs_div]
          have : |2 * a| ≠ 0 := abs_ne_zero.2 h2a
          field_simp
  unfold Approximates at hnumerator
  have hsize : |numerator| ≤ (1 + roundoff) * |t - b| := by
    have := abs_sub_abs_le_abs_sub numerator (t - b)
    linarith
  have hsize' := mul_le_mul_of_nonneg_left hsize roundoff_pos.le
  have htriangle := abs_sub_le (2 * a * x) numerator (t - b)
  linarith

theorem sq_error_le {error share : ℚ} (h : |error| ≤ share * |t - b|) :
    error ^ 2 ≤ share ^ 2 * (2 * t ^ 2 + 2 * b ^ 2) :=
  calc error ^ 2 ≤ (share * |t - b|) ^ 2 := sq_le_sq' (neg_le_of_abs_le h) (le_of_abs_le h)
    _ = share ^ 2 * (t - b) ^ 2 := by rw [mul_pow, sq_abs]
    _ ≤ share ^ 2 * (2 * t ^ 2 + 2 * b ^ 2) :=
        mul_le_mul_of_nonneg_left (by linarith [sq_nonneg (t + b)]) (sq_nonneg _)

theorem cross_error_le {error share : ℚ} (hshare : 0 ≤ share) (h : |error| ≤ share * |t - b|) :
    |2 * t * error| ≤ share * (3 * t ^ 2 + b ^ 2) := by
  have hmean : 2 * |t| * |t - b| ≤ 3 * t ^ 2 + b ^ 2 := by
    have hsub := mul_le_mul_of_nonneg_left (abs_sub t b) (abs_nonneg t)
    have htwo := two_mul_le_add_sq |t| |b|
    rw [sq_abs, sq_abs] at htwo
    have hself : |t| * |t| = t ^ 2 := by rw [← sq, sq_abs]
    linarith
  calc |2 * t * error| = 2 * |t| * |error| := by rw [abs_mul, abs_mul, abs_two]
    _ ≤ 2 * |t| * (share * |t - b|) := mul_le_mul_of_nonneg_left h (by positivity)
    _ = share * (2 * |t| * |t - b|) := by ring
    _ ≤ share * (3 * t ^ 2 + b ^ 2) := mul_le_mul_of_nonneg_left hmean hshare

/-- Four times `a`, times the value at `x`, is small beside the terms of the discriminant. -/
theorem residual_le (h : RoundedFormula a b c t x) :
    4 * |a| * |a * x ^ 2 + b * x + c| ≤ 16 * roundoff * (b ^ 2 + 4 * |a| * |c|) := by
  obtain ⟨-, hroot, hquotient⟩ := h
  have hsquare : 4 * a * (a * x ^ 2 + b * x + c) = (2 * a * x + b) ^ 2 - (b ^ 2 - 4 * a * c) := by
    ring
  have hfour : |(4 : ℚ)| = 4 := abs_of_pos (by norm_num)
  have hproduct : |4 * a * c| = 4 * |a| * |c| := by rw [abs_mul, abs_mul, hfour]
  have hleft : 4 * |a| * |a * x ^ 2 + b * x + c| =
      |(2 * a * x + b) ^ 2 - (b ^ 2 - 4 * a * c)| := by
    rw [← hsquare, abs_mul, abs_mul, hfour]
  rw [hleft, ← hproduct]
  obtain ⟨error, herror⟩ : ∃ error, 2 * a * x - (t - b) = error := ⟨_, rfl⟩
  rw [herror] at hquotient
  have hshift : 2 * a * x + b = t + error := by
    rw [← herror]
    ring
  rw [hshift]
  generalize 4 * a * c = q at *
  have hshare : 0 ≤ 2 * roundoff + roundoff ^ 2 := by
    have := roundoff_pos
    positivity
  have hsq := sq_error_le hquotient
  have hcross := cross_error_le hshare hquotient
  obtain ⟨hc₁, hc₂⟩ := abs_le.1 hcross
  obtain ⟨hr₁, hr₂⟩ := abs_le.1 hroot
  obtain ⟨hq₁, hq₂⟩ := abs_le.1 (le_refl |q|)
  have hexpand : (t + error) ^ 2 = t ^ 2 + 2 * t * error + error ^ 2 := by ring
  have hsq0 := sq_nonneg error
  have hb0 := sq_nonneg b
  rw [hexpand]
  generalize b ^ 2 = p at *
  generalize t ^ 2 = tt at *
  generalize 2 * t * error = cross at *
  generalize error ^ 2 = ee at *
  unfold roundoff at *
  rw [abs_le]
  constructor <;> linarith

/-- If the square root is not taken away from `b`, the root is not small beside `b / a`. -/
theorem sq_le_of_not_opposite (h : RoundedFormula a b c t x) (hsign : |t - b| = |t| + |b|) :
    b ^ 2 ≤ 4 * |a| * (|b| * |x|) := by
  have hlow := abs_sub_abs_le_abs_sub (t - b) (2 * a * x)
  rw [abs_sub_comm (t - b)] at hlow
  have hproduct : |2 * a * x| = 2 * |a| * |x| := by rw [abs_mul, abs_mul, abs_two]
  have ht := abs_nonneg t
  have hb := abs_nonneg b
  have hle : |b| ≤ 4 * |a| * |x| := by
    have hquotient := h.quotient
    rw [hsign] at hquotient hlow
    rw [hproduct] at hlow
    unfold roundoff at hquotient
    linarith
  calc b ^ 2 = |b| * |b| := by rw [← sq, sq_abs]
    _ ≤ |b| * (4 * |a| * |x|) := mul_le_mul_of_nonneg_left hle hb
    _ = 4 * |a| * (|b| * |x|) := by ring

end RoundedFormula

/-! ## Whole coefficients -/

/-- The value of `a * x ^ 2 + b * x + c`. -/
def quadraticAt (a b c : Int) (x : ℚ) : ℚ := a * x ^ 2 + b * x + c

/-- The magnitudes of the three terms together. -/
def termsAt (a b c : Int) (x : ℚ) : ℚ := |(a : ℚ)| * x ^ 2 + |(b : ℚ)| * |x| + |(c : ℚ)|

/-- The value at `x` is small beside the terms. -/
def IsNearRoot (a b c : Int) (x : Binary64) : Prop :=
  |quadraticAt a b c (value x)| ≤ 1 / 2 ^ 20 * termsAt a b c (value x)

/-- The product of the outer coefficients does not get lost beside the square of the middle one. -/
def IsBalanced (a b c : Int) : Prop := b ^ 2 ≤ 2 ^ 30 * |a * c|

section

variable {a b c : Int} {x : Binary64} {t : ℚ}

theorem le_termsAt (a b c : Int) (x : ℚ) : |(b : ℚ)| * |x| + |(c : ℚ)| ≤ termsAt a b c x := by
  unfold termsAt
  have : 0 ≤ |(a : ℚ)| * x ^ 2 := by positivity
  linarith

/-- The value at any root, beside the terms of the discriminant. -/
theorem RoundedFormula.quadraticAt_le (h : RoundedFormula a b c t (value x)) :
    |quadraticAt a b c (value x)| ≤ 1 / 2 ^ 49 * (b ^ 2 / (4 * |(a : ℚ)|) + |(c : ℚ)|) := by
  have hlead : 0 < |(a : ℚ)| := abs_pos.2 h.lead_ne
  have hresidual := h.residual_le
  rw [← quadraticAt] at hresidual
  have hscale : b ^ 2 / (4 * |(a : ℚ)|) + |(c : ℚ)| =
      (b ^ 2 + 4 * |(a : ℚ)| * |(c : ℚ)|) / (4 * |(a : ℚ)|) := by
    field_simp
  rw [hscale, ← mul_div_assoc, le_div_iff₀ (by positivity), mul_comm]
  unfold roundoff at hresidual
  linarith

theorem RoundedFormula.isNearRoot_of_balanced (h : RoundedFormula a b c t (value x))
    (hbalanced : IsBalanced a b c) : IsNearRoot a b c x := by
  have hlead : 0 < |(a : ℚ)| := abs_pos.2 h.lead_ne
  have hratio : (b : ℚ) ^ 2 / (4 * |(a : ℚ)|) ≤ 2 ^ 28 * |(c : ℚ)| := by
    have hcast : (b : ℚ) ^ 2 ≤ 2 ^ 30 * |(a : ℚ) * c| := by exact_mod_cast hbalanced
    rw [abs_mul] at hcast
    rw [div_le_iff₀ (by positivity)]
    linarith
  have hresidual := h.quadraticAt_le
  have hterms := le_termsAt a b c (value x)
  have hmiddle : 0 ≤ |(b : ℚ)| * |value x| := by positivity
  have hconstant := abs_nonneg (c : ℚ)
  unfold IsNearRoot
  linarith

theorem RoundedFormula.isNearRoot_of_not_opposite (h : RoundedFormula a b c t (value x))
    (hsign : |t - b| = |t| + |(b : ℚ)|) : IsNearRoot a b c x := by
  have hlead : 0 < |(a : ℚ)| := abs_pos.2 h.lead_ne
  have hratio : (b : ℚ) ^ 2 / (4 * |(a : ℚ)|) ≤ |(b : ℚ)| * |value x| := by
    rw [div_le_iff₀ (by positivity), mul_comm]
    exact h.sq_le_of_not_opposite hsign
  have hresidual := h.quadraticAt_le
  have hterms := le_termsAt a b c (value x)
  have hmiddle : 0 ≤ |(b : ℚ)| * |value x| := by positivity
  have hconstant := abs_nonneg (c : ℚ)
  unfold IsNearRoot
  linarith

/-- Without a constant term, zero is a root. -/
theorem isNearRoot_zero (hx : value x = 0) : IsNearRoot a b 0 x := by
  unfold IsNearRoot quadraticAt termsAt
  rw [hx]
  simp

end

/-- A value that is not small is not small after a division by a number below `2 ^ 32`. -/
theorem leastNormal_le_div {x : Binary64} {d : ℚ} (h : units x = 0 ∨ twoPow 84 ≤ (units x).natAbs) (h0 : d ≠ 0)
    (hd : |d| ≤ 2 ^ 32) : value x = 0 ∨ leastNormal ≤ |value x / d| := by
  rcases h with h | h
  · exact Or.inl (by rw [value, h, Int.cast_zero, zero_div])
  · right
    have hcast : (2 : ℚ) ^ 84 ≤ |(units x : ℚ)| := by
      rw [← cast_twoPow, ← Int.cast_abs, Int.abs_eq_natAbs]
      exact_mod_cast h
    rw [value, abs_div, abs_div, abs_of_pos unitsPerOne_posQ, div_right_comm, leastNormal,
      div_le_div_iff_of_pos_right unitsPerOne_posQ, le_div_iff₀ (abs_pos.2 h0), cast_twoPow]
    linarith

namespace Polynomial

/-- The coefficients at the exponents 2, 1 and 0 are whole numbers, and the first is not zero. -/
structure HasWholeCoefficients (p : Polynomial) (a b c : Int) : Prop where
  lead : (p.coefficient 2).toInt? = some a
  middle : (p.coefficient 1).toInt? = some b
  constant : (p.coefficient 0).toInt? = some c
  lead_ne : a ≠ 0

variable {p : Polynomial} {o : Outcome} {a b c : Int}

/-! ## Outcomes with two real roots -/

/-- The check of the roots does not change an outcome. -/
theorem solveByDegree_of_solve (h : p.solve = .ok o) : p.solveByDegree = .ok o := by
  unfold solve at h
  split at h
  · cases hd : p.solveByDegree with
    | error f =>
      rw [hd] at h
      contradiction
    | ok o' =>
      rw [hd] at h
      change (Root.allFinite o'.roots).bind _ = _ at h
      cases hf : Root.allFinite o'.roots with
      | error f =>
        rw [hf] at h
        contradiction
      | ok finite =>
        rw [hf] at h
        cases finite with
        | true => exact h
        | false => contradiction
  · contradiction

theorem degree_of_pair (h : p.solve = .ok o) (hkind : o.kind = .pair) : p.degree = 2 := by
  have hby := solveByDegree_of_solve h
  unfold solveByDegree at hby
  split at hby
  · rw [← Except.ok.inj hby] at hkind
    contradiction
  split at hby
  · assumption
  have constant : ∀ x d, (solveConstant x d).kind ≠ .pair := fun x d => by
    unfold solveConstant
    split <;> exact Kind.noConfusion
  split at hby
  · rw [← Except.ok.inj hby, solveLinear] at hkind
    split at hkind
    · exact absurd hkind (constant _ _)
    · contradiction
  · rw [← Except.ok.inj hby] at hkind
    exact absurd hkind (constant _ _)

/-- Two real roots are reported as the formula gives them, and they are finite. -/
structure IsPair (p : Polynomial) (o : Outcome) : Prop where
  discriminant : p.discriminant.isFinite
  positive : zero < p.discriminant
  roots : o.roots = [.real ((-p.coefficient 1 + p.discriminant.sqrt) / (2 * p.coefficient 2)),
    .real ((-p.coefficient 1 - p.discriminant.sqrt) / (2 * p.coefficient 2))]
  finite : ∀ r ∈ o.roots, r.isFinite

theorem isPair_of_solve (h : p.solve = .ok o) (hkind : o.kind = .pair)
    (hlead : (p.coefficient 2).isZero = false) : p.IsPair o := by
  have hdegree := degree_of_pair h hkind
  have hhas : p.HasLead := fun _ => by rw [hdegree]; exact hlead
  obtain ⟨rfl, hbounded⟩ := isBounded_of_solve hhas h
  have hroots := hbounded.roots
  have houtcome : p.outcome = p.quadraticOutcome := by
    rw [outcome, if_neg (by omega), if_pos hdegree]
  rw [houtcome] at hkind hroots ⊢
  unfold quadraticOutcome at hkind hroots ⊢
  dsimp only at hkind hroots ⊢
  by_cases hpos : zero < p.discriminant
  · rw [if_pos hpos] at hroots ⊢
    exact ⟨hbounded.discriminant hdegree, hpos, rfl, hroots⟩
  · rw [if_neg hpos] at hkind
    split at hkind <;> contradiction

/-! ## Each root comes from the formula -/

section

variable (hw : p.HasWholeCoefficients a b c)

include hw

theorem HasWholeCoefficients.isZero_lead : (p.coefficient 2).isZero = false := by
  apply isZero_of_units_ne
  rw [units_of_toInt? hw.lead]
  exact mul_ne_zero hw.lead_ne (Int.natCast_ne_zero.2 unitsPerOne_pos.ne')

/-- The rounded square root, by its square. -/
theorem HasWholeCoefficients.root_le {o : Outcome} (ho : p.IsPair o)
    (hsqrt : p.discriminant.sqrt.isFinite) :
    |value p.discriminant.sqrt ^ 2 - ((b : ℚ) ^ 2 - 4 * a * c)| ≤
      5 * roundoff * ((b : ℚ) ^ 2 + |4 * (a : ℚ) * c|) := by
  have hd := ho.discriminant
  have hparts : (p.coefficient 1 * p.coefficient 1 - 4 * p.coefficient 2 * p.coefficient 0).isFinite :=
    hd
  obtain ⟨hsquare, hproduct⟩ := isFinite_of_sub hparts
  have hfour := (isFinite_of_mul hproduct).1
  have hb := value_of_toInt? hw.middle
  have h4a : value (4 * p.coefficient 2) * value (p.coefficient 0) = ((4 * a * c : Int) : ℚ) := by
    rw [value_four_mul hfour, value_of_toInt? hw.lead, value_of_toInt? hw.constant]
    push_cast
    rfl
  have hbb : value (p.coefficient 1) * value (p.coefficient 1) = ((b ^ 2 : Int) : ℚ) := by
    rw [hb]
    push_cast
    ring
  have happroxSquare := approximates_mul hsquare
    (by rw [hbb]; exact eq_zero_or_leastNormal_le _)
  have happroxProduct := approximates_mul hproduct
    (by rw [h4a]; exact eq_zero_or_leastNormal_le _)
  rw [hbb] at happroxSquare
  rw [h4a] at happroxProduct
  push_cast at happroxSquare happroxProduct
  have hpos : 0 < value p.discriminant := by
    have hunits := (lt_iff_units rfl hd).1 ho.positive
    rw [units_zero] at hunits
    exact div_pos (by exact_mod_cast hunits) unitsPerOne_posQ
  obtain ⟨hlow, hhigh⟩ := sqrt_bounds hd hpos hsqrt
  exact RoundedFormula.root_le happroxSquare happroxProduct (approximates_sub hparts) hpos.le hlow hhigh

/-- One of the two roots; `r` is the square root with its sign. -/
theorem HasWholeCoefficients.roundedFormula {o : Outcome} (ho : p.IsPair o) (ha : |a| ≤ 10 ^ 9)
    {r : Binary64} (hr : r = p.discriminant.sqrt ∨ r = -p.discriminant.sqrt)
    (hx : ((-p.coefficient 1 + r) / (2 * p.coefficient 2)).isFinite) :
    RoundedFormula a b c (value r)
      (value ((-p.coefficient 1 + r) / (2 * p.coefficient 2))) := by
  have hnumerator := isFinite_of_div hx
  have hdivisor := isFinite_divisor ho.discriminant
  have hsign : value r ^ 2 = value p.discriminant.sqrt ^ 2 ∧
      ((twoPow 84 : Int) ∣ units p.discriminant.sqrt → (twoPow 84 : Int) ∣ units r) := by
    rcases hr with rfl | rfl
    · exact ⟨rfl, id⟩
    · rw [value_neg, neg_sq, units_neg]
      exact ⟨rfl, (dvd_neg (α := Int)).2⟩
  have hsqrt : p.discriminant.sqrt.isFinite := by
    have hrfinite := (isFinite_of_add hnumerator).2
    rcases hr with rfl | rfl
    · exact hrfinite
    · rwa [isFinite_neg] at hrfinite
  have hlead : ((a : Int) : ℚ) ≠ 0 := by exact_mod_cast hw.lead_ne
  have hdouble : value (2 * p.coefficient 2) = 2 * a := by
    rw [value_two_mul hdivisor, value_of_toInt? hw.lead]
  have happrox := approximates_add hnumerator
  rw [value_neg, value_of_toInt? hw.middle, neg_add_eq_sub] at happrox
  have hsmall : value (-p.coefficient 1 + r) = 0 ∨
      leastNormal ≤ |value (-p.coefficient 1 + r) / value (2 * p.coefficient 2)| := by
    have hb : (twoPow 84 : Int) ∣ units (-p.coefficient 1) := by
      rw [units_neg, units_of_toInt? hw.middle, dvd_neg, unitsPerOne]
      exact Dvd.dvd.mul_left (Int.natCast_dvd_natCast.2 (twoPow_dvd_of_le (by decide))) b
    have hd : 0 < units p.discriminant := (lt_iff_units rfl ho.discriminant).1 ho.positive
    have hr := hsign.2 (twoPow_dvd_units_sqrt ho.discriminant hd hsqrt)
    have haQ : |(a : ℚ)| ≤ 10 ^ 9 := by exact_mod_cast ha
    rw [hdouble]
    refine leastNormal_le_div (units_add_of_dvd hnumerator hb hr) (mul_ne_zero two_ne_zero hlead) ?_
    rw [abs_mul, abs_two]
    linarith
  have hquotient := approximates_div hx hdivisor (isZero_two_mul hw.isZero_lead) hsmall
  rw [hdouble] at hquotient
  refine ⟨hlead, ?_, RoundedFormula.quotient_le hlead happrox hquotient⟩
  rw [hsign.1]
  exact hw.root_le ho hsqrt

/-- Without a constant term the square root is the magnitude of the middle coefficient, although
both the square and its root are rounded. -/
theorem HasWholeCoefficients.units_root {o : Outcome} (ho : p.IsPair o) (hc : c = 0) :
    units p.discriminant.sqrt = (units (p.coefficient 1)).natAbs := by
  have hd := ho.discriminant
  have hparts : (p.coefficient 1 * p.coefficient 1 +
      -(4 * p.coefficient 2 * p.coefficient 0)).isFinite := hd
  obtain ⟨hsquare, hproduct⟩ := isFinite_of_sub hd
  have hzero : units (4 * p.coefficient 2 * p.coefficient 0) = 0 := by
    rw [units_mul hproduct, units_of_toInt? hw.constant, hc, zero_mul, mul_zero]
    exact zero_mul _
  have hunits : units p.discriminant = units (p.coefficient 1 * p.coefficient 1) := by
    have hsum := units_add hparts
    rw [units_neg, hzero, neg_zero, add_zero, nearestUnits_of_onGrid (onGrid_units hsquare)] at hsum
    exact hsum
  have hpos : 0 < units p.discriminant := (lt_iff_units rfl hd).1 ho.positive
  have hsame : p.discriminant.sqrt = (p.coefficient 1 * p.coefficient 1).sqrt := by
    rw [sqrt_of_units_pos hd hpos, sqrt_of_units_pos hsquare (hunits ▸ hpos), hunits]
  have hb : b ≠ 0 := by
    rintro rfl
    rw [hunits, units_mul hsquare, units_of_toInt? hw.middle, zero_mul, zero_mul] at hpos
    exact absurd (hpos.trans_eq (zero_mul _)) (lt_irrefl 0)
  have hsmall : leastNormal ≤ value (p.coefficient 1) * value (p.coefficient 1) := by
    have hbb : value (p.coefficient 1) * value (p.coefficient 1) = ((b * b : Int) : ℚ) := by
      rw [value_of_toInt? hw.middle, Int.cast_mul]
    have hnonneg : (0 : ℚ) ≤ ((b * b : Int) : ℚ) := by exact_mod_cast mul_self_nonneg b
    rw [hbb, ← abs_of_nonneg hnonneg]
    refine (eq_zero_or_leastNormal_le _).resolve_left ?_
    exact_mod_cast mul_ne_zero hb hb
  rw [hsame]
  exact (units_sqrt_mul_self hsquare hsmall).2

theorem HasWholeCoefficients.value_root_zero {o : Outcome} (ho : p.IsPair o) {r : Binary64}
    (hcancel : units r = units (p.coefficient 1))
    (hx : ((-p.coefficient 1 + r) / (2 * p.coefficient 2)).isFinite) :
    value ((-p.coefficient 1 + r) / (2 * p.coefficient 2)) = 0 := by
  have hnumerator := isFinite_of_div hx
  have hzero : value (-p.coefficient 1 + r) = 0 := by
    have hunits : units (-p.coefficient 1 + r) = 0 := by
      rw [units_add hnumerator, units_neg, hcancel, neg_add_cancel]
      exact zero_mul _
    rw [value, hunits, Int.cast_zero, zero_div]
  have happrox := approximates_div hx (isFinite_divisor ho.discriminant)
    (isZero_two_mul hw.isZero_lead) (Or.inl hzero)
  rw [hzero, zero_div, Approximates, sub_zero] at happrox
  simpa using happrox

/-- A root of the formula is near a root, unless nearly equal numbers are subtracted that are
rounded. -/
theorem HasWholeCoefficients.isNearRoot {o : Outcome} (ho : p.IsPair o) (ha : |a| ≤ 10 ^ 9)
    {r : Binary64} (hr : r = p.discriminant.sqrt ∨ r = -p.discriminant.sqrt)
    (hx : ((-p.coefficient 1 + r) / (2 * p.coefficient 2)).isFinite)
    (hsafe : units r * b ≤ 0 ∨ c = 0 ∨ IsBalanced a b c) :
    IsNearRoot a b c ((-p.coefficient 1 + r) / (2 * p.coefficient 2)) := by
  have hformula := hw.roundedFormula ho ha hr hx
  by_cases hsign : units r * b ≤ 0
  · apply hformula.isNearRoot_of_not_opposite
    have hproduct : value r * b ≤ 0 := by
      rw [value, div_mul_eq_mul_div]
      exact div_nonpos_of_nonpos_of_nonneg (by exact_mod_cast hsign) unitsPerOne_posQ.le
    have hsides := (abs_add_eq_add_abs_iff (value r) (-(b : ℚ))).2 (by
      rw [neg_nonneg, neg_nonpos]
      exact mul_nonpos_iff.1 hproduct)
    rw [← sub_eq_add_neg] at hsides
    simpa using hsides
  rcases hsafe.resolve_left hsign with rfl | hbalanced
  · apply isNearRoot_zero
    apply hw.value_root_zero ho _ hx
    have hroot := hw.units_root ho rfl
    have hone : (0 : Int) < unitsPerOne := Int.natCast_pos.2 unitsPerOne_pos
    rw [units_of_toInt? hw.middle] at hroot ⊢
    rcases hr with rfl | rfl
    · have hb : 0 < b := by
        by_contra hb
        exact hsign (mul_nonpos_of_nonneg_of_nonpos (units_sqrt_nonneg _) (Int.not_lt.1 hb))
      have := mul_pos hb hone
      omega
    · rw [units_neg] at hsign ⊢
      have hb : b < 0 := by
        by_contra hb
        exact hsign (mul_nonpos_of_nonpos_of_nonneg (neg_nonpos.2 (units_sqrt_nonneg _))
          (Int.not_lt.1 hb))
      have := mul_neg_of_neg_of_pos hb hone
      omega
  · exact hformula.isNearRoot_of_balanced hbalanced

end

/-- Two real roots of a polynomial with whole coefficients. At each of them the value is small beside
the terms of the discriminant. It is small beside its own terms at the root where nothing cancels in
the formula, and at both if there is no constant term or the coefficients are balanced. -/
theorem nearRoots_of_solve (hw : p.HasWholeCoefficients a b c) (ha : |a| ≤ 10 ^ 9)
    (h : p.solve = .ok o) (hkind : o.kind = .pair) :
    ∃ x y, o.roots = [.real x, .real y] ∧
      (∀ r ∈ [x, y], r.isFinite ∧
        |quadraticAt a b c (value r)| ≤ 1 / 2 ^ 49 * (b ^ 2 / (4 * |(a : ℚ)|) + |(c : ℚ)|)) ∧
      (b ≤ 0 ∨ c = 0 ∨ IsBalanced a b c → IsNearRoot a b c x) ∧
      (0 ≤ b ∨ c = 0 ∨ IsBalanced a b c → IsNearRoot a b c y) := by
  have ho := isPair_of_solve h hkind hw.isZero_lead
  have hfirst := ho.finite (.real _) (by rw [ho.roots]; exact List.mem_cons_self)
  have hsecond := ho.finite (.real _)
    (by rw [ho.roots]; exact List.mem_cons_of_mem _ List.mem_cons_self)
  have hnonneg := units_sqrt_nonneg p.discriminant
  refine ⟨_, _, ho.roots, fun r hr => ?_, fun hsafe => ?_, fun hsafe => ?_⟩
  · rcases List.mem_pair.1 hr with rfl | rfl
    · exact ⟨hfirst, (hw.roundedFormula ho ha (Or.inl rfl) hfirst).quadraticAt_le⟩
    · exact ⟨hsecond, (hw.roundedFormula ho ha (Or.inr rfl) hsecond).quadraticAt_le⟩
  · refine hw.isNearRoot ho ha (Or.inl rfl) hfirst (hsafe.imp_left fun hb => ?_)
    exact mul_nonpos_of_nonneg_of_nonpos hnonneg hb
  · refine hw.isNearRoot ho ha (Or.inr rfl) hsecond (hsafe.imp_left fun hb => ?_)
    rw [units_neg]
    exact mul_nonpos_of_nonpos_of_nonneg (neg_nonpos.2 hnonneg) hb

/-- The polynomial `a * x ^ 2 + b * x + c`. -/
def ofWhole (a b c : Int) : Polynomial := ofTerms [⟨.ofInt c, 0⟩, ⟨.ofInt b, 1⟩, ⟨.ofInt a, 2⟩]

/-- Both roots of `x ^ 2 - 3 * x + 2`. -/
theorem nearRoots_of_balanced :
    ∃ o, (ofWhole 1 (-3) 2).solve = .ok o ∧
      ∃ x y, o.roots = [.real x, .real y] ∧ IsNearRoot 1 (-3) 2 x ∧ IsNearRoot 1 (-3) 2 y := by
  have hsolve : (ofWhole 1 (-3) 2).solve = .ok ⟨.pair, 2, some 1, [.real 2, .real 1]⟩ := by
    decide +kernel
  have hw : (ofWhole 1 (-3) 2).HasWholeCoefficients 1 (-3) 2 := {
    lead := by decide +kernel
    middle := by decide +kernel
    constant := by decide +kernel
    lead_ne := by decide }
  have hbalanced : IsBalanced 1 (-3) 2 := by
    unfold IsBalanced
    decide
  obtain ⟨x, y, hroots, -, hx, hy⟩ := nearRoots_of_solve hw (by decide) hsolve rfl
  exact ⟨_, hsolve, x, y, hroots, hx (Or.inr (Or.inr hbalanced)), hy (Or.inr (Or.inr hbalanced))⟩

/-- The first root of `x ^ 2 + 1000000000 * x + 1` is lost: zero is reported, where the value is as
large as its terms. -/
theorem not_isNearRoot_of_wideMiddle :
    (ofWhole 1 1000000000 1).HasWholeCoefficients 1 1000000000 1 ∧
      ∃ o, (ofWhole 1 1000000000 1).solve = .ok o ∧ o.kind = .pair ∧
        ∃ x, .real x ∈ o.roots ∧ ¬ IsNearRoot 1 1000000000 1 x := by
  have hw : (ofWhole 1 1000000000 1).HasWholeCoefficients 1 1000000000 1 := {
    lead := by decide +kernel
    middle := by decide +kernel
    constant := by decide +kernel
    lead_ne := by decide }
  have hsolve : (ofWhole 1 1000000000 1).solve =
      .ok ⟨.pair, 2, some (.ofNat (10 ^ 18)), [.real .zero, .real (.ofInt (-1000000000))]⟩ := by
    decide +kernel
  refine ⟨hw, _, hsolve, rfl, .zero, List.mem_cons_self, ?_⟩
  have hzero : value .zero = 0 := zero_div _
  unfold IsNearRoot quadraticAt termsAt
  rw [hzero]
  norm_num

end Polynomial

end PolySolve
