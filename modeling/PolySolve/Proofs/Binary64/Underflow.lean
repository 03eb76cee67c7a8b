import PolySolve.Proofs.Binary64.Monotone

/-!
# Results that are not lost

A result is lost if it is not zero and is rounded to zero. A sum of values is never lost, and it is
not even small beside them: two different values are apart by a share `2⁻⁵³` of each of them. A
product is not lost if one factor has a magnitude of `2⁵²` or more, and a quotient not if it is more
than a half of the least value.

* `le_twoPow_mul_sub`: how far two magnitudes on the grid are apart;
* `value_le_of_sub_neg`: a negative difference is not small beside what is taken away;
* `abs_value_le_of_mul`: a product with a large factor;
* `units_div_ne`: a quotient that is not rounded to zero.
-/

namespace PolySolve.Binary64

-- The elaborator must not evaluate these powers of two.
attribute [local irreducible] overflowUnits unitsPerOne

/-! ## Gaps -/

/-- A magnitude is at most `2 ^ 53` times as large as its distance from a smaller one. -/
theorem le_twoPow_mul_sub {m n : Nat} (hm : OnGrid m) (hn : OnGrid n) (h : m < n) :
    n ≤ twoPow 53 * (n - m) := by
  have hnext : m + spacing m ≤ n := add_spacing_le hm hn h
  have hbits : m / spacing m + 1 ≤ twoPow 53 := div_spacing_lt m
  calc n = spacing m * (m / spacing m) + (n - m) := by
        rw [Nat.mul_div_cancel' hm]
        omega
    _ ≤ (n - m) * (m / spacing m) + (n - m) :=
        Nat.add_le_add_right (Nat.mul_le_mul_right _ (by omega)) _
    _ = (m / spacing m + 1) * (n - m) := by rw [Nat.succ_mul, Nat.mul_comm]
    _ ≤ twoPow 53 * (n - m) := Nat.mul_le_mul_right _ hbits

variable {x y : Binary64}

/-- The same of values that are not below zero. -/
theorem value_le_mul_sub (hx : x.isFinite) (hy : y.isFinite) (h0 : 0 ≤ value x)
    (h : value x < value y) : value y ≤ 2 ^ 53 * (value y - value x) := by
  rw [value_nonneg_iff] at h0
  rw [value_lt_iff] at h
  have hgap := le_twoPow_mul_sub (onGrid_units hx) (onGrid_units hy) (by omega)
  have hunits : units y ≤ twoPow 53 * (units y - units x) := by
    zify [show (units x).natAbs ≤ (units y).natAbs by omega] at hgap
    rwa [abs_of_nonneg h0, abs_of_nonneg (by omega)] at hgap
  rw [value, value, ← sub_div, ← mul_div_assoc, div_le_div_iff_of_pos_right unitsPerOne_posQ,
    ← cast_twoPow]
  exact_mod_cast hunits

/-- Two values are not closer to each other than a share `2⁻⁵³` of each of them. -/
theorem abs_value_le_mul_sub (hx : x.isFinite) (hy : y.isFinite) (h : value x < value y) :
    |value x| ≤ 2 ^ 53 * (value y - value x) ∧ |value y| ≤ 2 ^ 53 * (value y - value x) := by
  rcases le_or_gt 0 (value x) with h0 | hxneg
  · have hgap := value_le_mul_sub hx hy h0 h
    rw [abs_of_nonneg h0, abs_of_nonneg (h0.trans h.le)]
    exact ⟨h.le.trans hgap, hgap⟩
  rcases le_or_gt (value y) 0 with h0 | hypos
  · have hgap := value_le_mul_sub (x := -y) (y := -x) ((isFinite_neg y).trans hy)
      ((isFinite_neg x).trans hx) (by rw [value_neg]; linarith) (by rw [value_neg, value_neg]; linarith)
    rw [value_neg, value_neg, neg_sub_neg] at hgap
    rw [abs_of_neg hxneg, abs_of_nonpos h0]
    exact ⟨hgap, by linarith⟩
  · rw [abs_of_neg hxneg, abs_of_pos hypos]
    constructor <;> linarith

/-! ## Magnitudes -/

/-- No value but zero has a magnitude below one unit. -/
theorem one_le_abs_value_mul (h : units x ≠ 0) : 1 ≤ |value x| * unitsPerOne := by
  rw [abs_value_mul_unitsPerOne]
  exact_mod_cast Int.natAbs_pos.2 h

/-- There are more places below the point than above it, by 50. -/
theorem abs_value_mul_lt (h : x.isFinite) : |value x| * 2 ^ 50 < unitsPerOne := by
  have hrange := natAbs_units_lt h
  have hplaces : overflowUnits * twoPow 50 = unitsPerOne * unitsPerOne := by
    rw [overflowUnits, unitsPerOne, ← twoPow_add, ← twoPow_add]
    rfl
  have hscaled := Nat.mul_lt_mul_of_pos_right hrange (twoPow_pos 50)
  rw [hplaces] at hscaled
  refine lt_of_mul_lt_mul_right ?_ unitsPerOne_posQ.le
  rw [mul_right_comm, abs_value_mul_unitsPerOne, ← cast_twoPow]
  exact_mod_cast hscaled

/-! ## Results -/

/-- A difference is rounded to what is below zero only if it is below zero. -/
theorem value_lt_of_sub_neg (h : (x - y).isFinite) (hneg : x - y < zero) : value x < value y := by
  rw [← value_neg_iff h, ← value_zero] at hneg
  by_contra hle
  have hnonneg : value zero ≤ value (x + -y) := by
    apply le_value_add h rfl
    rw [value_neg, value_zero]
    linarith
  exact absurd hneg (not_lt.2 hnonneg)

/-- A difference below zero is not small beside what is taken away. -/
theorem value_le_of_sub_neg (h : (x - y).isFinite) (h0 : 0 ≤ value x) (hneg : x - y < zero) :
    (1 - roundoff) * value y ≤ 2 ^ 53 * -value (x - y) := by
  obtain ⟨hx, hy⟩ := isFinite_of_sub h
  have hexact := value_lt_of_sub_neg h hneg
  have hgap := mul_le_mul_of_nonneg_left (value_le_mul_sub hx hy h0 hexact) one_sub_roundoff_pos.le
  have hrounded := (approximates_sub h).abs_le
  rw [abs_of_neg ((value_neg_iff h).2 hneg), abs_of_neg (sub_neg.2 hexact)] at hrounded
  linarith

/-- With a large factor, a product is not below this factor times the least value, but for the
rounding. -/
theorem abs_value_le_of_mul (h : (x * y).isFinite) (hx : 2 ^ 52 ≤ |value x|) (hy : units y ≠ 0) :
    (1 - roundoff) * |value x| ≤ |value (x * y)| * unitsPerOne := by
  have hfactor := one_le_abs_value_mul hy
  have hproduct : |value x| ≤ |value x * value y| * unitsPerOne := by
    rw [abs_mul, mul_assoc]
    exact le_mul_of_one_le_right (abs_nonneg _) hfactor
  have hsmall : leastNormal ≤ |value x * value y| := by
    rw [leastNormal, div_le_iff₀ unitsPerOne_posQ, cast_twoPow]
    exact hx.trans hproduct
  have hrounded := (approximates_mul h (Or.inr hsmall)).abs_le
  calc (1 - roundoff) * |value x| ≤ (1 - roundoff) * (|value x * value y| * unitsPerOne) :=
        mul_le_mul_of_nonneg_left hproduct one_sub_roundoff_pos.le
    _ = (1 - roundoff) * |value x * value y| * unitsPerOne := (mul_assoc _ _ _).symm
    _ ≤ |value (x * y)| * unitsPerOne := mul_le_mul_of_nonneg_right hrounded unitsPerOne_posQ.le

theorem roundQuotient_pos {num den : Nat} (hd : 0 < den) (h : den < 2 * num) :
    0 < roundQuotient num den := by
  by_cases hle : den ≤ num
  · exact le_roundQuotient_of_onGrid (onGrid_of_lt (by decide)) hd (by omega)
  · have herror := abs_roundQuotient_sub_le num hd
    have hspacing : spacing (num / den) = 1 := by
      rw [Nat.div_eq_of_lt (Nat.lt_of_not_le hle)]
      rfl
    have hhalf : (1 : ℚ) / 2 < num / den := by
      rw [div_lt_div_iff₀ two_pos (by exact_mod_cast hd)]
      exact_mod_cast (by omega : 1 * den < num * 2)
    rw [hspacing, Nat.cast_one] at herror
    rw [Nat.pos_iff_ne_zero]
    intro h0
    rw [h0, Nat.cast_zero, abs_sub_comm, sub_zero, abs_of_pos (by linarith)] at herror
    linarith

/-- A quotient of more than a half of the least value is not rounded to zero. -/
theorem units_div_ne (h : (x / y).isFinite) (hy : y.isFinite) (h0 : units y ≠ 0)
    (hlarge : |value y| < 2 * (|value x| * unitsPerOne)) : units (x / y) ≠ 0 := by
  have hquotient : (units y).natAbs < 2 * ((units x).natAbs * unitsPerOne) := by
    have hscaled := mul_lt_mul_of_pos_right hlarge unitsPerOne_posQ
    rw [abs_value_mul_unitsPerOne, mul_assoc, abs_value_mul_unitsPerOne] at hscaled
    exact_mod_cast hscaled
  rw [← Int.natAbs_ne_zero, units_div h hy (isZero_of_units_ne h0), natAbs_nearestUnits,
    Int.natAbs_mul, Int.natAbs_mul, Int.natAbs_natCast, Int.natAbs_sign_of_ne_zero h0, Nat.mul_one]
  exact (roundQuotient_pos (Int.natAbs_pos.2 h0) hquotient).ne'

end PolySolve.Binary64
