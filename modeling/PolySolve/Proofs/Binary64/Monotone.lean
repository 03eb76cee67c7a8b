import PolySolve.Proofs.Binary64.Bounds

/-!
# Results in the order of the exact ones

Rounding keeps the order and does not change a value. So two sums, or two products, are in the order
of the exact ones, and a result is in range and not beyond a value if the exact one is not beyond it.

* `value_le_iff`, `le_iff_value`: the order of fractions;
* `isFinite_add_of_le`, `isFinite_mul_of_le`, `isFinite_div_of_le`: results in range;
* `value_mul_eq_zero`, `value_div_eq_zero`: zero results;
* `value_add_mono`, `value_mul_mono`: results in order;
* `value_add_le`, `le_value_add`: sums that are not beyond a value.
-/

namespace PolySolve.Binary64

-- The elaborator must not evaluate these powers of two.
attribute [local irreducible] overflowUnits unitsPerOne

variable {x y z x' y' : Binary64}

/-! ## Fractions -/

theorem units_eq_value_mul (x : Binary64) : (units x : ℚ) = value x * unitsPerOne :=
  (div_mul_cancel₀ _ unitsPerOne_posQ.ne').symm

theorem abs_value_mul_unitsPerOne (x : Binary64) :
    |value x| * unitsPerOne = (units x).natAbs := by
  rw [← abs_of_pos unitsPerOne_posQ, ← abs_mul, ← units_eq_value_mul, ← Int.cast_abs,
    Int.abs_eq_natAbs, Int.cast_natCast]

theorem value_eq_zero_iff : value x = 0 ↔ units x = 0 := by
  rw [value, div_eq_zero_iff, or_iff_left unitsPerOne_posQ.ne', Int.cast_eq_zero]

theorem value_zero : value zero = 0 := value_eq_zero_iff.2 units_zero

theorem value_one : value 1 = 1 := by rw [value_of_toInt? toInt?_one, Int.cast_one]

theorem isZero_iff_value : x.isZero ↔ x.isFinite ∧ value x = 0 := by
  rw [isZero_iff, value_eq_zero_iff]

theorem value_le_iff : value x ≤ value y ↔ units x ≤ units y := by
  rw [value, value, div_le_div_iff_of_pos_right unitsPerOne_posQ, Int.cast_le]

theorem value_lt_iff : value x < value y ↔ units x < units y := by
  rw [← not_le, value_le_iff, not_le]

theorem value_nonneg_iff : 0 ≤ value x ↔ 0 ≤ units x := by
  rw [← value_zero, value_le_iff, units_zero]

theorem le_iff_value (hx : x.isFinite) (hy : y.isFinite) : x ≤ y ↔ value x ≤ value y := by
  rw [le_iff_units hx hy, value_le_iff]

theorem lt_iff_value (hx : x.isFinite) (hy : y.isFinite) : x < y ↔ value x < value y := by
  rw [lt_iff_units hx hy, value_lt_iff]

theorem value_neg_iff (h : x.isFinite) : value x < 0 ↔ x < zero := by
  rw [lt_iff_value h rfl, value_zero]

/-! ## Results in range -/

theorem isFinite_add_of_le (hx : x.isFinite) (hy : y.isFinite) (hz : z.isFinite)
    (h : |value x + value y| ≤ |value z|) : (x + y).isFinite := by
  apply isFinite_add hx hy
  refine (roundQuotient_le_of_onGrid (onGrid_units hz) Nat.one_pos ?_).trans_lt (natAbs_units_lt hz)
  have hscaled := mul_le_mul_of_nonneg_right h unitsPerOne_posQ.le
  have hsum : |value x + value y| * unitsPerOne = (units x + units y).natAbs := by
    rw [← abs_of_pos unitsPerOne_posQ, ← abs_mul, add_mul, ← units_eq_value_mul,
      ← units_eq_value_mul, ← Int.cast_add, ← Int.cast_abs, Int.abs_eq_natAbs, Int.cast_natCast]
  rw [hsum, abs_value_mul_unitsPerOne] at hscaled
  rw [Nat.mul_one]
  exact_mod_cast hscaled

theorem isFinite_mul_of_le (hx : x.isFinite) (hy : y.isFinite) (hz : z.isFinite)
    (h : |value x * value y| ≤ |value z|) : (x * y).isFinite := by
  apply isFinite_mul hx hy
  refine (roundQuotient_le_of_onGrid (onGrid_units hz) unitsPerOne_pos ?_).trans_lt
    (natAbs_units_lt hz)
  have hscaled := mul_le_mul_of_nonneg_right
    (mul_le_mul_of_nonneg_right h unitsPerOne_posQ.le) unitsPerOne_posQ.le
  have hproduct : |value x * value y| * unitsPerOne * unitsPerOne =
      |value x| * unitsPerOne * (|value y| * unitsPerOne) := by
    rw [abs_mul]
    ring
  rw [hproduct, abs_value_mul_unitsPerOne, abs_value_mul_unitsPerOne,
    abs_value_mul_unitsPerOne] at hscaled
  rw [Int.natAbs_mul]
  exact_mod_cast hscaled

theorem isFinite_div_of_le (hx : x.isFinite) (hy : y.isFinite) (hz : z.isFinite)
    (h0 : units y ≠ 0) (h : |value x| ≤ |value z| * |value y|) : (x / y).isFinite := by
  apply isFinite_div hx hy h0
  refine (roundQuotient_le_of_onGrid (onGrid_units hz) (Int.natAbs_pos.2 h0) ?_).trans_lt
    (natAbs_units_lt hz)
  have hscaled := mul_le_mul_of_nonneg_right
    (mul_le_mul_of_nonneg_right h unitsPerOne_posQ.le) unitsPerOne_posQ.le
  have hproduct : |value z| * |value y| * unitsPerOne * unitsPerOne =
      |value z| * unitsPerOne * (|value y| * unitsPerOne) := by ring
  rw [hproduct, abs_value_mul_unitsPerOne, abs_value_mul_unitsPerOne,
    abs_value_mul_unitsPerOne] at hscaled
  exact_mod_cast hscaled

/-! ## Zero results -/

theorem value_mul_eq_zero (h : (x * y).isFinite) (h0 : value x * value y = 0) :
    value (x * y) = 0 := by
  have happrox := approximates_mul h (Or.inl h0)
  rw [h0] at happrox
  exact happrox.eq_zero

theorem value_div_eq_zero (h : (x / y).isFinite) (hy : y.isFinite) (hy0 : y.isZero = false)
    (h0 : value x = 0) : value (x / y) = 0 := by
  have happrox := approximates_div h hy hy0 (Or.inl h0)
  rw [h0, zero_div] at happrox
  exact happrox.eq_zero

/-! ## Results in order -/

theorem value_add_mono (h : (x + y).isFinite) (h' : (x' + y').isFinite)
    (hle : value x + value y ≤ value x' + value y') : value (x + y) ≤ value (x' + y') := by
  rw [value_le_iff, units_add h, units_add h']
  apply nearestUnits_mono Nat.one_pos
  have hscaled := mul_le_mul_of_nonneg_right hle unitsPerOne_posQ.le
  simp only [add_mul, ← units_eq_value_mul] at hscaled
  exact_mod_cast hscaled

theorem value_mul_mono (h : (x * y).isFinite) (h' : (x' * y').isFinite)
    (hle : value x * value y ≤ value x' * value y') : value (x * y) ≤ value (x' * y') := by
  rw [value_le_iff, units_mul h, units_mul h']
  apply nearestUnits_mono unitsPerOne_pos
  have hscaled := mul_le_mul_of_nonneg_right hle (mul_pos unitsPerOne_posQ unitsPerOne_posQ).le
  simp only [mul_mul_mul_comm, ← units_eq_value_mul] at hscaled
  exact_mod_cast hscaled

theorem value_unsignedZero (x : Binary64) : value x.unsignedZero = value x := by
  cases hz : x.isZero with
  | false => rw [unsignedZero_of_isZero hz]
  | true => rw [unsignedZero_eq_zero hz, value_zero,
      (isZero_iff_value.1 hz).2]

theorem value_add_le (h : (x + y).isFinite) (hz : z.isFinite)
    (hle : value x + value y ≤ value z) : value (x + y) ≤ value z := by
  rw [← value_unsignedZero z]
  refine value_add_mono h ((isFinite_unsignedZero z).trans hz) ?_
  rwa [value_zero, add_zero]

theorem le_value_add (h : (x + y).isFinite) (hz : z.isFinite)
    (hle : value z ≤ value x + value y) : value z ≤ value (x + y) := by
  rw [← value_unsignedZero z]
  refine value_add_mono ((isFinite_unsignedZero z).trans hz) h ?_
  rwa [value_zero, add_zero]

end PolySolve.Binary64
