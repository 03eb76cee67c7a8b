import PolySolve.Proofs.Binary64.Error

/-!
# Arithmetic on whole numbers

A whole number of a magnitude up to `2 ^ 53` is a value, so operations on whole
numbers whose result is such a number are not rounded, and neither are the
operations before it. What is needed of the operands is that they are whole
numbers themselves: sums, differences and products, quotients without a
remainder, square roots of squares.

* `toInt?_eq_some_iff`: what it is to be a whole number;
* `toInt?_add`, `toInt?_sub`, `toInt?_mul`, `toInt?_div`, `toInt?_sqrt`: exact operations;
* `lt_iff_of_toInt?`: the order of whole numbers.
-/

namespace PolySolve.Binary64

-- The elaborator must not evaluate these powers of two.
attribute [local irreducible] overflowUnits unitsPerOne

variable {x y : Binary64} {m n : Int}

/-! ## Whole numbers -/

theorem toInt?_eq_some_iff : x.toInt? = some n ↔ x.isFinite ∧ units x = n * unitsPerOne := by
  cases x with
  | nan => exact ⟨fun h => by contradiction, fun h => absurd h.1 Bool.false_ne_true⟩
  | infinite s => exact ⟨fun h => by contradiction, fun h => absurd h.1 Bool.false_ne_true⟩
  | finite s k hk b =>
    have htoInt : (finite s k hk b).toInt? = if unitsPerOne ∣ k
        then some (signedUnits s (k / unitsPerOne)) else none := rfl
    have hscale (j : Nat) : signedUnits s j * unitsPerOne = signedUnits s (j * unitsPerOne) := by
      cases s <;> simp
    have hone : (unitsPerOne : Int) ≠ 0 := Int.natCast_ne_zero.2 unitsPerOne_pos.ne'
    rw [htoInt, units_finite]
    by_cases hdvd : unitsPerOne ∣ k
    · rw [if_pos hdvd, Option.some.injEq, ← mul_left_inj' hone, hscale, Nat.div_mul_cancel hdvd]
      exact ⟨fun h => ⟨rfl, h⟩, fun h => h.2⟩
    · rw [if_neg hdvd]
      refine ⟨fun h => by contradiction, fun h => absurd ?_ hdvd⟩
      have habs : k = n.natAbs * unitsPerOne := by
        rw [← Int.natAbs_natCast unitsPerOne, ← Int.natAbs_mul, ← h.2]
        cases s <;> simp
      exact Dvd.intro_left _ habs.symm

theorem isFinite_of_toInt? (h : x.toInt? = some n) : x.isFinite := (toInt?_eq_some_iff.1 h).1

theorem units_of_toInt? (h : x.toInt? = some n) : units x = n * unitsPerOne :=
  (toInt?_eq_some_iff.1 h).2

theorem value_of_toInt? (h : x.toInt? = some n) : value x = n := by
  rw [value, units_of_toInt? h, Int.cast_mul, Int.cast_natCast,
    mul_div_cancel_right₀ _ unitsPerOne_posQ.ne']

/-- A whole number is zero or not small. -/
theorem eq_zero_or_leastNormal_le (n : Int) : (n : ℚ) = 0 ∨ leastNormal ≤ |(n : ℚ)| := by
  by_cases h0 : n = 0
  · exact Or.inl (by rw [h0, Int.cast_zero])
  · right
    have hsmall : leastNormal ≤ 1 := by
      rw [leastNormal, div_le_one unitsPerOne_posQ, unitsPerOne]
      exact_mod_cast twoPow_le_of_le (by decide)
    have hone : (1 : ℚ) ≤ |(n : ℚ)| := by exact_mod_cast Int.one_le_abs h0
    exact hsmall.trans hone

theorem twoPow_lt_of_lt {j k : Nat} (h : j < k) : twoPow j < twoPow k :=
  Nat.pow_lt_pow_right (by decide) h

theorem natAbs_mul_unitsPerOne (n : Int) :
    (n * unitsPerOne).natAbs = n.natAbs * unitsPerOne := by
  rw [Int.natAbs_mul, Int.natAbs_natCast]

/-- Whole numbers up to `2 ^ 53` are values. -/
theorem onGrid_of_abs_le (h : |n| ≤ 2 ^ 53) :
    OnGrid (n * unitsPerOne).natAbs ∧ (n * unitsPerOne).natAbs < overflowUnits := by
  have hle : n.natAbs ≤ twoPow 53 := by
    rw [Int.abs_eq_natAbs] at h
    exact_mod_cast h
  rw [natAbs_mul_unitsPerOne, Nat.mul_comm, unitsPerOne]
  refine ⟨onGrid_twoPow_mul_of_le unitPlaces hle, ?_⟩
  calc twoPow unitPlaces * n.natAbs ≤ twoPow unitPlaces * twoPow 53 := Nat.mul_le_mul_left _ hle
    _ = twoPow (unitPlaces + 53) := (twoPow_add _ _).symm
    _ < overflowUnits := by
      rw [overflowUnits]
      exact twoPow_lt_of_lt (by decide)

/-! ## The order -/

theorem lt_iff_of_toInt? (hx : x.toInt? = some m) (hy : y.toInt? = some n) : x < y ↔ m < n := by
  rw [lt_iff_units (isFinite_of_toInt? hx) (isFinite_of_toInt? hy), units_of_toInt? hx,
    units_of_toInt? hy]
  exact mul_lt_mul_iff_of_pos_right (Int.natCast_pos.2 unitsPerOne_pos)

theorem isZero_iff_of_toInt? (h : x.toInt? = some n) : x.isZero ↔ n = 0 := by
  rw [isZero_iff, units_of_toInt? h, mul_eq_zero,
    or_iff_left (Int.natCast_ne_zero.2 unitsPerOne_pos.ne')]
  exact ⟨fun h => h.2, fun h0 => ⟨isFinite_of_toInt? h, h0⟩⟩

/-! ## Exact operations -/

theorem toInt?_ofInt (h : |n| ≤ 2 ^ 53) : (ofInt n).toInt? = some n := by
  obtain ⟨hgrid, hrange⟩ := onGrid_of_abs_le h
  rw [natAbs_mul_unitsPerOne] at hgrid hrange
  have hvalue : ofInt n = finite (n < 0) (n.natAbs * unitsPerOne) hgrid hrange :=
    round_one hgrid hrange _
  rw [toInt?_eq_some_iff, hvalue, units_finite]
  refine ⟨rfl, ?_⟩
  rcases Int.lt_or_le n 0 with hneg | hnonneg
  · rw [decide_eq_true hneg, signedUnits_true, Nat.cast_mul]
    have habs : (n.natAbs : Int) = -n := by omega
    rw [habs, neg_mul, Int.neg_neg]
  · rw [decide_eq_false (Int.not_lt.2 hnonneg), signedUnits_false, Nat.cast_mul,
      Int.natAbs_of_nonneg hnonneg]

theorem toInt?_ofNat {n : Nat} (h : n ≤ 2 ^ 53) : (ofNat n).toInt? = some n := by
  have hint : ofNat n = ofInt n := by
    rw [ofInt, decide_eq_false (Int.not_lt.2 (Int.natCast_nonneg n)), Int.natAbs_natCast]
    rfl
  rw [hint]
  apply toInt?_ofInt
  rw [Nat.abs_cast]
  exact_mod_cast h

theorem toInt?_zero : zero.toInt? = some 0 :=
  toInt?_eq_some_iff.2 ⟨rfl, by rw [units_zero, zero_mul]⟩

theorem toInt?_one : (1 : Binary64).toInt? = some 1 := toInt?_ofNat (n := 1) (by decide)

theorem toInt?_two : (2 : Binary64).toInt? = some 2 := by
  obtain ⟨h, b, htwo⟩ := exists_two
  rw [htwo, toInt?_eq_some_iff, units_finite, signedUnits_false, Nat.cast_mul]
  exact ⟨rfl, rfl⟩

theorem toInt?_four : (4 : Binary64).toInt? = some 4 := by
  obtain ⟨h, b, hfour⟩ := exists_four
  rw [hfour, toInt?_eq_some_iff, units_finite, signedUnits_false, Nat.cast_mul]
  exact ⟨rfl, rfl⟩

theorem toInt?_neg (h : x.toInt? = some n) : (-x).toInt? = some (-n) := by
  rw [toInt?_eq_some_iff, isFinite_neg, units_neg, units_of_toInt? h, neg_mul]
  exact ⟨isFinite_of_toInt? h, rfl⟩

theorem toInt?_add (hx : x.toInt? = some m) (hy : y.toInt? = some n) (h : |m + n| ≤ 2 ^ 53) :
    (x + y).toInt? = some (m + n) := by
  obtain ⟨hgrid, hrange⟩ := onGrid_of_abs_le h
  have hsum : units x + units y = (m + n) * unitsPerOne := by
    rw [units_of_toInt? hx, units_of_toInt? hy, add_mul]
  rw [toInt?_eq_some_iff, ← hsum]
  rw [← hsum] at hgrid hrange
  exact units_add_of_onGrid (isFinite_of_toInt? hx) (isFinite_of_toInt? hy) hgrid hrange

theorem toInt?_sub (hx : x.toInt? = some m) (hy : y.toInt? = some n) (h : |m - n| ≤ 2 ^ 53) :
    (x - y).toInt? = some (m - n) :=
  toInt?_add hx (toInt?_neg hy) h

theorem toInt?_unsignedZero (h : x.toInt? = some n) (hn : |n| ≤ 2 ^ 53) :
    x.unsignedZero.toInt? = some n := by
  have hsum := toInt?_add h toInt?_zero (by rwa [add_zero])
  rwa [add_zero] at hsum

theorem toInt?_mul (hx : x.toInt? = some m) (hy : y.toInt? = some n) (h : |m * n| ≤ 2 ^ 53) :
    (x * y).toInt? = some (m * n) := by
  obtain ⟨hgrid, hrange⟩ := onGrid_of_abs_le h
  have hproduct : units x * units y = m * n * unitsPerOne * unitsPerOne := by
    rw [units_of_toInt? hx, units_of_toInt? hy]
    ring
  rw [toInt?_eq_some_iff]
  exact units_mul_of_onGrid (isFinite_of_toInt? hx) (isFinite_of_toInt? hy) hproduct hgrid hrange

/-- A quotient without a remainder. -/
theorem toInt?_div (hx : x.toInt? = some (m * n)) (hy : y.toInt? = some n) (h0 : n ≠ 0)
    (h : |m| ≤ 2 ^ 53) : (x / y).toInt? = some m := by
  obtain ⟨hgrid, hrange⟩ := onGrid_of_abs_le h
  have hunits : units y ≠ 0 := by
    rw [units_of_toInt? hy]
    exact mul_ne_zero h0 (Int.natCast_ne_zero.2 unitsPerOne_pos.ne')
  have hquotient : units x * unitsPerOne = m * unitsPerOne * units y := by
    rw [units_of_toInt? hx, units_of_toInt? hy]
    ring
  rw [toInt?_eq_some_iff]
  exact units_div_of_onGrid (isFinite_of_toInt? hx) (isFinite_of_toInt? hy) hunits hquotient hgrid
    hrange

theorem sqrt_of_isZero (h : x.isZero) : x.sqrt = x := by
  cases x with
  | nan => contradiction
  | infinite s => contradiction
  | finite s n hn b => exact if_pos (beq_iff_eq.1 h)

/-- The square root of a square. -/
theorem toInt?_sqrt (hx : x.toInt? = some (n * n)) (hn : 0 ≤ n) (h : n ≤ 2 ^ 53) :
    x.sqrt.toInt? = some n := by
  obtain rfl | hpos := hn.eq_or_lt
  · rwa [sqrt_of_isZero ((isZero_iff_of_toInt? hx).2 rfl)]
  obtain ⟨hgrid, hrange⟩ := onGrid_of_abs_le (n := n) (by rwa [abs_of_nonneg hn])
  have hunits : 0 < units x := by
    rw [units_of_toInt? hx]
    exact mul_pos (mul_pos hpos hpos) (Int.natCast_pos.2 unitsPerOne_pos)
  have hsquare : (units x).natAbs * unitsPerOne =
      (n * unitsPerOne).natAbs * (n * unitsPerOne).natAbs := by
    rw [units_of_toInt? hx, natAbs_mul_unitsPerOne, natAbs_mul_unitsPerOne, Int.natAbs_mul]
    ring
  have hlarge : twoPow 52 ≤ (n * unitsPerOne).natAbs := by
    rw [natAbs_mul_unitsPerOne, unitsPerOne]
    exact (twoPow_le_of_le (by decide)).trans (Nat.le_mul_of_pos_left _ (by omega))
  have hroot : roundRoot ((units x).natAbs * unitsPerOne) = (n * unitsPerOne).natAbs := by
    rw [hsquare]
    exact roundRoot_of_near hgrid hlarge (by simp) fun hlt => absurd hlt (Nat.lt_irrefl _)
  have hfinite : (roundSqrt ((units x).natAbs * unitsPerOne)).isFinite := by
    rwa [roundSqrt, isFinite_ofUnits_iff, hroot]
  rw [toInt?_eq_some_iff, sqrt_of_units_pos (isFinite_of_toInt? hx) hunits]
  refine ⟨hfinite, ?_⟩
  rw [units_roundSqrt hfinite, hroot, Int.natAbs_of_nonneg]
  exact mul_nonneg hn (Int.natCast_nonneg _)

end PolySolve.Binary64
