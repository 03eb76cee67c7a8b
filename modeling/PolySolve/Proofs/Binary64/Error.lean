import PolySolve.Proofs.Binary64.Exact

/-!
# Rounding errors

Rounding a number to the nearest value changes it by at most `2⁻⁵³` of it, unless it is so small
that the values around it are `2⁻¹⁰⁷⁴` apart and no closer. A sum is never affected by this, because
a sum that small is exact. A square root is never that small.

* `value`: the fraction that a finite value stands for;
* `Approximates`: the relative error is at most `2⁻⁵³`;
* `approximates_add`, `approximates_mul`, `approximates_div`: one operation with its error;
* `sqrt_bounds`: the same of a square root, by its square;
* `roundRoot_of_near`: a value is found again as the root of its rounded square.
-/

namespace PolySolve.Binary64

-- The elaborator must not evaluate these powers of two.
attribute [local irreducible] overflowUnits unitsPerOne

/-! ## Relative errors -/

/-- The largest relative error of rounding to 53 bits. -/
def roundoff : ℚ := 1 / 2 ^ 53

theorem roundoff_pos : 0 < roundoff := by
  unfold roundoff
  positivity

/-- `x` differs from `q` by at most a share `roundoff` of `q`. -/
def Approximates (x q : ℚ) : Prop := |x - q| ≤ roundoff * |q|

theorem Approximates.refl (q : ℚ) : Approximates q q := by
  rw [Approximates, sub_self, abs_zero]
  exact mul_nonneg roundoff_pos.le (abs_nonneg q)

theorem Approximates.neg {x q : ℚ} (h : Approximates x q) : Approximates (-x) (-q) := by
  rw [Approximates] at *
  rw [neg_sub_neg, abs_sub_comm]
  simpa using h

theorem Approximates.div {x q c : ℚ} (h : Approximates x q) (hc : 0 < c) :
    Approximates (x / c) (q / c) := by
  rw [Approximates] at *
  rw [← sub_div, abs_div, abs_div, abs_of_pos hc, ← mul_div_assoc]
  exact div_le_div_of_nonneg_right h hc.le

theorem one_sub_roundoff_pos : 0 < 1 - roundoff := by norm_num [roundoff]

/-- What is left of a magnitude that is rounded down. -/
theorem Approximates.abs_le {x q : ℚ} (h : Approximates x q) : (1 - roundoff) * |q| ≤ |x| := by
  have htriangle := abs_sub_abs_le_abs_sub q x
  rw [abs_sub_comm] at htriangle
  rw [Approximates] at h
  linarith

theorem Approximates.bounds {x q : ℚ} (h : Approximates x q) (hq : 0 ≤ q) :
    (1 - roundoff) * q ≤ x ∧ x ≤ (1 + roundoff) * q := by
  rw [Approximates, abs_of_nonneg hq] at h
  have hbelow := neg_le_of_abs_le h
  have habove := le_of_abs_le h
  constructor <;> linarith

theorem Approximates.eq_zero {x : ℚ} (h : Approximates x 0) : x = 0 := by
  rw [Approximates, abs_zero, mul_zero, sub_zero] at h
  exact abs_nonpos_iff.1 h

/-! ## Magnitudes -/

theorem cast_twoPow (k : Nat) : (twoPow k : ℚ) = 2 ^ k := by
  rw [twoPow]
  exact_mod_cast rfl

theorem abs_roundQuotient_sub_le (num : Nat) {den : Nat} (h : 0 < den) :
    |(roundQuotient num den : ℚ) - num / den| ≤ spacing (num / den) / 2 := by
  have hs := spacing_pos (num / den)
  have hsQ : (0 : ℚ) < spacing (num / den) := by exact_mod_cast hs
  have half : |(roundDiv num (den * spacing (num / den)) : ℚ) -
      num / (den * spacing (num / den) : Nat)| ≤ 1 / 2 := by
    rcases abs_roundDiv_sub num (Nat.mul_pos h hs) with hlt | ⟨heq, -⟩
    · exact hlt.le
    · exact heq.le
  rw [roundQuotient, abs_mul_sub_div num h hs]
  have := mul_le_mul_of_nonneg_left half hsQ.le
  linarith

/-- With 53 bits or more, the spacing is at most `2⁻⁵²` of a magnitude. -/
theorem spacing_mul_le {n : Nat} (h : twoPow 52 ≤ n) : spacing n * twoPow 52 ≤ n := by
  have hn : n ≠ 0 := by
    have := twoPow_pos 52
    omega
  rw [spacing, ← twoPow_add, Nat.sub_add_cancel ((le_log2_iff hn).2 h)]
  exact twoPow_log2_le hn

theorem approximates_roundQuotient {num den : Nat} (hd : 0 < den) (h : twoPow 52 * den ≤ num) :
    Approximates (roundQuotient num den) (num / den) := by
  have hden : (0 : ℚ) < den := by exact_mod_cast hd
  have hspacing : (spacing (num / den) : ℚ) * 2 ^ 52 ≤ num / den := by
    have hfloor := spacing_mul_le ((Nat.le_div_iff_mul_le hd).2 h)
    rw [le_div_iff₀ hden, ← cast_twoPow]
    exact_mod_cast (Nat.le_div_iff_mul_le hd).1 hfloor
  have herror := abs_roundQuotient_sub_le num hd
  have hpos : (0 : ℚ) ≤ num / den := by positivity
  rw [Approximates, abs_of_nonneg hpos, roundoff]
  linarith

/-- A whole number of units is rounded only if it has more than 53 bits. -/
theorem approximates_roundQuotient_one (n : Nat) :
    Approximates (roundQuotient n 1) (n / (1 : Nat)) := by
  by_cases h : twoPow 52 ≤ n
  · exact approximates_roundQuotient Nat.one_pos (by omega)
  · have hgrid : OnGrid n := by
      apply onGrid_of_lt
      rw [twoPow_succ]
      omega
    rw [roundQuotient_one hgrid, Nat.cast_one, div_one]
    exact Approximates.refl _

theorem approximates_nearestUnits {num : Int} {den : Nat}
    (h : Approximates (roundQuotient num.natAbs den) (num.natAbs / den)) :
    Approximates (nearestUnits num den) (num / den) := by
  rcases Int.natAbs_eq num with e | e
  all_goals
    generalize num.natAbs = n at *
    subst e
  · have hn := nearestUnits_signedUnits false n den
    rw [signedUnits_false, signedUnits_false] at hn
    rw [hn, Int.cast_natCast, Int.cast_natCast]
    exact h
  · have hn := nearestUnits_signedUnits true n den
    rw [signedUnits_true, signedUnits_true] at hn
    rw [hn]
    push_cast
    rw [neg_div]
    exact h.neg

/-! ## Values -/

/-- What a finite value stands for. -/
def value (x : Binary64) : ℚ := units x / unitsPerOne

/-- The least magnitude that has 53 bits. -/
def leastNormal : ℚ := twoPow 52 / unitsPerOne

theorem unitsPerOne_posQ : (0 : ℚ) < unitsPerOne := by exact_mod_cast unitsPerOne_pos

theorem value_neg (x : Binary64) : value (-x) = -value x := by
  rw [value, units_neg, value]
  push_cast
  exact neg_div _ _

theorem value_two_mul {x : Binary64} (h : (2 * x).isFinite) : value (2 * x) = 2 * value x := by
  rw [value, units_two_mul h, value]
  push_cast
  exact mul_div_assoc _ _ _

/-- Four times a value is exact. -/
theorem value_four_mul {x : Binary64} (h : (4 * x).isFinite) : value (4 * x) = 4 * value x := by
  cases x with
  | nan => rw [mul_nan] at h; contradiction
  | infinite s => exact absurd (isFinite_of_mul h).2 Bool.false_ne_true
  | finite s n hn b =>
    rw [four_mul_finite] at h ⊢
    rw [value, units_ofUnits h, value, units_finite]
    cases s <;> simp <;> ring

/-- The exact sum is rounded. -/
theorem approximates_add {x y : Binary64} (h : (x + y).isFinite) :
    Approximates (value (x + y)) (value x + value y) := by
  have hsum := approximates_nearestUnits (approximates_roundQuotient_one (units x + units y).natAbs)
  have hvalue := hsum.div unitsPerOne_posQ
  rw [← units_add h] at hvalue
  have hexact : ((units x + units y : Int) : ℚ) / (1 : Nat) / unitsPerOne = value x + value y := by
    rw [value, value, Nat.cast_one, div_one]
    push_cast
    exact add_div _ _ _
  rwa [hexact] at hvalue

theorem approximates_sub {x y : Binary64} (h : (x - y).isFinite) :
    Approximates (value (x - y)) (value x - value y) := by
  have hadd : Approximates (value (x + -y)) (value x + value (-y)) := approximates_add h
  rwa [value_neg, ← sub_eq_add_neg] at hadd

/-- A quotient of units is rounded with a small error if it is zero or at least `2 ^ 52`. -/
theorem approximates_nearestUnits_of_le {num : Int} {den : Nat} (hd : 0 < den)
    (h : num = 0 ∨ leastNormal ≤ |(num : ℚ) / den / unitsPerOne|) :
    Approximates (nearestUnits num den) (num / den) := by
  rcases h with rfl | h
  · have hzero : nearestUnits 0 den = 0 := zero_mul _
    rw [hzero, Int.cast_zero, zero_div]
    exact Approximates.refl 0
  · apply approximates_nearestUnits
    apply approximates_roundQuotient hd
    have hden : (0 : ℚ) < den := by exact_mod_cast hd
    rw [abs_div, abs_div, abs_of_pos unitsPerOne_posQ, abs_of_pos hden, leastNormal,
      div_le_div_iff_of_pos_right unitsPerOne_posQ, le_div_iff₀ hden, ← Int.cast_abs,
      Int.abs_eq_natAbs] at h
    exact_mod_cast h

theorem approximates_mul {x y : Binary64} (h : (x * y).isFinite)
    (hsmall : value x * value y = 0 ∨ leastNormal ≤ |value x * value y|) :
    Approximates (value (x * y)) (value x * value y) := by
  have hexact : ((units x * units y : Int) : ℚ) / unitsPerOne / unitsPerOne = value x * value y := by
    rw [value, value]
    push_cast
    rw [div_div, div_mul_div_comm]
  have hunits : units x * units y = 0 ∨
      leastNormal ≤ |((units x * units y : Int) : ℚ) / unitsPerOne / unitsPerOne| := by
    rw [hexact]
    refine hsmall.imp_left fun h0 => ?_
    rw [← hexact, div_div, div_eq_zero_iff] at h0
    rcases h0 with h0 | h0
    · exact_mod_cast h0
    · exact absurd h0 (mul_pos unitsPerOne_posQ unitsPerOne_posQ).ne'
  have hvalue := (approximates_nearestUnits_of_le unitsPerOne_pos hunits).div unitsPerOne_posQ
  rwa [← units_mul h, hexact] at hvalue

theorem approximates_div {x y : Binary64} (h : (x / y).isFinite) (hy : y.isFinite)
    (h0 : y.isZero = false)
    (hsmall : value x = 0 ∨ leastNormal ≤ |value x / value y|) :
    Approximates (value (x / y)) (value x / value y) := by
  have hne : units y ≠ 0 := fun hzero => by
    rw [isZero_iff.2 ⟨hy, hzero⟩] at h0
    contradiction
  have hden : 0 < (units y).natAbs := Int.natAbs_pos.2 hne
  have hexact : ((units x * unitsPerOne * (units y).sign : Int) : ℚ) / (units y).natAbs /
      unitsPerOne = value x / value y := by
    have hsigned : (units y : ℚ) = (units y).sign * (units y).natAbs := by
      rw [← Int.cast_natCast (units y).natAbs, ← Int.cast_mul, Int.sign_mul_natAbs]
    have hsquare : ((units y).sign : ℚ) * (units y).sign = 1 := by
      rcases Int.sign_trichotomy (units y) with e | e | e
      · rw [e]; norm_num
      · exact absurd (Int.sign_eq_zero_iff_zero.1 e) hne
      · rw [e]; norm_num
    have hsign0 : ((units y).sign : ℚ) ≠ 0 := left_ne_zero_of_mul_eq_one hsquare
    have hdenQ : ((units y).natAbs : ℚ) ≠ 0 := by exact_mod_cast hden.ne'
    have hone := unitsPerOne_posQ.ne'
    rw [value, value, hsigned]
    push_cast
    field_simp
    rw [pow_two, hsquare, mul_one]
  have hunits : units x * unitsPerOne * (units y).sign = 0 ∨
      leastNormal ≤ |((units x * unitsPerOne * (units y).sign : Int) : ℚ) / (units y).natAbs /
        unitsPerOne| := by
    rw [hexact]
    refine hsmall.imp_left fun hx => ?_
    rw [value, div_eq_zero_iff] at hx
    have hx : units x = 0 := by exact_mod_cast hx.resolve_right unitsPerOne_posQ.ne'
    rw [hx, zero_mul, zero_mul]
  have hvalue := (approximates_nearestUnits_of_le hden hunits).div unitsPerOne_posQ
  rwa [← units_div h hy h0, hexact] at hvalue

/-! ## Square roots -/

theorem le_root {n x : Nat} (h : x * x ≤ n) : x ≤ root n := by
  by_contra hlt
  have hle : root n + 1 ≤ x := by omega
  have hsquare := Nat.mul_le_mul hle hle
  have := (root_spec n).2
  omega

theorem root_lt {n x : Nat} (h : n < x * x) : root n < x := by
  by_contra hle
  have hsquare := Nat.mul_le_mul (Nat.le_of_not_lt hle) (Nat.le_of_not_lt hle)
  have := (root_spec n).1
  omega

/-- The neighbours `t * s` and `(t + 1) * s` on both sides of the square root, and the nearer one. -/
theorem roundRoot_cases {n s t : Nat} (hs : spacing (root n) = s) (ht : root n / s = t) :
    roundRoot n = s * t ∧ 4 * n ≤ ((2 * t + 1) * s) * ((2 * t + 1) * s) ∨
      roundRoot n = s * (t + 1) ∧ ((2 * t + 1) * s) * ((2 * t + 1) * s) ≤ 4 * n := by
  unfold roundRoot
  dsimp only
  rw [hs, ht]
  generalize ((2 * t + 1) * s) * ((2 * t + 1) * s) = middle
  split
  · exact Or.inl ⟨rfl, by omega⟩
  split
  · exact Or.inr ⟨rfl, by omega⟩
  · rcases Nat.mod_two_eq_zero_or_one t with h | h <;> rw [h]
    · exact Or.inl ⟨rfl, by omega⟩
    · exact Or.inr ⟨rfl, by omega⟩

section

variable {n s t : ℚ}

/-- Half a step is a share `roundoff` of the middle of two neighbours, or less. -/
theorem half_le_mul (ht : (2 : ℚ) ^ 52 ≤ t) : 1 / 2 ≤ roundoff * (t + 1 / 2) := by
  rw [roundoff]
  linarith

/-- The lower neighbour, if `n` is not above the square of the middle. -/
theorem lower_sq_bounds (hs : 0 < s) (ht : (2 : ℚ) ^ 52 ≤ t) (hbelow : (s * t) ^ 2 ≤ n)
    (hmiddle : n ≤ (s * (t + 1 / 2)) ^ 2) :
    (1 - roundoff) ^ 2 * n ≤ (s * t) ^ 2 ∧ (s * t) ^ 2 ≤ (1 + roundoff) ^ 2 * n := by
  have hhalf := half_le_mul ht
  have hu := roundoff_pos
  have hu1 : roundoff ≤ 1 := by norm_num [roundoff]
  constructor
  · calc (1 - roundoff) ^ 2 * n ≤ (1 - roundoff) ^ 2 * (s * (t + 1 / 2)) ^ 2 :=
          mul_le_mul_of_nonneg_left hmiddle (sq_nonneg _)
      _ = (s * ((1 - roundoff) * (t + 1 / 2))) ^ 2 := by ring
      _ ≤ (s * t) ^ 2 := by
          refine pow_le_pow_left₀ (by have := sub_nonneg.2 hu1; positivity) ?_ 2
          exact mul_le_mul_of_nonneg_left (by linarith) hs.le
  · refine hbelow.trans (le_mul_of_one_le_left ((sq_nonneg _).trans hbelow) (one_le_pow₀ ?_))
    linarith

/-- The upper neighbour, if `n` is not below the square of the middle. -/
theorem upper_sq_bounds (hs : 0 < s) (ht : (2 : ℚ) ^ 52 ≤ t)
    (hmiddle : (s * (t + 1 / 2)) ^ 2 ≤ n) (habove : n ≤ (s * (t + 1)) ^ 2) :
    (1 - roundoff) ^ 2 * n ≤ (s * (t + 1)) ^ 2 ∧
      (s * (t + 1)) ^ 2 ≤ (1 + roundoff) ^ 2 * n := by
  have hhalf := half_le_mul ht
  have hu := roundoff_pos
  have hu1 : roundoff ≤ 1 := by norm_num [roundoff]
  have hn : 0 ≤ n := (sq_nonneg _).trans hmiddle
  constructor
  · refine (mul_le_of_le_one_left hn (pow_le_one₀ (sub_nonneg.2 hu1) ?_)).trans habove
    linarith
  · calc (s * (t + 1)) ^ 2 ≤ (s * ((1 + roundoff) * (t + 1 / 2))) ^ 2 := by
          refine pow_le_pow_left₀ (by positivity) ?_ 2
          exact mul_le_mul_of_nonneg_left (by linarith) hs.le
      _ = (1 + roundoff) ^ 2 * (s * (t + 1 / 2)) ^ 2 := by ring
      _ ≤ (1 + roundoff) ^ 2 * n := mul_le_mul_of_nonneg_left hmiddle (sq_nonneg _)

end

/-- The square of a rounded square root. -/
theorem roundRoot_bounds {n : Nat} (h : twoPow 104 ≤ n) :
    (1 - roundoff) ^ 2 * n ≤ (roundRoot n : ℚ) ^ 2 ∧
      (roundRoot n : ℚ) ^ 2 ≤ (1 + roundoff) ^ 2 * n := by
  have hroot : twoPow 52 ≤ root n := le_root (by rwa [← twoPow_add])
  obtain ⟨s, hs⟩ : ∃ s, spacing (root n) = s := ⟨_, rfl⟩
  obtain ⟨t, ht⟩ : ∃ t, root n / s = t := ⟨_, rfl⟩
  have hspos : 0 < s := hs ▸ spacing_pos _
  have htlarge : twoPow 52 ≤ t := by
    rw [← ht, Nat.le_div_iff_mul_le hspos, ← hs, Nat.mul_comm]
    exact spacing_mul_le hroot
  have hbelow : (s * t) * (s * t) ≤ n := by
    have hle : s * t ≤ root n := ht ▸ Nat.mul_div_le (root n) s
    exact (Nat.mul_le_mul hle hle).trans (root_spec n).1
  have habove : n ≤ (s * (t + 1)) * (s * (t + 1)) := by
    have hle : root n + 1 ≤ s * (t + 1) := ht ▸ Nat.lt_mul_div_succ (root n) hspos
    exact (root_spec n).2.le.trans (Nat.mul_le_mul hle hle)
  have hsQ : (0 : ℚ) < s := by exact_mod_cast hspos
  have htQ : (2 : ℚ) ^ 52 ≤ t := by
    rw [← cast_twoPow]
    exact_mod_cast htlarge
  rcases roundRoot_cases hs ht with ⟨hR, hmiddle⟩ | ⟨hR, hmiddle⟩
  all_goals
    rw [hR]
    push_cast
  · have hmiddleQ : (4 * n : ℚ) ≤ ((2 * t + 1) * s) * ((2 * t + 1) * s) := by
      exact_mod_cast hmiddle
    refine lower_sq_bounds hsQ htQ ?_ (by linarith)
    rw [pow_two]
    exact_mod_cast hbelow
  · have hmiddleQ : (((2 * t + 1) * s) * ((2 * t + 1) * s) : ℚ) ≤ 4 * n := by
      exact_mod_cast hmiddle
    refine upper_sq_bounds hsQ htQ (by linarith) ?_
    rw [pow_two]
    exact_mod_cast habove

theorem units_roundSqrt {n : Nat} (h : (roundSqrt n).isFinite) : units (roundSqrt n) = roundRoot n := by
  unfold roundSqrt at h ⊢
  rw [units_ofUnits h, signedUnits_false]

theorem sqrt_of_units_pos {x : Binary64} (hx : x.isFinite) (h : 0 < units x) :
    x.sqrt = roundSqrt ((units x).natAbs * unitsPerOne) := by
  cases x with
  | nan => contradiction
  | infinite => contradiction
  | finite s n hn b =>
    cases s with
    | true =>
      rw [units_finite, signedUnits_true] at h
      omega
    | false =>
      rw [units_finite, signedUnits_false] at h ⊢
      show (if n = 0 then _ else if false = true then nan else roundSqrt (n * unitsPerOne)) = _
      rw [if_neg (by omega), if_neg Bool.false_ne_true, Int.natAbs_natCast]

/-- The square of a rounded square root of a value above zero. -/
theorem sqrt_bounds {x : Binary64} (hx : x.isFinite) (hpos : 0 < value x) (h : x.sqrt.isFinite) :
    (1 - roundoff) ^ 2 * value x ≤ value x.sqrt ^ 2 ∧
      value x.sqrt ^ 2 ≤ (1 + roundoff) ^ 2 * value x := by
  have hone := unitsPerOne_posQ
  have hunits : 0 < units x := by
    rw [value, div_pos_iff_of_pos_right hone] at hpos
    exact_mod_cast hpos
  rw [sqrt_of_units_pos hx hunits] at h ⊢
  have hlarge : twoPow 104 ≤ (units x).natAbs * unitsPerOne := by
    have hpos : 0 < (units x).natAbs := by omega
    have hle : twoPow 104 ≤ unitsPerOne := by
      rw [unitsPerOne]
      exact twoPow_le_of_le (by decide)
    exact hle.trans (Nat.le_mul_of_pos_left _ hpos)
  have hbounds := roundRoot_bounds hlarge
  have hscale : ((((units x).natAbs * unitsPerOne : Nat) : ℚ)) = value x * unitsPerOne ^ 2 := by
    have habs : ((units x).natAbs : ℚ) = units x := by
      rw [← Int.cast_natCast, Int.natAbs_of_nonneg hunits.le]
    rw [Nat.cast_mul, habs, value]
    field_simp
  rw [hscale] at hbounds
  have hsquare : (0 : ℚ) < (unitsPerOne : ℚ) ^ 2 := by positivity
  have hroot : value (roundSqrt ((units x).natAbs * unitsPerOne)) =
      roundRoot ((units x).natAbs * unitsPerOne) / unitsPerOne := by
    rw [value, units_roundSqrt h, Int.cast_natCast]
  rw [hroot, div_pow, le_div_iff₀ hsquare, div_le_iff₀ hsquare, mul_assoc, mul_assoc]
  exact hbounds

/-! ## Squares of values -/

/-- Magnitudes from a power of two up to the next one have one spacing. -/
theorem spacing_eq {m n : Nat} (hm : twoPow n.log2 ≤ m) (hmn : m < twoPow (n.log2 + 1)) :
    spacing m = spacing n := by
  have h0 : m ≠ 0 := by
    have := twoPow_pos n.log2
    omega
  have hle := (le_log2_iff h0).2 hm
  have hlt := (log2_lt_iff h0).2 hmn
  rw [spacing, spacing, show m.log2 = n.log2 by omega]

theorem onGrid_twoPow (k : Nat) : OnGrid (twoPow k) := by
  simpa using onGrid_twoPow_mul k (t := 1) (by decide)

/-- A number that is off the square of `s * t` by at most a share `roundoff` of it is between the
squares of `s * t - s / 2` and `s * t + s / 2`. -/
theorem sq_bounds_of_near {n s t : Nat} (hs : 0 < s) (htlow : twoPow 52 ≤ t) (hthigh : t < twoPow 53)
    (hnear : twoPow 53 * ((n : Int) - (s * t * (s * t) : Nat)).natAbs ≤ s * t * (s * t)) :
    n < s * t * (s * t) + s * s * t ∧
      4 * (s * t * (s * t)) + 2 * (s * s) ≤ 4 * n + 4 * (s * s * t) := by
  have hsquare : s * t * (s * t) = s * s * (t * t) := by ring
  rw [hsquare] at hnear ⊢
  have hhigh : s * s * (t * t) + s * s * t ≤ twoPow 53 * (s * s * t) := by
    have hle := Nat.mul_le_mul_left (s * s) (Nat.mul_le_mul_right t (Nat.succ_le_of_lt hthigh))
    calc s * s * (t * t) + s * s * t = s * s * ((t + 1) * t) := by ring
      _ ≤ s * s * (twoPow 53 * t) := hle
      _ = twoPow 53 * (s * s * t) := by ring
  have hlow : twoPow 52 * (s * s) ≤ s * s * t := by
    rw [Nat.mul_comm]
    exact Nat.mul_le_mul_left (s * s) htlow
  have hpos : 0 < s * s := Nat.mul_pos hs hs
  have h52 : twoPow 52 = 4503599627370496 := rfl
  have h53 : twoPow 53 = 9007199254740992 := rfl
  rw [h52] at hlow
  rw [h53] at hnear hhigh
  generalize s * s * (t * t) = square at *
  generalize s * s * t = step at *
  omega

theorem roundRoot_of_le {n s t : Nat} (hs : spacing (root n) = s) (hle : s * t * (s * t) ≤ n)
    (hlt : n < s * t * (s * t) + s * s * t) : roundRoot n = s * t := by
  have hspos : 0 < s := hs ▸ spacing_pos _
  have hnext : s * (t + 1) * (s * (t + 1)) = s * t * (s * t) + 2 * (s * s * t) + s * s := by ring
  have hfloor : s * t ≤ root n := le_root hle
  have hceil : root n < s * (t + 1) := root_lt (by omega)
  have hdiv : root n / s = t := by
    rw [Nat.mul_comm] at hfloor hceil
    exact Nat.div_eq_of_lt_le hfloor hceil
  rcases roundRoot_cases hs hdiv with ⟨h, -⟩ | ⟨-, hmiddle⟩
  · exact h
  · have hsquare : (2 * t + 1) * s * ((2 * t + 1) * s) =
        4 * (s * t * (s * t)) + 4 * (s * s * t) + s * s := by ring
    omega

theorem roundRoot_of_lt {n s j : Nat} (hs : spacing (root n) = s)
    (hlt : n < s * (j + 1) * (s * (j + 1)))
    (hle : 4 * (s * (j + 1) * (s * (j + 1))) + 2 * (s * s) ≤ 4 * n + 4 * (s * s * (j + 1))) :
    roundRoot n = s * (j + 1) := by
  have hspos : 0 < s := hs ▸ spacing_pos _
  have hpos : 0 < s * s := Nat.mul_pos hspos hspos
  have hnext : s * (j + 1) * (s * (j + 1)) = s * j * (s * j) + 2 * (s * s * j) + s * s := by ring
  have hstep : s * s * (j + 1) = s * s * j + s * s := by ring
  have hfloor : s * j ≤ root n := le_root (by omega)
  have hceil : root n < s * (j + 1) := root_lt hlt
  have hdiv : root n / s = j := by
    rw [Nat.mul_comm] at hfloor hceil
    exact Nat.div_eq_of_lt_le hfloor hceil
  rcases roundRoot_cases hs hdiv with ⟨-, hmiddle⟩ | ⟨h, -⟩
  · have hsquare : (2 * j + 1) * s * ((2 * j + 1) * s) =
        4 * (s * j * (s * j)) + 4 * (s * s * j) + s * s := by ring
    omega
  · exact h

/-- The square root of a rounded square is rounded to the value itself. Below a power of two the
values are closer to each other than above it, so there the square must not have been rounded
down. -/
theorem roundRoot_of_near {n x : Nat} (hx : OnGrid x) (h52 : twoPow 52 ≤ x)
    (hnear : twoPow 53 * ((n : Int) - (x * x : Nat)).natAbs ≤ x * x)
    (hdown : n < x * x → twoPow x.log2 < x) : roundRoot n = x := by
  have hpower : twoPow x.log2 ≤ x := twoPow_log2_le (by have := twoPow_pos 52; omega)
  have hnext : x + spacing x ≤ twoPow (x.log2 + 1) :=
    add_spacing_le hx (onGrid_twoPow _) (lt_twoPow_log2_succ x)
  have hprevious : n < x * x → twoPow x.log2 + spacing x ≤ x := fun hlt => by
    have hlog : spacing (twoPow x.log2) = spacing x :=
      spacing_eq (Nat.le_refl _) (by omega)
    have := add_spacing_le (onGrid_twoPow _) hx (hdown hlt)
    rwa [hlog] at this
  have hspacing : twoPow x.log2 ≤ root n → root n < twoPow (x.log2 + 1) →
      spacing (root n) = spacing x := spacing_eq
  have hlow := spacing_mul_le h52
  have hhigh := div_spacing_lt x
  have hspos := spacing_pos x
  obtain ⟨t, ht⟩ : spacing x ∣ x := hx
  generalize spacing x = s at *
  generalize x.log2 = k at *
  subst ht
  rw [Nat.mul_div_cancel_left t hspos] at hhigh
  obtain ⟨habove, hbelow⟩ :=
    sq_bounds_of_near hspos (Nat.le_of_mul_le_mul_left hlow hspos) hhigh hnear
  by_cases hdir : n < s * t * (s * t)
  · have hprevious := hprevious hdir
    obtain ⟨j, rfl⟩ : ∃ j, t = j + 1 := Nat.exists_eq_succ_of_ne_zero (by rintro rfl; omega)
    have hfloor : s * j ≤ root n := by
      apply le_root
      have hnext : s * (j + 1) * (s * (j + 1)) = s * j * (s * j) + 2 * (s * s * j) + s * s := by ring
      have hstep : s * s * (j + 1) = s * s * j + s * s := by ring
      omega
    have hceil : root n < s * (j + 1) := root_lt hdir
    rw [Nat.mul_succ] at hprevious hpower
    exact roundRoot_of_lt (hspacing (by omega) (by omega)) hdir hbelow
  · have hfloor : s * t ≤ root n := le_root (Nat.le_of_not_lt hdir)
    have hceil : root n < s * t + s := by
      apply root_lt
      have hnext : (s * t + s) * (s * t + s) = s * t * (s * t) + 2 * (s * s * t) + s * s := by ring
      omega
    exact roundRoot_of_le (hspacing (by omega) (by omega)) (Nat.le_of_not_lt hdir) habove

/-- A rounded quotient in whole numbers. -/
theorem roundQuotient_mul_near {num den : Nat} (hd : 0 < den) (h : twoPow 52 * den ≤ num) :
    twoPow 53 * (((roundQuotient num den * den : Nat) : Int) - (num : Nat)).natAbs ≤ num := by
  have hden : (0 : ℚ) < den := by exact_mod_cast hd
  have happrox := approximates_roundQuotient hd h
  have hexact : (roundQuotient num den : ℚ) - num / den =
      ((roundQuotient num den * den : Nat) - (num : ℚ)) / den := by
    push_cast
    field_simp
  rw [Approximates, hexact, abs_div, abs_div, abs_of_pos hden, Nat.abs_cast, ← mul_div_assoc,
    div_le_div_iff_of_pos_right hden, roundoff, div_mul_eq_mul_div, one_mul,
    le_div_iff₀ (by norm_num), mul_comm, ← cast_twoPow] at happrox
  have hcast : ((((roundQuotient num den * den : Nat) : Int) - (num : Nat)).natAbs : ℚ) =
      |((roundQuotient num den * den : Nat) : ℚ) - num| := by
    rw [Nat.cast_natAbs]
    push_cast
    rfl
  rw [← hcast] at happrox
  exact_mod_cast happrox

theorem le_of_twoPow_le {j k : Nat} (h : twoPow j ≤ twoPow k) : j ≤ k :=
  (Nat.pow_le_pow_iff_right (by decide)).1 h

theorem roundQuotient_sq_of_twoPow {k j : Nat} (h : j ≤ k + k) :
    roundQuotient (twoPow k * twoPow k) (twoPow j) * twoPow j = twoPow k * twoPow k := by
  have hsquare : twoPow k * twoPow k = twoPow (k + k - j) * twoPow j := by
    rw [← twoPow_add, ← twoPow_add, Nat.sub_add_cancel h]
  rw [hsquare, roundQuotient_of_onGrid (onGrid_twoPow _) (twoPow_pos _)]

/-- A magnitude is the rounded root of its rounded square: the square of a power of two is exact. -/
theorem roundRoot_roundQuotient_sq {a : Nat} (ha : OnGrid a) (h : twoPow 52 * unitsPerOne ≤ a * a) :
    roundRoot (roundQuotient (a * a) unitsPerOne * unitsPerOne) = a := by
  have hone : twoPow 52 ≤ unitsPerOne := by
    rw [unitsPerOne]
    exact twoPow_le_of_le (by decide)
  have h52 : twoPow 52 ≤ a := by
    by_contra hlt
    have := Nat.mul_lt_mul'' (Nat.lt_of_not_le hlt) (Nat.lt_of_not_le hlt)
    have := Nat.mul_le_mul_left (twoPow 52) hone
    omega
  apply roundRoot_of_near ha h52 (roundQuotient_mul_near unitsPerOne_pos h)
  intro hdown
  have hle : twoPow a.log2 ≤ a := twoPow_log2_le (by have := twoPow_pos 52; omega)
  refine Nat.lt_of_le_of_ne hle fun heq => ?_
  obtain ⟨j, hj⟩ : ∃ j, unitsPerOne = twoPow j := ⟨unitPlaces, by rw [unitsPerOne]⟩
  rw [hj] at h hdown
  have hplaces : j ≤ a.log2 + a.log2 := by
    apply le_of_twoPow_le
    rw [twoPow_add, heq]
    exact (Nat.le_mul_of_pos_left (twoPow j) (twoPow_pos 52)).trans h
  have hexact := roundQuotient_sq_of_twoPow hplaces
  rw [heq] at hexact
  rw [hexact] at hdown
  exact Nat.lt_irrefl _ hdown

/-- The square root of the square of a value is its magnitude, although both are rounded. -/
theorem units_sqrt_mul_self {x : Binary64} (h : (x * x).isFinite)
    (hsmall : leastNormal ≤ value x * value x) :
    (x * x).sqrt.isFinite ∧ units (x * x).sqrt = (units x).natAbs := by
  have hx : x.isFinite := (isFinite_of_mul h).1
  have hgrid := onGrid_units hx
  have hrange := natAbs_units_lt hx
  have hsquare : units x * units x = ((units x).natAbs * (units x).natAbs : Nat) := by
    exact_mod_cast Int.natAbs_mul_self.symm
  have hnormal : twoPow 52 * unitsPerOne ≤ (units x).natAbs * (units x).natAbs := by
    rw [value, div_mul_div_comm, leastNormal, ← div_div,
      div_le_div_iff_of_pos_right unitsPerOne_posQ, le_div_iff₀ unitsPerOne_posQ, ← Int.cast_mul,
      hsquare] at hsmall
    exact_mod_cast hsmall
  have hunits : units (x * x) =
      roundQuotient ((units x).natAbs * (units x).natAbs) unitsPerOne := by
    have := nearestUnits_signedUnits false ((units x).natAbs * (units x).natAbs) unitsPerOne
    rw [signedUnits_false, signedUnits_false] at this
    rw [units_mul h, hsquare, this]
  have hpos : 0 < units (x * x) := by
    have hle := roundQuotient_mono unitsPerOne_pos hnormal
    rw [roundQuotient_of_onGrid (onGrid_twoPow 52) unitsPerOne_pos] at hle
    have := twoPow_pos 52
    omega
  have hroot := roundRoot_roundQuotient_sq hgrid hnormal
  rw [sqrt_of_units_pos h hpos, hunits, Int.natAbs_natCast]
  have hfinite : (roundSqrt (roundQuotient ((units x).natAbs * (units x).natAbs) unitsPerOne *
      unitsPerOne)).isFinite := by
    rw [roundSqrt, isFinite_ofUnits_iff, hroot]
    exact hrange
  exact ⟨hfinite, by rw [units_roundSqrt hfinite, hroot]⟩

/-! ## Sums with square roots -/

/-- The grid is coarse where magnitudes are large. -/
theorem twoPow_dvd_of_onGrid {k n : Nat} (hn : OnGrid n) (h : twoPow (k + 52) ≤ n) :
    twoPow k ∣ n := by
  have h0 : n ≠ 0 := by
    have := twoPow_pos (k + 52)
    omega
  have hlog := (le_log2_iff h0).2 h
  exact Nat.dvd_trans (twoPow_dvd_of_le (by omega)) hn

/-- No square root has a small magnitude, however small the value is. -/
theorem twoPow_dvd_units_sqrt {x : Binary64} (hx : x.isFinite) (hpos : 0 < units x)
    (h : x.sqrt.isFinite) : (twoPow 84 : Int) ∣ units x.sqrt := by
  rw [sqrt_of_units_pos hx hpos] at h ⊢
  rw [units_roundSqrt h]
  have hlarge : twoPow 274 ≤ (units x).natAbs * unitsPerOne := by
    have hone : twoPow 274 ≤ unitsPerOne := by
      rw [unitsPerOne]
      exact twoPow_le_of_le (by decide)
    exact hone.trans (Nat.le_mul_of_pos_left _ (by omega))
  generalize (units x).natAbs * unitsPerOne = n at *
  have hroot : twoPow 136 ≤ roundRoot n := by
    have hbound := (roundRoot_bounds ((twoPow_le_of_le (by decide)).trans hlarge)).1
    have hlargeQ : 4 * (twoPow 136 : ℚ) ^ 2 ≤ n := by
      have hpower : twoPow 274 = twoPow 2 * (twoPow 136 * twoPow 136) := by
        rw [← twoPow_add, ← twoPow_add]
      have hfour : twoPow 2 = 4 := rfl
      rw [hpower, hfour, ← sq] at hlarge
      exact_mod_cast hlarge
    have hsq : (twoPow 136 : ℚ) ^ 2 ≤ (roundRoot n : ℚ) ^ 2 := by
      unfold roundoff at hbound
      linarith
    have hle := (pow_le_pow_iff_left₀ (Nat.cast_nonneg _) (Nat.cast_nonneg _) two_ne_zero).1 hsq
    exact_mod_cast hle
  exact_mod_cast twoPow_dvd_of_onGrid (onGrid_roundRoot n) (k := 84) hroot

/-- A sum of multiples of a power of two is zero or not less than this power. -/
theorem units_add_of_dvd {x y : Binary64} {k : Nat} (h : (x + y).isFinite)
    (hx : (twoPow k : Int) ∣ units x) (hy : (twoPow k : Int) ∣ units y) :
    units (x + y) = 0 ∨ twoPow k ≤ (units (x + y)).natAbs := by
  have hdvd := Int.natCast_dvd.1 (Int.dvd_add hx hy)
  rw [units_add h]
  by_cases h0 : units x + units y = 0
  · exact Or.inl (by rw [h0]; exact zero_mul _)
  · right
    have hle : twoPow k ≤ (units x + units y).natAbs :=
      Nat.le_of_dvd (Int.natAbs_pos.2 h0) hdvd
    have hround := roundQuotient_mono Nat.one_pos hle
    rw [roundQuotient_one (onGrid_twoPow k)] at hround
    rw [nearestUnits, Int.natAbs_mul, Int.natAbs_sign_of_ne_zero h0, one_mul, Int.natAbs_natCast]
    exact hround

end PolySolve.Binary64
