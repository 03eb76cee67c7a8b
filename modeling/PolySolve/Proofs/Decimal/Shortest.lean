import Mathlib.Algebra.Order.Field.Power
import PolySolve.Decimal.Shortest
import PolySolve.Proofs.Binary64.Order
import PolySolve.Proofs.Decimal.Digits

/-!
# The shortest decimal reads back

Rounding the shortest decimal of a value gives the value again. A decimal that
is sought with fewer than 17 digits is taken only if it reads back. With 17
digits one need not look: their grid is fine enough that the nearest decimal is
closer to the value than half the way to the next one.

* `isNearest_of_close`: how close is close enough;
* `unitsPerOne_mul_le`: the first digit is not a zero;
* `isNearest_shortest`, `toBinary64_of_isNearest`: the shortest decimal reads back;
* `point_shortest_le`, `lt_point_shortest_iff`: where its decimal point stands.
-/

namespace PolySolve

-- The elaborator must not evaluate these powers of two.
attribute [local irreducible] Binary64.overflowUnits Binary64.unitsPerOne

namespace Binary64

/-! ## Closeness -/

/-- Two magnitudes differ by one unit in the last of 53 bits, or by more. -/
theorem le_mul_abs_sub {m n : Nat} (hn : OnGrid n) (hm : OnGrid m) (h : m ≠ n) :
    (n : ℚ) ≤ 2 ^ 53 * |(m : ℚ) - n| := by
  have bits (k : Nat) (hk : OnGrid k) : k ≤ (2 ^ 53 - 1) * spacing k := by
    have hlt : k / spacing k < 2 ^ 53 := div_spacing_lt k
    calc k = k / spacing k * spacing k := (Nat.div_mul_cancel hk).symm
      _ ≤ (2 ^ 53 - 1) * spacing k := Nat.mul_le_mul_right _ (Nat.le_sub_one_of_lt hlt)
  rcases Nat.lt_or_gt_of_ne h with hlt | hlt
  · have hgap := add_spacing_le hm hn hlt
    have hbits := bits m hm
    have hle : n ≤ 2 ^ 53 * (n - m) := by omega
    rw [abs_sub_comm, abs_of_pos (by rw [sub_pos]; exact_mod_cast hlt), ← Nat.cast_sub hlt.le]
    exact_mod_cast hle
  · have hgap := add_spacing_le hn hm hlt
    have hbits := bits n hn
    have hle : n ≤ 2 ^ 53 * (m - n) := by omega
    rw [abs_of_pos (by rw [sub_pos]; exact_mod_cast hlt), ← Nat.cast_sub hlt.le]
    exact_mod_cast hle

/-- What is closer to a magnitude than half a unit in its last bit is rounded to it. -/
theorem isNearest_of_close {q : ℚ} {n : Nat} (hn : OnGrid n) (h : 2 ^ 54 * |q - n| < n) :
    IsNearest q n := by
  have closer (m : Nat) (hm : OnGrid m) (hne : m ≠ n) : |(n : ℚ) - q| < |(m : ℚ) - q| := by
    have hgap := le_mul_abs_sub hn hm hne
    have triangle : |(m : ℚ) - n| ≤ |(m : ℚ) - q| + |q - n| := abs_sub_le _ _ _
    rw [abs_sub_comm (n : ℚ) q]
    linarith
  refine ⟨hn, fun m hm => ?_, fun m hm hne heq => absurd heq (closer m hm hne).ne'⟩
  by_cases hne : m = n
  · rw [hne]
  · exact (closer m hm hne).le

theorem isNearest_natCast {n : Nat} (hn : OnGrid n) : IsNearest n n := by
  refine ⟨hn, fun m _ => ?_, fun m _ hne heq => ?_⟩
  · rw [sub_self, abs_zero]
    exact abs_nonneg _
  · rw [sub_self, abs_zero, abs_eq_zero, sub_eq_zero] at heq
    exact absurd (by exact_mod_cast heq) hne

theorem spacing_twoPow_add (k : Nat) : spacing (twoPow (k + 52)) = twoPow k := by
  have hlog : (twoPow (k + 52)).log2 = k + 52 := Nat.log2_two_pow
  rw [spacing, hlog, Nat.add_sub_cancel]

/-- A magnitude that is no multiple of a power of two is less than 52 bits above it. -/
theorem lt_of_not_twoPow_dvd {k n : Nat} (hn : OnGrid n) (h : ¬ twoPow k ∣ n) :
    n < twoPow k * twoPow 52 := by
  rw [← spacing_twoPow_add k] at h ⊢
  exact (lt_of_not_spacing_dvd hn h).1

theorem unitsPerOne_eq : unitsPerOne = twoPow unitPlaces := by
  unfold unitsPerOne
  rfl

end Binary64

namespace Decimal

open Binary64

/-! ## The first digit -/

theorem tenPow_succ (k : Nat) : tenPow (k + 1) = tenPow k * 10 := rfl

theorem unitsPerOne_le_leadingZeros {k n : Nat} (h : unitsPerOne ≤ n * tenPow (k + 1)) :
    unitsPerOne ≤ n * tenPow (leadingZeros k n + 1) := by
  induction k generalizing n with
  | zero => exact h
  | succ k ih =>
    have hten (j : Nat) : n * tenPow (j + 1) = 10 * n * tenPow j := by
      rw [tenPow_succ]
      ring
    rw [leadingZeros]
    split
    · rename_i hle
      rw [hten, tenPow_zero]
      omega
    · rw [hten] at h ⊢
      exact ih h

theorem unitsPerOne_le_tenPow : unitsPerOne ≤ tenPow 325 := by
  unfold unitsPerOne
  decide +kernel

theorem cast_unitsPerOne_pos : (0 : ℚ) < unitsPerOne := by exact_mod_cast unitsPerOne_pos

/-- The first digit at the place before the point position is not a zero. -/
theorem unitsPerOne_mul_le {n : Nat} (h : n ≠ 0) :
    (unitsPerOne : ℚ) * 10 ^ (pointPosition n - 1) ≤ n := by
  unfold pointPosition
  split
  · rename_i hle
    have hq : n / unitsPerOne ≠ 0 := (Nat.div_pos hle unitsPerOne_pos).ne'
    have hlen := length_digitChars_pos (n / unitsPerOne)
    have hexp : ((digitChars (n / unitsPerOne)).length : ℤ) - 1 =
        ((digitChars (n / unitsPerOne)).length - 1 : Nat) := by omega
    have hle : unitsPerOne * 10 ^ ((digitChars (n / unitsPerOne)).length - 1) ≤ n := by
      calc _ ≤ unitsPerOne * (n / unitsPerOne) := Nat.mul_le_mul_left _ (tenPow_length_le hq)
        _ ≤ n := Nat.mul_div_le n unitsPerOne
    rw [hexp, zpow_natCast]
    exact_mod_cast hle
  · have hle : unitsPerOne ≤ n * tenPow (leadingZeros 324 n + 1) := by
      refine unitsPerOne_le_leadingZeros (unitsPerOne_le_tenPow.trans ?_)
      exact Nat.le_mul_of_pos_left _ (Nat.pos_of_ne_zero h)
    have hexp : -(leadingZeros 324 n : ℤ) - 1 = -((leadingZeros 324 n + 1 : Nat) : ℤ) := by
      push_cast
      ring
    rw [hexp, zpow_neg, zpow_natCast, ← cast_tenPow, ← div_eq_mul_inv,
      div_le_iff₀ (by exact_mod_cast tenPow_pos _)]
    exact_mod_cast hle

/-! ## Seventeen digits -/

theorem scaledDen_pos (e : Int) : 0 < scaledDen e := Nat.mul_pos unitsPerOne_pos (tenPow_pos _)

theorem scaledNum_div_scaledDen (n : Nat) (e : Int) :
    (scaledNum n e : ℚ) / scaledDen e = n / (unitsPerOne * 10 ^ e) := by
  have hU := cast_unitsPerOne_pos.ne'
  rw [scaledNum, scaledDen, Nat.cast_mul, Nat.cast_mul, cast_tenPow, cast_tenPow]
  cases e with
  | ofNat k => simp
  | negSucc k =>
    simp only [Int.toNat_negSucc, Int.neg_negSucc, Int.toNat_natCast, zpow_negSucc, pow_zero,
      mul_one]
    field_simp

/-- The nearest multiple of a power of ten is half of it away at most. -/
theorem abs_roundDiv_scaled_sub (n : Nat) (e : Int) :
    |(roundDiv (scaledNum n e) (scaledDen e) : ℚ) * 10 ^ e * unitsPerOne - n| ≤
      unitsPerOne * 10 ^ e / 2 := by
  have hunit : (0 : ℚ) < unitsPerOne * 10 ^ e := mul_pos cast_unitsPerOne_pos (by positivity)
  have hhalf : |(roundDiv (scaledNum n e) (scaledDen e) : ℚ) - n / (unitsPerOne * 10 ^ e)| ≤
      1 / 2 := by
    rw [← scaledNum_div_scaledDen]
    rcases abs_roundDiv_sub (scaledNum n e) (scaledDen_pos e) with h | h
    · exact h.le
    · exact h.1.le
  generalize (roundDiv (scaledNum n e) (scaledDen e) : ℚ) = r at *
  have hscaled : r * 10 ^ e * unitsPerOne - n =
      (unitsPerOne * 10 ^ e) * (r - n / (unitsPerOne * 10 ^ e)) := by
    rw [mul_sub, mul_div_cancel₀ _ hunit.ne']
    ring
  rw [hscaled, abs_mul, abs_of_pos hunit]
  linarith [mul_le_mul_of_nonneg_left hhalf hunit.le]

/-- A decimal is rounded to the nearest magnitude. -/
theorem isNearest_units (d : Decimal) :
    IsNearest (d.toRat * unitsPerOne) (roundQuotient d.unitsNum d.unitsDen) := by
  rw [← units_eq_toRat]
  exact isNearest_roundQuotient _ d.unitsDen_pos

theorem readsBack_iff {d : Decimal} {n : Nat} :
    readsBack d n ↔ IsNearest (d.toRat * unitsPerOne) n := by
  have nearest := isNearest_units d
  rw [readsBack, beq_iff_eq]
  exact ⟨fun h => h ▸ nearest, nearest.unique⟩

theorem isNearest_seventeenDigits {n : Nat} (hn : OnGrid n) (h0 : n ≠ 0) :
    IsNearest ((⟨roundDiv (scaledNum n (pointPosition n - 17)) (scaledDen (pointPosition n - 17)),
      pointPosition n - 17⟩ : Decimal).toRat * unitsPerOne) n := by
  have hclose := abs_roundDiv_scaled_sub n (pointPosition n - 17)
  have hfirst := unitsPerOne_mul_le h0
  have hscale : (10 : ℚ) ^ (pointPosition n - 1) = 10 ^ (pointPosition n - 17) * 10 ^ 16 := by
    rw [← zpow_natCast (10 : ℚ) 16, ← zpow_add₀ (by norm_num)]
    congr 1
    push_cast
    ring
  have hunit : (0 : ℚ) < unitsPerOne * 10 ^ (pointPosition n - 17) :=
    mul_pos cast_unitsPerOne_pos (by positivity)
  rw [hscale, ← mul_assoc] at hfirst
  refine isNearest_of_close hn ?_
  rw [toRat]
  dsimp only
  linarith

/-! ## The search -/

theorem readsBack_of_onDecimalGrid {n : Nat} {e : Int} {d : Decimal}
    (h : onDecimalGrid n e = some d) : readsBack d n := by
  simp only [onDecimalGrid] at h
  generalize (if roundDiv (scaledNum n e) (scaledDen e) = scaledNum n e / scaledDen e then
    scaledNum n e / scaledDen e + 1 else scaledNum n e / scaledDen e) = other at h
  split at h
  · rename_i hd
    obtain rfl := Option.some.inj h
    exact hd
  split at h
  · rename_i hd
    obtain rfl := Option.some.inj h
    exact hd
  · contradiction

/-- What is found reads back, if the decimal of 17 digits does. -/
theorem readsBack_shortestFrom {n : Nat} {point : Int} (left k : Nat)
    (h : readsBack (shortestFrom n point 0 k) n) : readsBack (shortestFrom n point left k) n := by
  induction left generalizing k with
  | zero => exact h
  | succ left ih =>
    rw [shortestFrom]
    cases hd : onDecimalGrid n (point - k) with
    | none => exact ih (k + 1) h
    | some d => exact readsBack_of_onDecimalGrid hd

/-- A zero at the end does not count. -/
theorem toRat_dropZero (d : Decimal) : d.dropZero.toRat = d.toRat := by
  unfold dropZero
  split
  · rename_i h
    have hten : (d.digits : ℚ) = (d.digits / 10 : Nat) * 10 := by
      exact_mod_cast (Nat.div_mul_cancel (Nat.dvd_of_mod_eq_zero h)).symm
    rw [toRat, toRat, hten, zpow_add₀ (by norm_num), zpow_one]
    ring
  · rfl

theorem isNearest_shortest {n : Nat} (hn : OnGrid n) (h0 : n ≠ 0) :
    IsNearest ((shortest n).toRat * unitsPerOne) n := by
  rw [shortest, toRat_dropZero, ← readsBack_iff]
  exact readsBack_shortestFrom 17 1 (readsBack_iff.2 (isNearest_seventeenDigits hn h0))

theorem toBinary64_of_isNearest {d : Decimal} {n : Nat}
    (h : IsNearest (d.toRat * unitsPerOne) n) (s : Bool) :
    d.toBinary64 s = ofUnits s n h.onGrid := by
  have hn : roundQuotient d.unitsNum d.unitsDen = n := beq_iff_eq.1 (readsBack_iff.2 h)
  rw [toBinary64_eq_round, Binary64.round]
  subst hn
  rfl

theorem digits_shortest_ne_zero {n : Nat} (hn : OnGrid n) (h0 : n ≠ 0) :
    (shortest n).digits ≠ 0 := by
  intro hd
  have nearest := isNearest_shortest hn h0
  rw [toRat, hd, Nat.cast_zero, zero_mul, zero_mul, ← Nat.cast_zero] at nearest
  exact h0 (nearest.unique (isNearest_natCast onGrid_zero))

/-! ## The decimal point -/

/-- Where the decimal point stands: `0.001` has it at -2 and `100` at 3. -/
def point (d : Decimal) : Int := (digitChars d.digits).length + d.exponent

theorem toRat_lt_tenPow_point (d : Decimal) : d.toRat < 10 ^ d.point := by
  have hlt : (d.digits : ℚ) < 10 ^ (digitChars d.digits).length := by
    exact_mod_cast lt_tenPow_length d.digits
  rw [toRat, point, zpow_add₀ (by norm_num), zpow_natCast]
  exact mul_lt_mul_of_pos_right hlt (by positivity)

theorem tenPow_point_le_toRat {d : Decimal} (h : d.digits ≠ 0) :
    (10 : ℚ) ^ (d.point - 1) ≤ d.toRat := by
  have hle : (10 : ℚ) ^ ((digitChars d.digits).length - 1) ≤ d.digits := by
    exact_mod_cast tenPow_length_le h
  have hlen := length_digitChars_pos d.digits
  have hexp : d.point - 1 = ((digitChars d.digits).length - 1 : Nat) + d.exponent := by
    rw [point]
    omega
  rw [toRat, hexp, zpow_add₀ (by norm_num), zpow_natCast]
  exact mul_le_mul_of_nonneg_right hle (by positivity)

/-- A magnitude with a fraction has at most 16 digits before the point. -/
theorem point_shortest_le {n : Nat} (hn : OnGrid n) (h : ¬ unitsPerOne ∣ n) :
    (shortest n).point ≤ 16 := by
  have h0 : n ≠ 0 := fun h0 => h (h0 ▸ Nat.dvd_zero _)
  by_contra hlt
  have hlarge : (2 : ℚ) ^ 52 ≤ (shortest n).toRat := by
    calc (2 : ℚ) ^ 52 ≤ 10 ^ (16 : ℤ) := by norm_num
      _ ≤ 10 ^ ((shortest n).point - 1) := zpow_le_zpow_right₀ (by norm_num) (by omega)
      _ ≤ _ := tenPow_point_le_toRat (digits_shortest_ne_zero hn h0)
  rw [unitsPerOne_eq] at h
  have hlt := lt_of_not_twoPow_dvd hn h
  have hgrid : OnGrid (twoPow unitPlaces * twoPow 52) :=
    onGrid_twoPow_mul unitPlaces (t := twoPow 52) (by decide)
  have hle : twoPow unitPlaces * twoPow 52 ≤ n := by
    refine (isNearest_natCast hgrid).mono (isNearest_shortest hn h0) ?_
    rw [Nat.cast_mul, ← unitsPerOne_eq, mul_comm]
    have hcast : ((twoPow 52 : Nat) : ℚ) = 2 ^ 52 := by norm_num [twoPow]
    rw [hcast]
    exact mul_le_mul_of_nonneg_right hlarge cast_unitsPerOne_pos.le
  omega

/-- One ten thousandth. -/
def tenThousandth : Decimal := ⟨1, -4⟩

/-- The units of the value nearest to one ten thousandth. -/
def tenThousandthUnits : Nat := roundQuotient tenThousandth.unitsNum tenThousandth.unitsDen

theorem isNearest_tenThousandth :
    IsNearest (10 ^ (-4 : ℤ) * unitsPerOne) tenThousandthUnits := by
  have nearest := isNearest_units tenThousandth
  have hvalue : tenThousandth.toRat = 10 ^ (-4 : ℤ) := by
    rw [toRat, tenThousandth, Nat.cast_one, one_mul]
  rwa [hvalue] at nearest

theorem shortest_tenThousandthUnits : shortest tenThousandthUnits = tenThousandth := by
  decide +kernel

/-- The first digit stands at the fourth place after the point or higher from the value on that is
nearest to `0.0001`. That value itself is not excepted, as its shortest decimal is `0.0001`. -/
theorem lt_point_shortest_iff {n : Nat} (hn : OnGrid n) (h0 : n ≠ 0) :
    -4 < (shortest n).point ↔ tenThousandthUnits ≤ n := by
  have nearest := isNearest_shortest hn h0
  have hU := cast_unitsPerOne_pos.le
  constructor
  · intro hlt
    refine isNearest_tenThousandth.mono nearest (mul_le_mul_of_nonneg_right ?_ hU)
    calc (10 : ℚ) ^ (-4 : ℤ) ≤ 10 ^ ((shortest n).point - 1) :=
          zpow_le_zpow_right₀ (by norm_num) (by omega)
      _ ≤ _ := tenPow_point_le_toRat (digits_shortest_ne_zero hn h0)
  · intro hle
    by_contra hpoint
    have hsmall : (shortest n).toRat ≤ 10 ^ (-4 : ℤ) := by
      calc (shortest n).toRat ≤ 10 ^ (shortest n).point := (toRat_lt_tenPow_point _).le
        _ ≤ 10 ^ (-4 : ℤ) := zpow_le_zpow_right₀ (by norm_num) (by omega)
    have hge : n ≤ tenThousandthUnits :=
      nearest.mono isNearest_tenThousandth (mul_le_mul_of_nonneg_right hsmall hU)
    obtain rfl : n = tenThousandthUnits := by omega
    rw [shortest_tenThousandthUnits] at hpoint
    exact hpoint (by decide)

end Decimal

end PolySolve
