import Mathlib.Data.Int.Order.Lemmas
import PolySolve.Proofs.Binary64.Arithmetic
import PolySolve.Proofs.Binary64.Nearest

/-!
# Rounding keeps the order

A larger number is never rounded to a smaller value, so sums and quotients are
in the order of their operands. Finite values are compared by their units, as
integers; the sign of zero does not count.

* `IsNearest.mono`: rounding to the nearest magnitude is monotone;
* `nearestUnits_mono`: so is rounding with a sign;
* `units_add`, `units_div`: what is rounded in a sum and in a quotient;
* `sub_le_add`, `div_le_div_of_pos`, `div_le_div_of_neg`: the order of results.
-/

namespace PolySolve.Binary64

-- The elaborator must not evaluate these powers of two.
attribute [local irreducible] overflowUnits unitsPerOne

/-! ## Magnitudes -/

theorem IsNearest.mono {q r : ℚ} {m n : Nat} (hm : IsNearest q m) (hn : IsNearest r n)
    (h : q ≤ r) : m ≤ n := by
  rcases h.lt_or_eq with hlt | rfl
  case inr => exact (hm.unique hn).le
  by_contra hnm
  have hnm : (n : ℚ) < m := by exact_mod_cast Nat.lt_of_not_le hnm
  -- The middle of the two is not above `q` and not below `r`.
  have hq : (n : ℚ) + m ≤ 2 * q := by
    have near := hm.le n hn.onGrid
    rcases abs_cases ((m : ℚ) - q) with ⟨e₁, s₁⟩ | ⟨e₁, s₁⟩ <;>
      rcases abs_cases ((n : ℚ) - q) with ⟨e₂, s₂⟩ | ⟨e₂, s₂⟩ <;> linarith
  have hr : 2 * r ≤ (n : ℚ) + m := by
    have near := hn.le m hm.onGrid
    rcases abs_cases ((m : ℚ) - r) with ⟨e₁, s₁⟩ | ⟨e₁, s₁⟩ <;>
      rcases abs_cases ((n : ℚ) - r) with ⟨e₂, s₂⟩ | ⟨e₂, s₂⟩ <;> linarith
  linarith

theorem roundQuotient_mono {num num' den : Nat} (hd : 0 < den) (h : num ≤ num') :
    roundQuotient num den ≤ roundQuotient num' den := by
  refine (isNearest_roundQuotient num hd).mono (isNearest_roundQuotient num' hd) ?_
  have hden : (0 : ℚ) < den := by exact_mod_cast hd
  have hnum : (num : ℚ) ≤ num' := by exact_mod_cast h
  exact div_le_div_of_nonneg_right hnum hden.le

theorem roundQuotient_zero (den : Nat) : roundQuotient 0 den = 0 := by
  rw [roundQuotient, Nat.zero_div, roundDiv, Nat.zero_mod, Nat.zero_div]
  split <;> simp_all

/-! ## Values in units -/

/-- A sign and a number of units. -/
def signedUnits (negative : Bool) (n : Nat) : Int := (if negative then -1 else 1) * n

/-- A finite value in units, with its sign. -/
def units : Binary64 → Int
  | finite s n _ _ => signedUnits s n
  | _ => 0

theorem units_finite {s : Bool} {n : Nat} {hn : OnGrid n} {b : n < overflowUnits} :
    units (finite s n hn b) = signedUnits s n := rfl

/-- The number of units that `num / den` units are rounded to. -/
def nearestUnits (num : Int) (den : Nat) : Int := num.sign * roundQuotient num.natAbs den

@[simp] theorem signedUnits_false (n : Nat) : signedUnits false n = n := one_mul _

@[simp] theorem signedUnits_true (n : Nat) : signedUnits true n = -n := neg_one_mul _

theorem signedUnits_add (s : Bool) (m n : Nat) :
    signedUnits s m + signedUnits s n = signedUnits s (m + n) := by
  cases s with
  | false => simp
  | true => simp; omega

/-- Of opposite signs the one of the larger magnitude counts. -/
theorem signedUnits_add_of_ne {s t : Bool} (h : s ≠ t) {m n : Nat} (hmn : n ≤ m) :
    signedUnits s m + signedUnits t n = signedUnits s (m - n) := by
  obtain rfl : t = !s := by cases s <;> cases t <;> simp_all
  cases s <;> simp <;> omega

theorem nearestUnits_signedUnits (s : Bool) (n den : Nat) :
    nearestUnits (signedUnits s n) den = signedUnits s (roundQuotient n den) := by
  by_cases h0 : n = 0
  · subst h0
    cases s <;> simp [nearestUnits, roundQuotient_zero]
  · have hpos : (n : Int).sign = 1 := Int.sign_eq_one_of_pos (by omega)
    cases s <;> simp [nearestUnits, hpos]

/-- The larger number is not rounded to the smaller value. -/
theorem nearestUnits_mono {num num' : Int} {den : Nat} (hd : 0 < den) (h : num ≤ num') :
    nearestUnits num den ≤ nearestUnits num' den := by
  have magnitudes {m n : Nat} (h : m ≤ n) : roundQuotient m den ≤ roundQuotient n den :=
    roundQuotient_mono hd h
  rcases Int.natAbs_eq num with e | e <;> rcases Int.natAbs_eq num' with e' | e'
  all_goals
    generalize num.natAbs = m at e
    generalize num'.natAbs = n at e'
    subst e e'
  · have := magnitudes (Int.ofNat_le.1 h)
    have hm := nearestUnits_signedUnits false m den
    have hn := nearestUnits_signedUnits false n den
    simp only [signedUnits_false] at hm hn
    omega
  · obtain ⟨rfl, rfl⟩ : m = 0 ∧ n = 0 := by omega
    simp
  · have hm := nearestUnits_signedUnits true m den
    have hn := nearestUnits_signedUnits false n den
    simp only [signedUnits_false, signedUnits_true] at hm hn
    omega
  · have := magnitudes (m := n) (n := m) (by omega)
    have hm := nearestUnits_signedUnits true m den
    have hn := nearestUnits_signedUnits true n den
    simp only [signedUnits_true] at hm hn
    omega

theorem units_ofUnits {s : Bool} {n : Nat} {h : OnGrid n} (hf : (ofUnits s n h).isFinite) :
    units (ofUnits s n h) = signedUnits s n := by
  have b := (isFinite_ofUnits_iff h).1 hf
  rw [ofUnits, dif_pos b, units_finite]

theorem isZero_of_units_ne {x : Binary64} (h : units x ≠ 0) : x.isZero = false := by
  cases x with
  | nan => rfl
  | infinite s => rfl
  | finite s n hn b =>
    refine beq_eq_false_iff_ne.2 ?_
    rintro rfl
    exact h (Int.mul_zero _)

theorem units_neg (x : Binary64) : units (-x) = -units x := by
  cases x with
  | nan => rfl
  | infinite s => rfl
  | finite s n hn b =>
    show signedUnits (!s) n = -signedUnits s n
    cases s <;> simp

/-- Twice a value is exact. -/
theorem units_two_mul {x : Binary64} (h : (2 * x).isFinite) : units (2 * x) = 2 * units x := by
  cases x with
  | nan => rw [mul_nan]; rfl
  | infinite s => exact absurd (isFinite_of_mul h).2 Bool.false_ne_true
  | finite s n hn b =>
    rw [two_mul_finite] at h ⊢
    rw [units_ofUnits h, units_finite]
    cases s <;> simp

/-- A square root is not below zero. -/
theorem units_sqrt_nonneg (x : Binary64) : 0 ≤ units x.sqrt := by
  cases x with
  | nan => exact Int.le_refl _
  | infinite s => cases s <;> exact Int.le_refl _
  | finite s n hn b =>
    show 0 ≤ units (if n = 0 then finite s n hn b else if s then nan else roundSqrt (n * unitsPerOne))
    split
    · rename_i h0
      subst h0
      simp [units_finite, signedUnits]
    split
    · exact Int.le_refl _
    · unfold roundSqrt ofUnits
      split
      · simp [units_finite]
      · exact Int.le_refl _

/-- The exact sum is rounded. -/
theorem units_add {x y : Binary64} (h : (x + y).isFinite) :
    units (x + y) = nearestUnits (units x + units y) 1 := by
  obtain ⟨hx, hy⟩ := isFinite_of_add h
  cases x with
  | nan => contradiction
  | infinite => contradiction
  | finite s m hm bm =>
  cases y with
  | nan => contradiction
  | infinite => contradiction
  | finite t n hn bn =>
    have hadd : finite s m hm bm + finite t n hn bn =
        if s = t then round s (m + n) 1 else if m = n then zero
        else if n < m then round s (m - n) 1 else round t (n - m) 1 := rfl
    have rounded : ∀ {r k}, (round r k 1).isFinite →
        units (round r k 1) = nearestUnits (signedUnits r k) 1 := fun hf => by
      rw [round, units_ofUnits hf, nearestUnits_signedUnits]
    rw [hadd] at h ⊢
    show _ = nearestUnits (signedUnits s m + signedUnits t n) 1
    split at h
    · rename_i hst
      subst hst
      rw [if_pos rfl, rounded h, signedUnits_add]
    rename_i hst
    rw [if_neg hst]
    split at h
    · rename_i hmn
      subst hmn
      rw [if_pos rfl, signedUnits_add_of_ne hst (Nat.le_refl m), Nat.sub_self]
      cases s <;> rfl
    rename_i hmn
    rw [if_neg hmn]
    split at h
    · rename_i hlt
      rw [if_pos hlt, rounded h, signedUnits_add_of_ne hst hlt.le]
    · rename_i hlt
      rw [if_neg hlt, rounded h, add_comm, signedUnits_add_of_ne (Ne.symm hst) (Nat.le_of_not_lt hlt)]

/-- The exact product is rounded. -/
theorem units_mul {x y : Binary64} (h : (x * y).isFinite) :
    units (x * y) = nearestUnits (units x * units y) unitsPerOne := by
  obtain ⟨hx, hy⟩ := isFinite_of_mul h
  cases x with
  | nan => contradiction
  | infinite => contradiction
  | finite s m hm bm =>
  cases y with
  | nan => contradiction
  | infinite => contradiction
  | finite t n hn bn =>
    have hmul : finite s m hm bm * finite t n hn bn = round (s != t) (m * n) unitsPerOne := rfl
    have hproduct : signedUnits s m * signedUnits t n = signedUnits (s != t) (m * n) := by
      cases s <;> cases t <;> simp
    rw [hmul] at h ⊢
    rw [units_finite, units_finite, hproduct, nearestUnits_signedUnits, round, units_ofUnits h]

/-- The exact quotient is rounded. -/
theorem units_div {x y : Binary64} (h : (x / y).isFinite) (hy : y.isFinite)
    (h0 : y.isZero = false) :
    units (x / y) =
      nearestUnits (units x * unitsPerOne * (units y).sign) (units y).natAbs := by
  have hx := isFinite_of_div h
  cases x with
  | nan => contradiction
  | infinite => contradiction
  | finite s m hm bm =>
  cases y with
  | nan => contradiction
  | infinite => contradiction
  | finite t n hn bn =>
    have hn0 : n ≠ 0 := beq_eq_false_iff_ne.1 h0
    have hdiv : finite s m hm bm / finite t n hn bn =
        if n = 0 then (if m = 0 then nan else infinite (s != t))
        else round (s != t) (m * unitsPerOne) n := rfl
    rw [hdiv, if_neg hn0] at h ⊢
    have hsign : (n : Int).sign = 1 := Int.sign_eq_one_of_pos (by omega)
    have hnum : signedUnits s m * unitsPerOne * (signedUnits t n).sign =
        signedUnits (s != t) (m * unitsPerOne) := by
      cases s <;> cases t <;> simp [hsign]
    have hden : (signedUnits t n).natAbs = n := by cases t <;> simp
    rw [units_finite, units_finite, hnum, hden, nearestUnits_signedUnits, round, units_ofUnits h]

/-! ## The order of values -/

theorem lt_iff_units {x y : Binary64} (hx : x.isFinite) (hy : y.isFinite) :
    x < y ↔ units x < units y := by
  cases x with
  | nan => contradiction
  | infinite => contradiction
  | finite s m hm bm =>
  cases y with
  | nan => contradiction
  | infinite => contradiction
  | finite t n hn bn => exact decide_eq_true_iff

theorem le_iff_units {x y : Binary64} (hx : x.isFinite) (hy : y.isFinite) :
    x ≤ y ↔ units x ≤ units y := by
  have hle : x ≤ y ↔ x < y ∨ x.numEq y := Bool.or_eq_true_iff
  rw [hle, lt_iff_units hx hy]
  cases x with
  | nan => contradiction
  | infinite => contradiction
  | finite s m hm bm =>
  cases y with
  | nan => contradiction
  | infinite => contradiction
  | finite t n hn bn =>
    have hnum : (finite s m hm bm).numEq (finite t n hn bn) ↔ signedUnits s m = signedUnits t n := by
      show (m == n && (s == t || m == 0)) = true ↔ _
      cases s <;> cases t <;> simp <;> omega
    rw [hnum]
    exact Int.le_iff_lt_or_eq.symm

theorem units_zero : units zero = 0 := rfl

/-- What is added is not less than what is taken away. -/
theorem sub_le_add {x y : Binary64} (hsub : (x - y).isFinite) (hadd : (x + y).isFinite)
    (h : 0 ≤ units y) : x - y ≤ x + y := by
  have hneg : (x + -y).isFinite := hsub
  have hle : x + -y ≤ x + y := by
    rw [le_iff_units hneg hadd, units_add hneg, units_add hadd, units_neg]
    exact nearestUnits_mono Nat.one_pos (by omega)
  exact hle

/-- A larger dividend gives a larger quotient if the divisor is above zero. -/
theorem div_le_div_of_pos {x y d : Binary64} (hx : (x / d).isFinite) (hy : (y / d).isFinite)
    (hd : d.isFinite) (hpos : zero < d) (h : x ≤ y) : x / d ≤ y / d := by
  rw [lt_iff_units rfl hd, units_zero] at hpos
  rw [le_iff_units (isFinite_of_div hx) (isFinite_of_div hy)] at h
  have h0 := isZero_of_units_ne hpos.ne'
  rw [le_iff_units hx hy, units_div hx hd h0, units_div hy hd h0, Int.sign_eq_one_of_pos hpos]
  refine nearestUnits_mono (by omega) ?_
  simpa only [mul_one] using Int.mul_le_mul_of_nonneg_right h (Int.natCast_nonneg _)

/-- A larger dividend gives a smaller quotient if the divisor is below zero. -/
theorem div_le_div_of_neg {x y d : Binary64} (hx : (x / d).isFinite) (hy : (y / d).isFinite)
    (hd : d.isFinite) (hneg : d < zero) (h : x ≤ y) : y / d ≤ x / d := by
  rw [lt_iff_units hd rfl, units_zero] at hneg
  rw [le_iff_units (isFinite_of_div hx) (isFinite_of_div hy)] at h
  have h0 := isZero_of_units_ne hneg.ne
  rw [le_iff_units hy hx, units_div hx hd h0, units_div hy hd h0, Int.sign_eq_neg_one_of_neg hneg]
  refine nearestUnits_mono (by omega) ?_
  have := Int.mul_le_mul_of_nonneg_right h (Int.natCast_nonneg unitsPerOne)
  omega

end PolySolve.Binary64
