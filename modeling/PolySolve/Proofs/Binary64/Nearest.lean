import Mathlib.Algebra.Order.Ring.Abs
import Mathlib.Algebra.Order.Field.Basic
import Mathlib.Algebra.Order.Field.Rat
import Mathlib.Tactic.FieldSimp
import Mathlib.Tactic.Linarith
import Mathlib.Tactic.Positivity
import Mathlib.Tactic.Ring
import PolySolve.Decimal.Basic

/-!
# Rounding is to the nearest magnitude

`IsNearest q n` says what it is to round a number of `q` units, without a way to
compute it: no magnitude of at most 53 bits is nearer than `n` units, and if
another is as near then the last bit of `n` is zero.

* `IsNearestWhole`: what it is to round to a whole number, in either direction;
* `isNearest_roundQuotient`: the quotients that arithmetic rounds are rounded so;
* `IsNearest.unique`: there is no choice;
* `rounds_toBinary64`: the value of a decimal number is rounded so, once.
-/

namespace PolySolve.Binary64

/-- Rounding `q` units gives `n` units. -/
structure IsNearest (q : ℚ) (n : Nat) : Prop where
  onGrid : OnGrid n
  le : ∀ m, OnGrid m → |(n : ℚ) - q| ≤ |(m : ℚ) - q|
  /-- The last bit of `n` is zero if another magnitude is as near. -/
  even : ∀ m, OnGrid m → m ≠ n → |(m : ℚ) - q| = |(n : ℚ) - q| → 2 * spacing n ∣ n

/-! ## Whole numbers -/

/-- `roundDiv` is at most a half away from the quotient, and even at a half. -/
theorem abs_roundDiv_sub (num : Nat) {den : Nat} (h : 0 < den) :
    |(roundDiv num den : ℚ) - num / den| < 1 / 2 ∨
      |(roundDiv num den : ℚ) - num / den| = 1 / 2 ∧ 2 ∣ roundDiv num den := by
  have hden : (0 : ℚ) < den := by exact_mod_cast h
  have hq : (num : ℚ) / den = (num / den : Nat) + (num % den : Nat) / den := by
    rw [eq_comm, ← eq_div_of_mul_eq hden.ne' (?_ : _ * (den : ℚ) = num)]
    rw [add_mul, div_mul_cancel₀ _ hden.ne']
    exact_mod_cast Nat.div_add_mod' num den
  have hr0 : (0 : ℚ) ≤ (num % den : Nat) / den := by positivity
  have hr1 : ((num % den : Nat) : ℚ) / den < 1 := by
    rw [div_lt_one hden]
    exact_mod_cast Nat.mod_lt num h
  rw [hq]
  unfold roundDiv
  generalize num / den = k
  split
  · rename_i hlt
    have : ((num % den : Nat) : ℚ) / den < 1 / 2 := by
      rw [div_lt_div_iff₀ hden two_pos, one_mul]
      exact_mod_cast (by omega : num % den * 2 < den)
    left
    rw [abs_lt]
    constructor <;> linarith
  · split
    · rename_i hlt
      have : 1 / 2 < ((num % den : Nat) : ℚ) / den := by
        rw [div_lt_div_iff₀ two_pos hden, one_mul]
        exact_mod_cast (by omega : den < num % den * 2)
      left
      push_cast
      rw [abs_lt]
      constructor <;> linarith
    · rename_i h₁ h₂
      have half : ((num % den : Nat) : ℚ) / den = 1 / 2 := by
        rw [div_eq_div_iff hden.ne' two_ne_zero, one_mul]
        exact_mod_cast (by omega : num % den * 2 = den)
      right
      refine ⟨?_, by omega⟩
      rw [half]
      rcases Nat.mod_two_eq_zero_or_one k with hk | hk <;> rw [hk] <;> push_cast
      · rw [abs_of_nonpos] <;> linarith
      · rw [abs_of_nonneg] <;> linarith

/-- No whole number is nearer to `q` than `k`, and `k` is even if another one is as near. -/
structure IsNearestWhole (q : ℚ) (k : Int) : Prop where
  le : ∀ j : Int, |(k : ℚ) - q| ≤ |(j : ℚ) - q|
  even : ∀ j : Int, j ≠ k → |(j : ℚ) - q| = |(k : ℚ) - q| → 2 ∣ k

section

variable {q r : ℚ} {j k : Int}

theorem isNearestWhole_of_abs (h : |(k : ℚ) - q| < 1 / 2 ∨ |(k : ℚ) - q| = 1 / 2 ∧ 2 ∣ k) :
    IsNearestWhole q k := by
  have apart (j : Int) (hj : j ≠ k) : (1 : ℚ) ≤ |(j : ℚ) - q| + |(k : ℚ) - q| := by
    have hone : (1 : ℚ) ≤ |(j : ℚ) - k| := by
      exact_mod_cast Int.one_le_abs (sub_ne_zero.2 hj)
    have triangle := abs_sub_le (j : ℚ) q k
    rw [abs_sub_comm q] at triangle
    linarith
  have half : |(k : ℚ) - q| ≤ 1 / 2 := h.elim le_of_lt fun h => h.1.le
  refine ⟨fun j => ?_, fun j hj heq => ?_⟩
  · by_cases hj : j = k
    · rw [hj]
    · linarith [apart j hj]
  · exact (h.resolve_left fun hlt => by linarith [apart j hj]).2

theorem IsNearestWhole.neg (h : IsNearestWhole q k) : IsNearestWhole (-q) (-k) := by
  have flip (i : Int) : |((-i : Int) : ℚ) - -q| = |(i : ℚ) - q| := by
    rw [Int.cast_neg, neg_sub_neg, abs_sub_comm]
  refine ⟨fun j => ?_, fun j hj heq => ?_⟩
  · rw [← Int.neg_neg j, flip, flip]
    exact h.le (-j)
  · rw [← Int.neg_neg j, flip, flip] at heq
    exact Int.dvd_neg.2 (h.even (-j) (fun hk => hj (by omega)) heq)

/-- What is nearer to the greater of two numbers is not below their middle. -/
theorem add_le_two_mul {a b : ℚ} (hba : b < a) (h : |a - q| ≤ |b - q|) : a + b ≤ 2 * q := by
  by_contra hmiddle
  have hb : |b - q| < a - q := abs_lt.2 ⟨by linarith, by linarith⟩
  linarith [le_abs_self (a - q)]

/-- What is nearer to the smaller one is not above it. -/
theorem two_mul_le_add {a b : ℚ} (hba : b < a) (h : |b - q| ≤ |a - q|) : 2 * q ≤ a + b := by
  by_contra hmiddle
  have ha : |a - q| < q - b := abs_lt.2 ⟨by linarith, by linarith⟩
  linarith [neg_le_abs (b - q)]

/-- Rounding keeps the order. -/
theorem IsNearestWhole.mono (hk : IsNearestWhole q k) (hj : IsNearestWhole r j) (h : q ≤ r) :
    k ≤ j := by
  by_contra hlt
  have hcast : (j : ℚ) < k := by exact_mod_cast Int.not_le.1 hlt
  have hq := add_le_two_mul hcast (hk.le j)
  have hr := two_mul_le_add hcast (hj.le k)
  -- Both are in the middle, so `j` and `k` are even, and a whole number between them is nearer.
  obtain rfl : q = r := by linarith
  have hkq : |(k : ℚ) - q| = (k - j) / 2 := by
    rw [abs_of_pos (by linarith)]
    linarith
  have hjq : |(j : ℚ) - q| = (k - j) / 2 := by
    rw [abs_of_neg (by linarith)]
    linarith
  have heven := hk.even j (by omega) (hjq.trans hkq.symm)
  have heven' := hj.even k (by omega) (hkq.trans hjq.symm)
  have hgap : (j : ℚ) + 2 ≤ k := by
    have : j + 2 ≤ k := by omega
    exact_mod_cast this
  have hle := hk.le (k - 1)
  rw [hkq, Int.cast_sub, Int.cast_one, abs_of_nonneg (by linarith)] at hle
  linarith

end

theorem isNearestWhole_roundDiv (num : Nat) {den : Nat} (h : 0 < den) :
    IsNearestWhole (num / den) (roundDiv num den) := by
  refine isNearestWhole_of_abs ?_
  rw [Int.cast_natCast]
  exact (abs_roundDiv_sub num h).imp_right fun h => ⟨h.1, by exact_mod_cast h.2⟩

/-- No whole number is nearer to a quotient than `roundDiv`, and one that is as near is odd. -/
theorem roundDiv_nearest (num : Nat) {den : Nat} (h : 0 < den) (t : Nat) :
    |(roundDiv num den : ℚ) - num / den| ≤ |(t : ℚ) - num / den| ∧
      (t ≠ roundDiv num den → |(t : ℚ) - num / den| = |(roundDiv num den : ℚ) - num / den| →
        2 ∣ roundDiv num den) := by
  have nearest := isNearestWhole_roundDiv num h
  refine ⟨by exact_mod_cast nearest.le t, fun ht heq => ?_⟩
  exact_mod_cast nearest.even t (by exact_mod_cast ht) (by exact_mod_cast heq)

/-! ## Magnitudes -/

theorem log2_le_log2 {m n : Nat} (h : m ≤ n) : m.log2 ≤ n.log2 := by
  by_cases hm : m = 0
  · subst hm; exact Nat.zero_le _
  · exact (le_log2_iff (by omega)).2 (Nat.le_trans (twoPow_log2_le hm) h)

theorem spacing_dvd_spacing {m n : Nat} (h : m ≤ n) : spacing m ∣ spacing n :=
  twoPow_dvd_of_le (Nat.sub_le_sub_right (log2_le_log2 h) 52)

/-- A magnitude that is finer than the spacing at `n` lies below the power of two at `n`, which is
on the grid too. -/
theorem lt_of_not_spacing_dvd {m n : Nat} (hm : OnGrid m) (h : ¬ spacing n ∣ m) :
    m < spacing n * twoPow 52 ∧ spacing n * twoPow 52 ≤ n := by
  have hm0 : m ≠ 0 := fun h0 => h (h0 ▸ Nat.dvd_zero _)
  have hlog : m.log2 < n.log2 := by
    by_contra hle
    exact h (Nat.dvd_trans (twoPow_dvd_of_le (by omega)) hm)
  have h52 : 52 ≤ n.log2 := by
    by_contra hlt
    exact h (by rw [spacing, Nat.sub_eq_zero_of_le (by omega)]; exact Nat.one_dvd m)
  have hn0 : n ≠ 0 := by rintro rfl; exact Nat.not_lt_zero _ hlog
  rw [spacing, ← twoPow_add, Nat.sub_add_cancel h52]
  exact ⟨(log2_lt_iff hm0).1 hlog, twoPow_log2_le hn0⟩

/-- The last bit of `t` times a power of two is zero if `t` is even and has at most 53 bits, or is
the power of two above them. -/
theorem two_mul_spacing_dvd (j : Nat) {t : Nat} (ht : t ≤ twoPow 53) (heven : 2 ∣ t) :
    2 * spacing (twoPow j * t) ∣ twoPow j * t := by
  rcases Nat.lt_or_eq_of_le ht with hlt | rfl
  · by_cases h0 : twoPow j * t = 0
    · rw [h0]; exact Nat.dvd_zero _
    have hlog : (twoPow j * t).log2 < j + 53 := by
      rw [log2_lt_iff h0, twoPow_add]
      exact Nat.mul_lt_mul_of_pos_left hlt (twoPow_pos j)
    rw [Nat.mul_comm 2]
    exact Nat.mul_dvd_mul (twoPow_dvd_of_le (by omega)) heven
  · have hlog : (twoPow (j + 53)).log2 = j + 53 := Nat.log2_two_pow
    rw [← twoPow_add, spacing, hlog, ← twoPow_succ]
    exact twoPow_dvd_of_le (by omega)

theorem abs_mul_sub_div (num : Nat) {den s : Nat} (h : 0 < den) (hs : 0 < s) (t : Nat) :
    |((s * t : Nat) : ℚ) - num / den| = s * |(t : ℚ) - num / (den * s : Nat)| := by
  have hsQ : (0 : ℚ) < s := by exact_mod_cast hs
  have hdQ : (0 : ℚ) < den := by exact_mod_cast h
  have factored : ((s * t : Nat) : ℚ) - num / den = s * (t - num / (den * s : Nat)) := by
    push_cast
    field_simp
  rw [factored, abs_mul, abs_of_pos hsQ]

/-- Among the multiples of the spacing at the quotient, rounding is rounding to a whole number. -/
theorem roundQuotient_nearest_of_dvd (num : Nat) {den m : Nat} (h : 0 < den)
    (hm : spacing (num / den) ∣ m) :
    |(roundQuotient num den : ℚ) - num / den| ≤ |(m : ℚ) - num / den| ∧
      (m ≠ roundQuotient num den →
        |(m : ℚ) - num / den| = |(roundQuotient num den : ℚ) - num / den| →
        2 * spacing (roundQuotient num den) ∣ roundQuotient num den) := by
  obtain ⟨t, rfl⟩ := hm
  have hs := spacing_pos (num / den)
  have hsQ : (0 : ℚ) < spacing (num / den) := by exact_mod_cast hs
  have hr : roundDiv num (den * spacing (num / den)) ≤ twoPow 53 := by
    refine Nat.le_trans (roundDiv_le_succ _ _) ?_
    rw [← Nat.div_div_eq_div_mul]
    exact div_spacing_lt (num / den)
  have heven : 2 ∣ roundDiv num (den * spacing (num / den)) →
      2 * spacing (roundQuotient num den) ∣ roundQuotient num den := two_mul_spacing_dvd _ hr
  have scaled := abs_mul_sub_div num h hs
  obtain ⟨hle, htie⟩ := roundDiv_nearest num (Nat.mul_pos h hs) t
  rw [roundQuotient] at *
  rw [scaled, scaled]
  refine ⟨mul_le_mul_of_nonneg_left hle hsQ.le, fun hne heq => heven ?_⟩
  exact htie (fun ht => hne (by rw [ht])) (mul_left_cancel₀ hsQ.ne' heq)

/-- All other magnitudes are finer and smaller, so the power of two above them is nearer. -/
theorem roundQuotient_nearest_of_not_dvd (num : Nat) {den m : Nat} (h : 0 < den) (hm : OnGrid m)
    (hd : ¬ spacing (num / den) ∣ m) :
    |(roundQuotient num den : ℚ) - num / den| < |(m : ℚ) - num / den| := by
  obtain ⟨hlt, hle⟩ := lt_of_not_spacing_dvd hm hd
  have near := (roundQuotient_nearest_of_dvd num h (Nat.dvd_mul_right _ (twoPow 52))).1
  have hfloor : ((num / den : Nat) : ℚ) ≤ num / den := by
    rw [le_div_iff₀ (by exact_mod_cast h)]
    exact_mod_cast Nat.div_mul_le_self num den
  generalize spacing (num / den) * twoPow 52 = k at *
  have hltQ : (m : ℚ) < k := by exact_mod_cast hlt
  have hleQ : (k : ℚ) ≤ (num / den : Nat) := by exact_mod_cast hle
  refine near.trans_lt ?_
  rw [abs_of_nonpos (by linarith), abs_of_nonpos (by linarith)]
  linarith

/-- Arithmetic rounds a quotient to the nearest magnitude. -/
theorem isNearest_roundQuotient (num : Nat) {den : Nat} (h : 0 < den) :
    IsNearest (num / den) (roundQuotient num den) := by
  refine ⟨onGrid_roundQuotient num den, fun m hm => ?_, fun m hm hne heq => ?_⟩
  · by_cases hd : spacing (num / den) ∣ m
    · exact (roundQuotient_nearest_of_dvd num h hd).1
    · exact (roundQuotient_nearest_of_not_dvd num h hm hd).le
  · by_cases hd : spacing (num / den) ∣ m
    · exact (roundQuotient_nearest_of_dvd num h hd).2 hne heq
    · exact absurd heq (roundQuotient_nearest_of_not_dvd num h hm hd).ne'

/-- Between a magnitude and the next one there is no other. -/
theorem add_spacing_le {m n : Nat} (hn : OnGrid n) (hm : OnGrid m) (h : n < m) :
    n + spacing n ≤ m := by
  have hd : spacing n ∣ m := Nat.dvd_trans (spacing_dvd_spacing h.le) hm
  have := Nat.le_of_dvd (by omega) (Nat.dvd_sub hd hn)
  omega

theorem onGrid_add_spacing {n : Nat} (hn : OnGrid n) : OnGrid (n + spacing n) := by
  have h : n + spacing n = spacing n * (n / spacing n + 1) := by
    rw [Nat.mul_add, Nat.mul_div_cancel' hn, Nat.mul_one]
  rw [h]
  exact onGrid_twoPow_mul_of_le _ (div_spacing_lt n)

theorem IsNearest.not_lt {q : ℚ} {m n : Nat} (hn : IsNearest q n) (hm : IsNearest q m) :
    ¬ n < m := by
  intro hlt
  have heq : |(m : ℚ) - q| = |(n : ℚ) - q| := le_antisymm (hm.le n hn.onGrid) (hn.le m hm.onGrid)
  have hne : m ≠ n := by omega
  have evenN : 2 * spacing n ∣ n := hn.even m hm.onGrid hne heq
  have evenM : 2 * spacing m ∣ m := hm.even n hn.onGrid hne.symm heq.symm
  -- Equally far on both sides, so nothing lies between the two, yet their difference is even.
  have hnext : m = n + spacing n := by
    have hle := add_spacing_le hn.onGrid hm.onGrid hlt
    by_contra hne'
    have hbetween := hn.le _ (onGrid_add_spacing hn.onGrid)
    have h₁ : (n : ℚ) < (n + spacing n : Nat) := by
      exact_mod_cast Nat.lt_add_of_pos_right (spacing_pos n)
    have h₂ : ((n + spacing n : Nat) : ℚ) < m := by exact_mod_cast (by omega)
    generalize ((n + spacing n : Nat) : ℚ) = x at *
    rcases abs_cases ((n : ℚ) - q) with ⟨e₁, s₁⟩ | ⟨e₁, s₁⟩ <;>
      rcases abs_cases ((m : ℚ) - q) with ⟨e₂, s₂⟩ | ⟨e₂, s₂⟩ <;>
      rcases abs_cases (x - q) with ⟨e₃, s₃⟩ | ⟨e₃, s₃⟩ <;> linarith
  have hd : 2 * spacing n ∣ m :=
    Nat.dvd_trans (Nat.mul_dvd_mul_left 2 (spacing_dvd_spacing hlt.le)) evenM
  have := Nat.le_of_dvd (spacing_pos n) ((Nat.dvd_add_right evenN).1 (hnext ▸ hd))
  have := spacing_pos n
  omega

theorem IsNearest.unique {q : ℚ} {m n : Nat} (hm : IsNearest q m) (hn : IsNearest q n) : m = n := by
  have := hm.not_lt hn
  have := hn.not_lt hm
  omega

/-! ## Values -/

/-- Rounding a number that is not below zero gives a value: the nearest magnitude of at most 53
bits, or infinity if that is too large. -/
def Rounds (q : ℚ) (x : Binary64) : Prop :=
  ∃ n, ∃ h : OnGrid n, IsNearest (q * unitsPerOne) n ∧ x = ofUnits false n h

theorem Rounds.unique {q : ℚ} {x y : Binary64} (hx : Rounds q x) (hy : Rounds q y) : x = y := by
  obtain ⟨m, _, hm, ex⟩ := hx
  obtain ⟨n, _, hn, ey⟩ := hy
  obtain rfl := hm.unique hn
  exact ex.trans ey.symm

/-- What is rounded has no sign and is never nan. -/
theorem Rounds.isFinite_or {q : ℚ} {x : Binary64} (h : Rounds q x) :
    x.isFinite ∨ x = .infinite false := by
  obtain ⟨n, hn, -, hx⟩ := h
  rw [hx, ofUnits]
  split
  · exact Or.inl rfl
  · exact Or.inr rfl

theorem isFinite_one : (1 : Binary64).isFinite := by decide +kernel

end PolySolve.Binary64

namespace PolySolve.Decimal

open Binary64

def toRat (d : Decimal) : ℚ := d.digits * (10 : ℚ) ^ d.exponent

theorem cast_tenPow (k : Nat) : (tenPow k : ℚ) = 10 ^ k := by
  rw [tenPow]
  exact_mod_cast rfl

theorem units_eq_toRat (d : Decimal) :
    (d.unitsNum : ℚ) / d.unitsDen = d.toRat * unitsPerOne := by
  rw [unitsNum, unitsDen, toRat]
  generalize unitsPerOne = u
  rw [Nat.cast_mul, Nat.cast_mul, cast_tenPow, cast_tenPow]
  cases d.exponent with
  | ofNat k => simp
  | negSucc k => simp [Int.toNat_negSucc, zpow_negSucc, div_eq_mul_inv, mul_right_comm]

/-- A decimal number is rounded once, to the nearest value. -/
theorem rounds_toBinary64 (d : Decimal) : Rounds d.toRat (d.toBinary64 false) := by
  rw [toBinary64_eq_round]
  refine ⟨_, onGrid_roundQuotient _ _, ?_, rfl⟩
  rw [← units_eq_toRat]
  exact isNearest_roundQuotient _ d.unitsDen_pos

end PolySolve.Decimal
