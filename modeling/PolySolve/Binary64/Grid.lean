/-!
# The grid of binary64 magnitudes

A finite magnitude is a whole number of units of `2⁻¹⁰⁷⁴` with at most 53
significant bits. This module says which numbers of units those are (`OnGrid`)
and rounds quotients and square roots to them, to nearest and ties to even:

* `onGrid_roundQuotient`, `onGrid_roundRoot`: rounding lands on the grid;
* `roundDiv_mul_cancel`: a division that comes out even is not rounded;
* `roundQuotient_of_onGrid`: a magnitude on the grid rounds to itself.
-/

namespace PolySolve.Binary64

/-! ## Powers of two -/

def twoPow (k : Nat) : Nat := Nat.pow 2 k

theorem twoPow_zero : twoPow 0 = 1 := rfl

theorem twoPow_succ (k : Nat) : twoPow (k + 1) = 2 * twoPow k := Nat.mul_comm _ 2

theorem twoPow_add (j k : Nat) : twoPow (j + k) = twoPow j * twoPow k := Nat.pow_add 2 j k

theorem twoPow_pos (k : Nat) : 0 < twoPow k := Nat.two_pow_pos k

theorem twoPow_le_of_le {j k : Nat} (h : j ≤ k) : twoPow j ≤ twoPow k :=
  Nat.pow_le_pow_right (n := 2) (by decide) h

theorem twoPow_dvd_of_le {j k : Nat} (h : j ≤ k) : twoPow j ∣ twoPow k := Nat.pow_dvd_pow 2 h

theorem twoPow_log2_le {n : Nat} (h : n ≠ 0) : twoPow n.log2 ≤ n := Nat.log2_self_le h

theorem lt_twoPow_log2_succ (n : Nat) : n < twoPow (n.log2 + 1) := Nat.lt_log2_self

theorem le_log2_iff {n k : Nat} (h : n ≠ 0) : k ≤ n.log2 ↔ twoPow k ≤ n := Nat.le_log2 h

theorem log2_lt_iff {n k : Nat} (h : n ≠ 0) : n.log2 < k ↔ n < twoPow k := Nat.log2_lt h

/-! ## The grid -/

/-- The distance in units from a magnitude of `n` units to the next one above it. -/
def spacing (n : Nat) : Nat := twoPow (n.log2 - 52)

/-- At most 53 significant bits. -/
def OnGrid (n : Nat) : Prop := spacing n ∣ n

instance (n : Nat) : Decidable (OnGrid n) := inferInstanceAs (Decidable (_ ∣ _))

theorem spacing_pos (n : Nat) : 0 < spacing n := twoPow_pos _

theorem onGrid_zero : OnGrid 0 := ⟨0, rfl⟩

theorem onGrid_twoPow_mul (k : Nat) {t : Nat} (ht : t < twoPow 53) : OnGrid (twoPow k * t) := by
  by_cases h0 : t = 0
  · subst h0; exact ⟨0, by simp⟩
  have hn : twoPow k * t ≠ 0 := Nat.mul_ne_zero (Nat.ne_of_gt (twoPow_pos k)) h0
  have hlog : (twoPow k * t).log2 < k + 53 := by
    rw [log2_lt_iff hn, twoPow_add]
    exact Nat.mul_lt_mul_of_pos_left ht (twoPow_pos k)
  exact Nat.dvd_trans (twoPow_dvd_of_le (by omega)) (Nat.dvd_mul_right _ _)

theorem onGrid_twoPow_mul_of_le (k : Nat) {t : Nat} (ht : t ≤ twoPow 53) :
    OnGrid (twoPow k * t) := by
  rcases Nat.lt_or_eq_of_le ht with h | rfl
  · exact onGrid_twoPow_mul k h
  · rw [← twoPow_add, ← Nat.mul_one (twoPow (k + 53))]
    exact onGrid_twoPow_mul (k + 53) (by decide)

theorem onGrid_of_lt {n : Nat} (h : n < twoPow 53) : OnGrid n := by
  simpa [twoPow_zero] using onGrid_twoPow_mul 0 h

/-- Dividing a magnitude by its spacing leaves at most 53 bits. -/
theorem div_spacing_lt (n : Nat) : n / spacing n < twoPow 53 := by
  rw [Nat.div_lt_iff_lt_mul (spacing_pos n), spacing, ← twoPow_add]
  exact Nat.lt_of_lt_of_le (lt_twoPow_log2_succ n) (twoPow_le_of_le (by omega))

/-! ## Quotients -/

/-- `num / den` to the nearest whole number, a half going to the even neighbour. -/
def roundDiv (num den : Nat) : Nat :=
  if 2 * (num % den) < den then num / den
  else if den < 2 * (num % den) then num / den + 1
  else num / den + num / den % 2

theorem div_le_roundDiv (num den : Nat) : num / den ≤ roundDiv num den := by
  unfold roundDiv; split
  · exact Nat.le_refl _
  · split <;> exact Nat.le_add_right _ _

theorem roundDiv_le_succ (num den : Nat) : roundDiv num den ≤ num / den + 1 := by
  unfold roundDiv; split
  · exact Nat.le_succ _
  · split <;> omega

theorem roundDiv_mul_cancel (n : Nat) {den : Nat} (h : 0 < den) : roundDiv (n * den) den = n := by
  simp [roundDiv, h, Nat.mul_div_cancel n h]

/-- The magnitude nearest to `num / den` units. -/
def roundQuotient (num den : Nat) : Nat :=
  spacing (num / den) * roundDiv num (den * spacing (num / den))

theorem onGrid_roundQuotient (num den : Nat) : OnGrid (roundQuotient num den) := by
  refine onGrid_twoPow_mul_of_le _ (Nat.le_trans (roundDiv_le_succ _ _) ?_)
  rw [← Nat.div_div_eq_div_mul]
  exact div_spacing_lt (num / den)

theorem roundQuotient_of_onGrid {n : Nat} (h : OnGrid n) {den : Nat} (hd : 0 < den) :
    roundQuotient (n * den) den = n := by
  have hn : spacing n * (n / spacing n) = n := Nat.mul_div_cancel' h
  have hs : n * den = n / spacing n * (den * spacing n) := by
    rw [Nat.mul_comm den, ← Nat.mul_assoc, Nat.mul_comm _ (spacing n), hn]
  rw [roundQuotient, Nat.mul_div_cancel n hd]
  conv => lhs; rw [hs]
  rw [roundDiv_mul_cancel _ (Nat.mul_pos hd (spacing_pos n)), hn]

/-! ## Square roots -/

/-- The integer square root of a number of at most `2 * k` bits, one bit for each step. -/
def rootBits : Nat → Nat → Nat
  | 0, _ => 0
  | k + 1, n =>
    let r := 2 * rootBits k (n / 4)
    if (r + 1) * (r + 1) ≤ n then r + 1 else r

/-- The integer square root, rounded down. -/
def root (n : Nat) : Nat := rootBits (n.log2 / 2 + 1) n

theorem rootBits_spec (k : Nat) {n : Nat} (h : n < twoPow (2 * k)) :
    rootBits k n * rootBits k n ≤ n ∧ n < (rootBits k n + 1) * (rootBits k n + 1) := by
  induction k generalizing n with
  | zero => simp [twoPow_zero] at h; simp [rootBits, h]
  | succ k ih =>
    have hq : n / 4 < twoPow (2 * k) := by
      rw [Nat.mul_add, Nat.mul_one, twoPow_succ, twoPow_succ] at h
      rw [Nat.div_lt_iff_lt_mul (by decide)]; omega
    obtain ⟨lo, hi⟩ := ih hq
    simp only [rootBits]
    generalize rootBits k (n / 4) = r at lo hi
    have hlo : 4 * (r * r) ≤ n := by omega
    have hhi : n < 4 * ((r + 1) * (r + 1)) := by omega
    split
    · rename_i hle
      refine ⟨hle, ?_⟩
      have : (2 * r + 1 + 1) * (2 * r + 1 + 1) = 4 * ((r + 1) * (r + 1)) := by grind
      omega
    · rename_i hle
      refine ⟨?_, by omega⟩
      have : 2 * r * (2 * r) = 4 * (r * r) := by grind
      omega

theorem root_spec (n : Nat) : root n * root n ≤ n ∧ n < (root n + 1) * (root n + 1) := by
  apply rootBits_spec
  exact Nat.lt_of_lt_of_le (lt_twoPow_log2_succ n) (twoPow_le_of_le (by omega))

/-- The magnitude nearest to `√n` units: the square root falls between two
neighbours `t * s` and `(t + 1) * s` on the grid, and `4 * n` is compared with the
square of their sum. -/
def roundRoot (n : Nat) : Nat :=
  let s := spacing (root n)
  let t := root n / s
  let middle := (2 * t + 1) * s
  s * (if 4 * n < middle * middle then t else if middle * middle < 4 * n then t + 1 else t + t % 2)

theorem onGrid_roundRoot (n : Nat) : OnGrid (roundRoot n) := by
  refine onGrid_twoPow_mul_of_le _ ?_
  have h := div_spacing_lt (root n)
  split
  · exact Nat.le_of_lt h
  · split <;> omega

end PolySolve.Binary64
