import PolySolve.Proofs.Decimal.Shortest

/-!
# No decimal with fewer digits reads back

The search for the shortest decimal tries one digit, then two, and so on, and looks only at the two
neighbours of the value among the decimals with that many digits. Nothing is missed by this. What
reads back is an interval around the value, so if any decimal with `k` digits reads back, then so
does one of the two neighbours.

* `lt_mul_pointPosition`: all digits stand after the point position;
* `readsBack_of_between`: what reads back is an interval;
* `isSome_onDecimalGrid`: looking at the neighbours is enough;
* `exists_readsBack_multiple`: a decimal with `k` digits is on the grid that is searched for `k`, or
  the power of ten between it and the value is;
* `length_digits_shortest_le`: the shortest decimal has the fewest digits;
* `exponent_shortest_neg`: a magnitude with a fraction has digits after the point.
-/

namespace PolySolve.Decimal

open Binary64

-- The elaborator must not evaluate these powers of two.
attribute [local irreducible] overflowUnits unitsPerOne

/-! ## The place of the first digit -/

theorem mul_leadingZeros_lt (k : Nat) {n : Nat} (h : n < unitsPerOne) :
    n * tenPow (leadingZeros k n) < unitsPerOne := by
  induction k generalizing n with
  | zero => rwa [leadingZeros, tenPow_zero, Nat.mul_one]
  | succ k ih =>
    rw [leadingZeros]
    split
    · rwa [tenPow_zero, Nat.mul_one]
    · have hten := ih (n := 10 * n) (by omega)
      rw [tenPow_succ, ← Nat.mul_assoc, Nat.mul_right_comm, Nat.mul_comm n 10]
      exact hten

/-- The value is less than the power of ten at the point position. -/
theorem lt_mul_pointPosition (n : Nat) : (n : ℚ) < unitsPerOne * 10 ^ pointPosition n := by
  unfold pointPosition
  split
  · have hlt : n < unitsPerOne * 10 ^ (digitChars (n / unitsPerOne)).length := by
      calc n < unitsPerOne * (n / unitsPerOne + 1) := Nat.lt_mul_div_succ n unitsPerOne_pos
        _ ≤ _ := Nat.mul_le_mul_left _ (lt_tenPow_length _)
    rw [zpow_natCast]
    exact_mod_cast hlt
  · rename_i hsmall
    have hlt := mul_leadingZeros_lt 324 (Nat.lt_of_not_le hsmall)
    rw [zpow_neg, zpow_natCast, ← cast_tenPow, ← div_eq_mul_inv,
      lt_div_iff₀ (by exact_mod_cast tenPow_pos _)]
    exact_mod_cast hlt

section

variable {n : Nat}

/-! ## What reads back is an interval -/

theorem readsBack_congr {a b : Decimal} (h : a.toRat = b.toRat) :
    readsBack a n ↔ readsBack b n := by
  rw [readsBack_iff, readsBack_iff, h]

/-- A decimal between the value and another one that reads back does so too. -/
theorem readsBack_of_between (hn : OnGrid n) {a b : Decimal} (ha : readsBack a n)
    (h : (a.toRat ≤ b.toRat ∧ b.toRat * unitsPerOne ≤ n) ∨
      (b.toRat ≤ a.toRat ∧ n ≤ b.toRat * unitsPerOne)) : readsBack b n := by
  have hU := cast_unitsPerOne_pos.le
  have nearest := isNearest_units b
  have value := isNearest_natCast hn
  have other := readsBack_iff.1 ha
  rw [readsBack, beq_iff_eq]
  rcases h with ⟨hab, hbn⟩ | ⟨hba, hnb⟩
  · exact le_antisymm (nearest.mono value hbn)
      (other.mono nearest (mul_le_mul_of_nonneg_right hab hU))
  · exact le_antisymm (nearest.mono other (mul_le_mul_of_nonneg_right hba hU))
      (value.mono nearest hnb)

/-! ## Neighbours on a decimal grid -/

variable {e : Int}

theorem toRat_mono {j k : Nat} (h : j ≤ k) (e : Int) : toRat ⟨j, e⟩ ≤ toRat ⟨k, e⟩ :=
  mul_le_mul_of_nonneg_right (by exact_mod_cast h) (by positivity)

/-- The multiple below the value. -/
theorem below_le (n : Nat) (e : Int) :
    toRat ⟨scaledNum n e / scaledDen e, e⟩ * unitsPerOne ≤ n := by
  have hunit : (0 : ℚ) < unitsPerOne * 10 ^ e := mul_pos cast_unitsPerOne_pos (by positivity)
  have hden : (0 : ℚ) < scaledDen e := by exact_mod_cast scaledDen_pos e
  have hfloor : ((scaledNum n e / scaledDen e : Nat) : ℚ) ≤ n / (unitsPerOne * 10 ^ e) := by
    rw [← scaledNum_div_scaledDen, le_div_iff₀ hden]
    exact_mod_cast Nat.div_mul_le_self (scaledNum n e) (scaledDen e)
  rw [le_div_iff₀ hunit] at hfloor
  rw [toRat]
  linarith

/-- The multiple above the value. -/
theorem lt_above (n : Nat) (e : Int) :
    n < toRat ⟨scaledNum n e / scaledDen e + 1, e⟩ * unitsPerOne := by
  have hunit : (0 : ℚ) < unitsPerOne * 10 ^ e := mul_pos cast_unitsPerOne_pos (by positivity)
  have hden : (0 : ℚ) < scaledDen e := by exact_mod_cast scaledDen_pos e
  have hceil : (n : ℚ) / (unitsPerOne * 10 ^ e) < (scaledNum n e / scaledDen e + 1 : Nat) := by
    rw [← scaledNum_div_scaledDen, div_lt_iff₀ hden, mul_comm]
    exact_mod_cast Nat.lt_mul_div_succ (scaledNum n e) (scaledDen_pos e)
  rw [div_lt_iff₀ hunit] at hceil
  rw [toRat]
  linarith

/-- If any multiple reads back then one of the two neighbours is found. -/
theorem isSome_onDecimalGrid (hn : OnGrid n) {m : Nat} (h : readsBack ⟨m, e⟩ n) :
    (onDecimalGrid n e).isSome := by
  have hbelow := below_le n e
  have habove := lt_above n e
  have hnearer : roundDiv (scaledNum n e) (scaledDen e) = scaledNum n e / scaledDen e ∨
      roundDiv (scaledNum n e) (scaledDen e) = scaledNum n e / scaledDen e + 1 := by
    have hle := div_le_roundDiv (scaledNum n e) (scaledDen e)
    have hsucc := roundDiv_le_succ (scaledNum n e) (scaledDen e)
    omega
  unfold onDecimalGrid
  dsimp only
  generalize scaledNum n e / scaledDen e = below at *
  have found : readsBack ⟨below, e⟩ n ∨ readsBack ⟨below + 1, e⟩ n := by
    rcases Nat.lt_or_ge below m with hlt | hge
    · exact Or.inr (readsBack_of_between hn h (Or.inr ⟨toRat_mono hlt e, habove.le⟩))
    · exact Or.inl (readsBack_of_between hn h (Or.inl ⟨toRat_mono hge e, hbelow⟩))
  rcases hnearer with hnearer | hnearer
  · have hother : (if below = below then below + 1 else below) = below + 1 := if_pos rfl
    rw [hnearer, hother]
    rcases found with found | found
    · rw [if_pos found]
      rfl
    · rw [if_pos found]
      split <;> rfl
  · have hother : (if below + 1 = below then below + 1 else below) = below := if_neg (by omega)
    rw [hnearer, hother]
    rcases found with found | found
    · rw [if_pos found]
      split <;> rfl
    · rw [if_pos found]
      rfl

/-- What is found has one of the two neighbours for its digits. -/
theorem digits_le_of_onDecimalGrid {d : Decimal} (h : onDecimalGrid n e = some d) :
    d.digits ≤ scaledNum n e / scaledDen e + 1 := by
  have hsucc := roundDiv_le_succ (scaledNum n e) (scaledDen e)
  simp only [onDecimalGrid] at h
  generalize scaledNum n e / scaledDen e = below at *
  generalize roundDiv (scaledNum n e) (scaledDen e) = nearer at *
  have hother : (if nearer = below then below + 1 else below) ≤ below + 1 := by
    split <;> omega
  generalize (if nearer = below then below + 1 else below) = other at *
  split at h
  · obtain rfl := Option.some.inj h
    exact hsucc
  split at h
  · obtain rfl := Option.some.inj h
    exact hother
  · contradiction

/-- The value has no more than `k` digits on the grid that is searched for `k`. -/
theorem below_lt_tenPow (n k : Nat) :
    scaledNum n (pointPosition n - k) / scaledDen (pointPosition n - k) < 10 ^ k := by
  have hunit : (0 : ℚ) < unitsPerOne * 10 ^ (pointPosition n - k) :=
    mul_pos cast_unitsPerOne_pos (by positivity)
  have hscale : (10 : ℚ) ^ pointPosition n = 10 ^ k * 10 ^ (pointPosition n - k) := by
    rw [← zpow_natCast (10 : ℚ) k, ← zpow_add₀ (by norm_num)]
    congr 1
    ring
  have hlt := (below_le n (pointPosition n - k)).trans_lt (lt_mul_pointPosition n)
  rw [hscale, toRat] at hlt
  dsimp only at hlt
  generalize scaledNum n (pointPosition n - k) / scaledDen (pointPosition n - k) = below at *
  have hcast : (below : ℚ) < (10 ^ k : Nat) := by
    push_cast
    refine lt_of_mul_lt_mul_right ?_ hunit.le
    linarith
  exact_mod_cast hcast

/-! ## The search -/

/-- The search ends at the first number of digits with which something is found. -/
theorem exists_onDecimalGrid_eq_some {point : Int} {left k j : Nat}
    (h : (onDecimalGrid n (point - j)).isSome) (hk : k ≤ j) (hj : j < k + left) :
    ∃ i, k ≤ i ∧ i ≤ j ∧ onDecimalGrid n (point - i) = some (shortestFrom n point left k) := by
  induction left generalizing k with
  | zero => omega
  | succ left ih =>
    rw [shortestFrom]
    cases hd : onDecimalGrid n (point - k) with
    | some d => exact ⟨k, Nat.le_refl k, hk, hd⟩
    | none =>
      have hne : k ≠ j := by
        rintro rfl
        rw [hd] at h
        contradiction
      obtain ⟨i, hki, hij, hi⟩ := ih (k := k + 1) (by omega) (by omega)
      exact ⟨i, by omega, hij, hi⟩

theorem digits_dropZero_le (d : Decimal) : d.dropZero.digits ≤ d.digits := by
  unfold dropZero
  split
  · exact Nat.div_le_self _ _
  · exact Nat.le_refl _

/-- One followed by zeros only loses a zero. -/
theorem digits_dropZero_lt {d : Decimal} {k : Nat} (hk : k ≠ 0) (h : d.digits ≤ 10 ^ k) :
    d.dropZero.digits < 10 ^ k := by
  rcases Nat.lt_or_eq_of_le h with hlt | heq
  · exact Nat.lt_of_le_of_lt (digits_dropZero_le d) hlt
  · have hpos : 0 < 10 ^ k := Nat.pow_pos (by decide)
    have hzero : d.digits % 10 = 0 := by
      rw [heq]
      exact Nat.mod_eq_zero_of_dvd (dvd_pow_self 10 hk)
    rw [dropZero, if_pos hzero, heq]
    exact Nat.div_lt_self hpos (by decide)

/-- If a multiple on the grid for `k` digits reads back, the shortest decimal has no more. -/
theorem digits_shortest_lt (hn : OnGrid n) {k m : Nat} (hk : k ≠ 0) (hmost : k ≤ 17)
    (h : readsBack ⟨m, pointPosition n - k⟩ n) : (shortest n).digits < 10 ^ k := by
  obtain ⟨i, hi, hik, hfound⟩ : ∃ i, 1 ≤ i ∧ i ≤ k ∧ onDecimalGrid n (pointPosition n - i) =
      some (shortestFrom n (pointPosition n) 17 1) :=
    exists_onDecimalGrid_eq_some (isSome_onDecimalGrid hn h) (by omega) (by omega)
  have hdigits := digits_le_of_onDecimalGrid hfound
  have hbelow := below_lt_tenPow n i
  have hlt : (shortest n).digits < 10 ^ i := digits_dropZero_lt (by omega) (by omega)
  exact hlt.trans_le (Nat.pow_le_pow_right (by decide) hik)

/-! ## All decimals -/

/-- A decimal with `k` digits that reads back is a multiple on the grid for `k` digits, or it is
below the power of ten at the first digit, which then reads back too. -/
theorem exists_readsBack_multiple (hn : OnGrid n) (h0 : n ≠ 0) {d : Decimal} (h : readsBack d n)
    {k : Nat} (hk : k ≠ 0) (hd : d.digits < 10 ^ k) :
    ∃ m : Nat, readsBack ⟨m, pointPosition n - k⟩ n := by
  rcases le_or_gt (pointPosition n - k) d.exponent with hle | hlt
  · refine ⟨d.digits * 10 ^ (d.exponent - (pointPosition n - k)).toNat, ?_⟩
    refine (readsBack_congr ?_).1 h
    have hexp : d.exponent = ((d.exponent - (pointPosition n - k)).toNat : ℤ) +
        (pointPosition n - k) := by omega
    generalize (d.exponent - (pointPosition n - k)).toNat = i at *
    rw [toRat, toRat, hexp, zpow_add₀ (by norm_num), zpow_natCast]
    push_cast
    ring
  · refine ⟨10 ^ (k - 1), ?_⟩
    have hpower : toRat ⟨10 ^ (k - 1), pointPosition n - k⟩ = 10 ^ (pointPosition n - 1) := by
      rw [toRat]
      push_cast
      rw [← zpow_natCast (10 : ℚ) (k - 1), ← zpow_add₀ (by norm_num)]
      congr 1
      omega
    have hfirst := unitsPerOne_mul_le h0
    refine readsBack_of_between hn h (Or.inl ⟨?_, ?_⟩)
    · rw [hpower]
      calc d.toRat ≤ (10 ^ k : Nat) * 10 ^ d.exponent :=
            mul_le_mul_of_nonneg_right (by exact_mod_cast hd.le) (by positivity)
        _ = 10 ^ (k + d.exponent) := by
            push_cast
            rw [← zpow_natCast (10 : ℚ) k, ← zpow_add₀ (by norm_num)]
        _ ≤ 10 ^ (pointPosition n - 1) := zpow_le_zpow_right₀ (by norm_num) (by omega)
    · rw [hpower, mul_comm]
      exact hfirst

/-- No decimal that reads back has fewer digits than the shortest one. -/
theorem length_digits_shortest_le (hn : OnGrid n) (h0 : n ≠ 0) {d : Decimal}
    (h : readsBack d n) :
    (digitChars (shortest n).digits).length ≤ (digitChars d.digits).length := by
  have hpos := length_digitChars_pos d.digits
  rw [length_digitChars_le_iff hpos]
  rcases Nat.lt_or_ge 17 (digitChars d.digits).length with hmore | hmost
  · have hlt := digits_shortest_lt hn (by decide) (Nat.le_refl 17)
      (readsBack_iff.2 (isNearest_seventeenDigits hn h0))
    exact hlt.trans_le (Nat.pow_le_pow_right (by decide) hmore.le)
  · obtain ⟨m, hm⟩ := exists_readsBack_multiple hn h0 h hpos.ne' (lt_tenPow_length d.digits)
    exact digits_shortest_lt hn hpos.ne' hmost hm

/-! ## Digits after the point -/

/-- Whole numbers are rounded to whole numbers. -/
theorem unitsPerOne_dvd_of_isNearest {k : Nat} (h : IsNearest (k * unitsPerOne) n) :
    unitsPerOne ∣ n := by
  by_contra hdvd
  rw [unitsPerOne_eq] at hdvd
  have hlt := lt_of_not_twoPow_dvd h.onGrid hdvd
  have hgrid (t : Nat) (ht : t ≤ twoPow 53) : OnGrid (unitsPerOne * t) := by
    rw [unitsPerOne_eq]
    exact onGrid_twoPow_mul_of_le unitPlaces ht
  have hvalue (t : Nat) (ht : t ≤ twoPow 53) : IsNearest (t * unitsPerOne) (unitsPerOne * t) := by
    have nearest := isNearest_natCast (hgrid t ht)
    rwa [Nat.cast_mul, mul_comm] at nearest
  rcases Nat.le_total k (twoPow 53) with hle | hge
  · refine hdvd ?_
    rw [h.unique (hvalue k hle), unitsPerOne_eq]
    exact Nat.dvd_mul_right _ _
  · have hcast : ((twoPow 53 : Nat) : ℚ) * unitsPerOne ≤ k * unitsPerOne :=
      mul_le_mul_of_nonneg_right (by exact_mod_cast hge) cast_unitsPerOne_pos.le
    have hlarge := (hvalue _ (Nat.le_refl _)).mono h hcast
    rw [unitsPerOne_eq] at hlarge
    have hpow : twoPow unitPlaces * twoPow 52 ≤ twoPow unitPlaces * twoPow 53 :=
      Nat.mul_le_mul_left _ (by decide)
    omega

theorem exponent_shortest_neg (hn : OnGrid n) (h : ¬ unitsPerOne ∣ n) :
    (shortest n).exponent < 0 := by
  have h0 : n ≠ 0 := fun h0 => h (h0 ▸ Nat.dvd_zero _)
  by_contra hexp
  obtain ⟨i, hi⟩ := Int.eq_ofNat_of_zero_le (Int.not_lt.1 hexp)
  have nearest := isNearest_shortest hn h0
  have hwhole : (shortest n).toRat = ((shortest n).digits * 10 ^ i : Nat) := by
    rw [toRat, hi]
    push_cast
    rw [zpow_natCast]
  rw [hwhole] at nearest
  exact h (unitsPerOne_dvd_of_isNearest nearest)

end

end PolySolve.Decimal
