import PolySolve.Binary64.Basic

/-!
# Decimal numbers

A decimal number `digits * 10 ^ exponent`, the binary64 value nearest to it, and the digit
characters of whole numbers.

* `toBinary64_eq_round`: the two shortcuts for very small and very large numbers give what
  rounding the exact value gives.
-/

namespace PolySolve

open Binary64

/-- The number `digits * 10 ^ exponent`. -/
structure Decimal where
  digits : Nat
  exponent : Int
  deriving DecidableEq

namespace Decimal

/-! ## Powers of ten -/

def tenPow (k : Nat) : Nat := Nat.pow 10 k

theorem tenPow_zero : tenPow 0 = 1 := rfl

theorem tenPow_pos (k : Nat) : 0 < tenPow k := Nat.pow_pos (by decide)

theorem tenPow_add (j k : Nat) : tenPow (j + k) = tenPow j * tenPow k := Nat.pow_add 10 j k

theorem tenPow_le_of_le {j k : Nat} (h : j ≤ k) : tenPow j ≤ tenPow k :=
  Nat.pow_le_pow_right (n := 10) (by decide) h

theorem twoPow_three_mul_le (k : Nat) : twoPow (3 * k) ≤ tenPow k := by
  induction k with
  | zero => exact Nat.le_refl _
  | succ k ih =>
    have h10 : tenPow (k + 1) = tenPow k * 10 := rfl
    rw [Nat.mul_add, Nat.mul_one, twoPow_succ, twoPow_succ, twoPow_succ, h10]
    omega

/-! ## Values -/

/-- The number in units of the binary64 grid is `unitsNum / unitsDen`. -/
def unitsNum (d : Decimal) : Nat := d.digits * tenPow d.exponent.toNat * unitsPerOne

def unitsDen (d : Decimal) : Nat := tenPow (-d.exponent).toNat

theorem unitsDen_pos (d : Decimal) : 0 < d.unitsDen := tenPow_pos _

/-- The number is less than half a unit, told without computing a power of ten. -/
def isTiny (d : Decimal) : Bool :=
  d.digits == 0 || d.digits.log2 + 1 + (unitPlaces + 1) ≤ 3 * (-d.exponent).toNat

/-- From `10 ^ hugeExponent` on a number is too large for a finite value. -/
def hugeExponent : Nat := 309

/-- The number is too large for a finite value, told without computing a power of ten. -/
def isHuge (d : Decimal) : Bool := hugeExponent ≤ d.exponent.toNat

/-- The binary64 value nearest to the number, ties to even. -/
def toBinary64 (d : Decimal) (negative : Bool) : Binary64 :=
  if d.isTiny then finite negative 0 onGrid_zero overflowUnits_pos
  else if d.isHuge then infinite negative
  else Binary64.round negative d.unitsNum d.unitsDen

theorem two_mul_unitsNum_lt_of_isTiny {d : Decimal} (h : d.isTiny) :
    2 * d.unitsNum < d.unitsDen := by
  simp only [isTiny, Bool.or_eq_true, beq_iff_eq, decide_eq_true_eq] at h
  rcases h with h | h
  · rw [unitsNum, h, Nat.zero_mul, Nat.zero_mul, Nat.mul_zero]; exact unitsDen_pos d
  have he : d.exponent.toNat = 0 := by omega
  have hd := lt_twoPow_log2_succ d.digits
  rw [unitsNum, he, tenPow_zero, Nat.mul_one, unitsPerOne]
  generalize unitPlaces = u at h
  calc 2 * (d.digits * twoPow u) = d.digits * twoPow (u + 1) := by
        rw [twoPow_succ, Nat.mul_left_comm]
    _ < twoPow (d.digits.log2 + 1) * twoPow (u + 1) :=
        Nat.mul_lt_mul_of_pos_right hd (twoPow_pos _)
    _ = twoPow (d.digits.log2 + 1 + (u + 1)) := (twoPow_add ..).symm
    _ ≤ twoPow (3 * (-d.exponent).toNat) := twoPow_le_of_le h
    _ ≤ d.unitsDen := twoPow_three_mul_le _

theorem twoPow_exponentLimit_le : twoPow exponentLimit ≤ tenPow hugeExponent := by
  decide +kernel

theorem overflowUnits_le_of_isHuge {d : Decimal} (h0 : d.digits ≠ 0) (h : d.isHuge) :
    overflowUnits ≤ roundQuotient d.unitsNum d.unitsDen := by
  simp only [isHuge, decide_eq_true_eq] at h
  have hpos : 0 < hugeExponent := by decide
  have hexp : (-d.exponent).toNat = 0 := by omega
  have hden : d.unitsDen = 1 := by rw [unitsDen, hexp, tenPow_zero]
  have hnum : overflowUnits ≤ d.unitsNum := by
    rw [overflowUnits, twoPow_add, Nat.mul_comm]
    refine Nat.mul_le_mul_right _ ?_
    calc twoPow exponentLimit ≤ tenPow hugeExponent := twoPow_exponentLimit_le
      _ ≤ tenPow d.exponent.toNat := tenPow_le_of_le h
      _ ≤ d.digits * tenPow d.exponent.toNat := Nat.le_mul_of_pos_left _ (Nat.pos_of_ne_zero h0)
  rw [hden, roundQuotient, Nat.div_one, Nat.one_mul]
  generalize d.unitsNum = n at hnum
  have hn : n ≠ 0 := Nat.ne_of_gt (Nat.lt_of_lt_of_le overflowUnits_pos hnum)
  have hlog : unitPlaces + exponentLimit ≤ n.log2 := (le_log2_iff hn).2 hnum
  have h52 : 52 ≤ n.log2 := Nat.le_trans (show 52 ≤ unitPlaces + exponentLimit by decide) hlog
  have hs : spacing n * twoPow 52 = twoPow n.log2 := by
    rw [spacing, ← twoPow_add, Nat.sub_add_cancel h52]
  have hq : twoPow 52 ≤ n / spacing n := by
    rw [Nat.le_div_iff_mul_le (spacing_pos n), Nat.mul_comm, hs]; exact twoPow_log2_le hn
  calc overflowUnits ≤ twoPow n.log2 := twoPow_le_of_le hlog
    _ = spacing n * twoPow 52 := hs.symm
    _ ≤ spacing n * roundDiv n (spacing n) :=
        Nat.mul_le_mul_left _ (Nat.le_trans hq (div_le_roundDiv ..))

theorem roundQuotient_eq_zero {num den : Nat} (h : 2 * num < den) : roundQuotient num den = 0 := by
  have hq : num / den = 0 := Nat.div_eq_of_lt (by omega)
  have hs : spacing 0 = 1 := rfl
  rw [roundQuotient, hq, hs, roundDiv, Nat.mul_one, Nat.mod_eq_of_lt (by omega), if_pos h, hq]

theorem toBinary64_eq_round (d : Decimal) (negative : Bool) :
    d.toBinary64 negative = Binary64.round negative d.unitsNum d.unitsDen := by
  unfold toBinary64
  split
  · rename_i h
    have h0 := roundQuotient_eq_zero (two_mul_unitsNum_lt_of_isTiny h)
    simp [Binary64.round, ofUnits, h0, overflowUnits_pos]
  · rename_i ht
    split
    · rename_i h
      have h0 : d.digits ≠ 0 := by simp [isTiny] at ht; exact ht.1
      simp [Binary64.round, ofUnits, Nat.not_lt.2 (overflowUnits_le_of_isHuge h0 h)]
    · rfl

end Decimal

/-! ## Digit characters -/

namespace Decimal

/-- The decimal digits of a whole number, without leading zeros. -/
def digitChars (n : Nat) : List Char := Nat.toDigits 10 n

def zeros (count : Nat) : List Char := List.replicate count '0'

/-- The digits of a whole number, with leading zeros up to the given width. -/
def paddedDigits (width n : Nat) : List Char :=
  zeros (width - (digitChars n).length) ++ digitChars n

/-- The decimal digits of an integer, after a minus sign if it is below zero. -/
def intChars (n : Int) : List Char :=
  if n < 0 then '-' :: digitChars n.natAbs else digitChars n.natAbs

theorem le_length_paddedDigits (width n : Nat) : width ≤ (paddedDigits width n).length := by
  simp [paddedDigits, zeros]; omega

end Decimal

end PolySolve
